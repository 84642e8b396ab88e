import VleoNotebook.Lib.Number

/-! The account a bank transaction is booked against (`descriptionToCorrAcct`).

The description is tried on the patterns of a table, one for money that comes in and
one for money that goes out; the first entry with a pattern that matches gives the
account. A description that matches none goes to the account for all the others, and
is printed. -/
namespace VleoNotebook.Ledger

open Perl (Text Number Regex)

/-! ### Patterns -/

def text (s : String) : Regex Char := .lit s.toList

/-- `^s` -/
def start (s : String) : Regex Char := .cat .bos (text s)

/-- `$` -/
def atEnd : Regex Char := .eos (· = '\n')

/-- `.` -/
def dot : Regex Char := .sym (· ≠ '\n')

/-- `\d` -/
def digit : Regex Char := .sym Char.isDigit

/-- `\s+` -/
def blanks : Regex Char := .plus (.sym Perl.isSpace)

/-- Accounts, each with the patterns that lead to it. -/
abbrev Table := List (Nat × List (Regex Char))

/-- `@match1060DebitToCorrAcctCode`: where money that came in came from. -/
def match1060DebitToCorrAcctCode : Table := [
  (1200, [start "INTL WIRE", start "SG INTL WIRE", start "WIRE INTL", start "Wire",
    start "WIRE TRANSFER", start "WIRE", text "MAKI SERVICE"]),
  (1210, [start "PPD PAYPAL TRANSFER", text "PPD: PAYPAL TRANSFER",
    start "TRANSFIRST LLC VMC SETTLE", start "TRANSFIRST LLC BKCD STLMT",
    start "ACH TRANSFIRST LLC BKCD STLMT", start "CCD TRANSFIRST LLC BKCD STLMT",
    start "AMERICAN EXPRESS SETTLEMENT", start "ACH AMERICAN EXPRESS SETTLEMENT",
    start "DEPOSIT", text "CCD TRANSFIRST LLC RETURN"]),
  (2120, [text "BORROW FROM"]),
  (5770, [text "UPS"]),
  (5780, []),
  (9998, [.seq [.bos, atEnd], .seq [.bos, text "Deposit", atEnd],
    .seq [.bos, text "WIRE", atEnd], text "BORROWED"])]

/-- `@match1060CreditToCorrAcctCode`: where money that went out went. -/
def match1060CreditToCorrAcctCode : Table := [
  (1210, [start "TRANSFIRST LLC VMC SETTLE", start "ACH TRANSFIRST LLC BKCD STLMT",
    start "CCD TRANSFIRST LLC BKCD STLMT", start "CCD TRANSFIRST LLC RETURN",
    start "AMERICAN EXPRESS SETTLEMENT", start "ACH AMERICAN EXPRESS SETTLEMENT"]),
  (1520, [text "LONRUN", text "TT INTL HK TECH", text "TT INTL HK TECH",
    text "POTOMAC COMM TECH", text "POTOMAC", text "AVTECH", text "AV TECH"]),
  (1820, [start "ACME MICRO", start "ADDONICS TECHNOLOGIES", start "APCB COMPUTER",
    start "PROVANTAGE PROVANTAGE CORP", start "XYTRONIX RE XYTRONIX RESEARCH"]),
  (2120, [text "BORROW FROM"]),
  (5410, [text "PAYCHECK"]),
  (5610, [.seq [text "POS PP", .star dot, text "CODE PP"], start "PPD PAYPAL VERIFYBANK",
    start "TRANSFIRST LLC DISCOUNT", start "ACH TRANSFIRST LLC DISCOUNT",
    start "CCD TRANSFIRST LLC DISCOUNT", start "AMERICAN EXPRESS AXP DISCNT",
    start "AMERICAN EXPRESS COLLECTION", start "ACH AMERICAN EXPRESS AXP DISCNT",
    start "ACH AMERICAN EXPRESS COLLECTION", start "Maintenance Fee", start "MAINTENANCE FEE",
    start "Foreign ATM Fee", start "ANNUAL CHECKCARD FEE", start "Zions First National Bank",
    start "ZION", start "SERVICE CHARGES ASSESSED", text "NSF Paid Item Fee",
    text "HARLAND CLARKE CHK ORDER", text "MISC BANK FEE"]),
  (5710, [text "2CO.COM", .seq [text "BUY", dot, text "COM"],
    text "NATIONAL CO NATIONAL CONTROL DEV", text "AMAZON MKTPLACE"]),
  (5720, [text "ARRAY SOLUTION", text "TOTAL PHASE", text "LMA INC", text "LMLRU"]),
  (5770, [text "SHIPPING ORDERS", start "USPS", start "POS USPS", start "POS UPS",
    text "THE UPS STORE", start "300 W SOUTH AVE", start "113 9TH ST", start "PDQ MAIL & MORE",
    .seq [.bos, text "Check ", .star dot, text " UPS", atEnd]]),
  (5650, [start "GOOGLE", start "POS GOOGLE", start "Essen Trade Show"]),
  (5780, [text "KALL8", start "QWEST", text "CIT INTERNET", text "DATA 102", text "DATA102",
    text "PAYPAL INST XFER", text "WEB PAYPAL TRANSFER", text "PAYPAL TRANSFER", text "SKYPE"]),
  (5790, [start "GEOTRUST", start "NETWORK SOLUTIONS", start "POS NETWORK SOL",
    text "NETWORKSOLU", text "NAMECHEAPINC", text "WIKI DONATE"]),
  (5020, [start "AVERMEDIA TECHNOLOGIES", text "MIKE COLLINS"]),
  (5030, [text "GLOCOM", text "EE COMPONENTS 5030", text "FUTUREELECTRONICS"]),
  (5720, [start "PREMIER COMPONENTS", start "OEM PARTS", start "TRANSCEND INFORMATION",
    start "OPELCO", text "Amazon.com", text "IDOTPC INTERNATIONAL",
    .seq [text "BARNES", dot, text "NOBLE"], text "ADEX ELECTRONICS", start "CIRCUIT EXPRESS",
    .seq [text "DKC*DIGI", blanks, text "KEY", blanks, text "CORP"],
    text "IRONWOOD ELECTRONICS", text "MOUSER ELECTRONICS", text "CONSOURCE"]),
  (5700, [start "OFFICE DEPOT", start "POS OFFICE DEPO", text "BEST BUY"]),
  (5420, [start "RBA ATM", start "ATM 52", start "BANKOMAT", start "Alfa Acq",
    .seq [.bos, text "80", digit, digit], start "PAVELETSKAYA STATION",
    start "NUTRICENTRO INTERNATIO", start "ROS", start "SOYUZ", text "CASH WITHDRAWAL BANKOMAT",
    text "CASH WITHDRAWAL GEN TYULENEVA STR 4A", text "CASH WITHDRAWAL GENERALA TULENEVA 4A",
    text "CASH WITHDRAWAL MMB ATM", text "CASH WITHDRAWAL TEPLYY STAN STATION",
    text "CASH WITHDRAWAL BSGV SOCIETE GENERALE",
    .seq [text "CASH WITHDRAWAL ", .star dot, text "ATM"]]),
  (5800, [text "ESSENER"]),
  (5910, [text "H&R BLOCK", .seq [text "H", dot, text "R BLOCK"], text "SECRETARY OF STATE",
    text "SOS REGISTRATION FEE", text "COLORADO DEPT OF REVENUE SALES TAX", text "SALES TAX",
    text "DEPT OF REVENUE CO"]),
  (5999, [text "900 TAMARAC PKWY", text "LWN.NET"]),
  (9999, [start "INTL WIRE AND FEE"])]

/-! ### Looking up -/

/-- The table for an amount of this sign. -/
def corrAcctCode (amount : Number) : Table :=
  if amount.IsPos then match1060DebitToCorrAcctCode else match1060CreditToCorrAcctCode

/-- The first account with a pattern that matches. -/
def Table.account (t : Table) (desc : Text) : Option Nat :=
  t.findSome? fun entry => if entry.2.any (·.isMatch desc) then some entry.1 else none

/-- `descriptionToAccount`: the account, and what is printed on the way. -/
def descriptionToAccount (desc : Text) (amount : Number) : Nat × List Text :=
  match (corrAcctCode amount).account desc with
  | some acct => (acct, [])
  | none => (if amount.IsPos then 9998 else 9999, [desc])

/-- Some pattern of the table for the amount matches. -/
def Classified (desc : Text) (amount : Number) : Prop :=
  ∃ entry ∈ corrAcctCode amount, ∃ pattern ∈ entry.2, pattern.isMatch desc

theorem classified_iff (desc : Text) (amount : Number) :
    Classified desc amount ↔ (descriptionToAccount desc amount).2 = [] := by
  have hnone : (corrAcctCode amount).account desc = none ↔ ¬ Classified desc amount := by
    simp [Table.account, Classified]
  unfold descriptionToAccount
  cases h : (corrAcctCode amount).account desc with
  | some acct =>
    refine iff_of_true ?_ rfl
    by_contra hno
    rw [hnone.mpr hno] at h
    cases h
  | none => exact iff_of_false (hnone.mp h) (List.cons_ne_nil _ _)

/-- What is printed is the description, or nothing. -/
theorem mem_printed {desc l : Text} {amount : Number}
    (h : l ∈ (descriptionToAccount desc amount).2) : l = desc := by
  unfold descriptionToAccount at h
  cases hacct : (corrAcctCode amount).account desc with
  | some acct =>
    rw [hacct] at h
    cases h
  | none =>
    rw [hacct] at h
    exact List.mem_singleton.mp h

end VleoNotebook.Ledger
