import VleoNotebook.Pcap.Checksum

/-! The checksum of a captured UDP packet (`UDPchecksum`).

The routine writes the pseudo-header into the IP header that stands in front of the addresses,
four zero bytes past the packet, and adds up double words from there to the end of the packet.
It is the checksum that `cksum` computes in two parts, over the pseudo-header and over the UDP
part (`UDPchecksum_eq`): a double word counts as its two words do when the sum is folded, and
what it reads past the packet is zero.

A load or a store past the end of the buffer has no result. The accumulator of 64 bits and the
signed size are wide enough for every packet, so both are unbounded here. -/
namespace VleoNotebook.Pcap

open OnesComplement (fold fold_eq rep rep_congr rep_rep_add)

def UDP_LEN : Nat := 38

def IP_LIVE : Nat := 22

def IP_CHECKSUM : Nat := 24

/-! ### The buffer -/

def load8 (pkt : Bytes) (i : Nat) : Option UInt8 := pkt[i]?

def store8 (pkt : Bytes) (i : Nat) (b : UInt8) : Option Bytes :=
  if i < pkt.length then some (pkt.set i b) else none

theorem store8_of_lt {pkt : Bytes} {i : Nat} (h : i < pkt.length) (b : UInt8) :
    store8 pkt i b = some (pkt.set i b) := if_pos h

/-- `*pDW` -/
def load32 (pkt : Bytes) (pDW : Nat) : Option Nat := do
  let low := word (← load8 pkt pDW) (← load8 pkt (pDW + 1))
  let high := word (← load8 pkt (pDW + 2)) (← load8 pkt (pDW + 3))
  return low + 65536 * high

/-- `*pDW = 0` -/
def clear32 (pkt : Bytes) (pDW : Nat) : Option Bytes := do
  let pkt ← store8 pkt pDW 0
  let pkt ← store8 pkt (pDW + 1) 0
  let pkt ← store8 pkt (pDW + 2) 0
  store8 pkt (pDW + 3) 0

/-- `while( nSize > 0 ) { qwSum += *pDW++; nSize -= 4; }` -/
def addDWords (pkt : Bytes) (pDW : Nat) (nSize : Int) (qwSum : Nat) : Option Nat :=
  if 0 < nSize then do
    let dw ← load32 pkt pDW
    addDWords pkt (pDW + 4) (nSize - 4) (qwSum + dw)
  else
    some qwSum
termination_by nSize.toNat

/-- `UDPchecksum`: the checksum, and the buffer as it is left. -/
def UDPchecksum (caplen : Nat) (pPkt_data : Bytes) : Option (UInt16 × Bytes) := do
  let pkt ← clear32 pPkt_data caplen
  let pkt ← store8 pkt IP_LIVE 0
  let pkt ← store8 pkt (IP_CHECKSUM + 1) (← load8 pkt (UDP_LEN + 1))
  let pkt ← store8 pkt IP_CHECKSUM (← load8 pkt UDP_LEN)
  let qwSum ← addDWords pkt 22 (caplen - IP_LIVE) 0
  return (invert (fold 16 qwSum), pkt)

/-! ### Parts of the buffer -/

/-- `n` bytes from `i` on. -/
def bytesAt (pkt : Bytes) (i n : Nat) : Bytes := (pkt.drop i).take n

theorem bytesAt_add (pkt : Bytes) (i m n : Nat) :
    bytesAt pkt i (m + n) = bytesAt pkt i m ++ bytesAt pkt (i + m) n := by
  rw [bytesAt, List.take_add, List.drop_drop]
  rfl

theorem bytesAt_set {pkt : Bytes} {i n x : Nat} (h : x < i ∨ i + n ≤ x) (b : UInt8) :
    bytesAt (pkt.set x b) i n = bytesAt pkt i n := by
  refine List.ext_getElem? fun k => ?_
  simp only [bytesAt, List.getElem?_take, List.getElem?_drop]
  split
  · rw [List.getElem?_set_ne (by omega)]
  · rfl

theorem bytesAt_zero (pkt : Bytes) (i : Nat) : bytesAt pkt i 0 = [] := List.take_zero

theorem bytesAt_succ {pkt : Bytes} {i : Nat} (h : i < pkt.length) (n : Nat) :
    bytesAt pkt i (n + 1) = pkt.getD i 0 :: bytesAt pkt (i + 1) n := by
  rw [bytesAt, List.drop_eq_getElem_cons h, List.take_succ_cons, List.getD_eq_getElem?_getD,
    List.getElem?_eq_getElem h]
  rfl

theorem length_bytesAt {pkt : Bytes} {i n : Nat} (h : i + n ≤ pkt.length) :
    (bytesAt pkt i n).length = n := by
  rw [bytesAt, List.length_take, List.length_drop]
  omega

/-- The source and the destination address, a zero, the protocol and the length of the UDP
part, as `struct udp_pseudo_header` has them. -/
def pseudoHeader (pkt : Bytes) : Bytes :=
  bytesAt pkt 26 4 ++ bytesAt pkt 30 4 ++ [0] ++ bytesAt pkt 23 1 ++ bytesAt pkt UDP_LEN 2

/-! ### The loop -/

/-- Sixteen bits further up a word counts the same. -/
theorem rep_dword (s low high : Nat) :
    rep 16 (s + (low + 65536 * high)) = rep 16 (s + low + high) := by
  refine rep_congr ?_ (by omega)
  calc s + (low + 65536 * high)
    _ = s + low + high + (2 ^ 16 - 1) * high := by omega
    _ ≡ s + low + high [MOD 2 ^ 16 - 1] := by
      rw [Nat.ModEq, Nat.add_mul_mod_self_left]

theorem rep_sumWords_congr {s t : Nat} (h : rep 16 s = rep 16 t) (a : Bytes) :
    rep 16 (sumWords s a) = rep 16 (sumWords t a) := by
  rw [sumWords_eq a s, sumWords_eq a t, ← rep_rep_add, h, rep_rep_add]

theorem load32_eq (pkt : Bytes) (p : Nat) (h : p + 4 ≤ pkt.length) :
    ∃ a b c d, pkt.drop p = a :: b :: c :: d :: pkt.drop (p + 4) ∧
      load32 pkt p = some (word a b + 65536 * word c d) := by
  refine ⟨pkt[p], pkt[p + 1], pkt[p + 2], pkt[p + 3], ?_, ?_⟩
  · rw [List.drop_eq_getElem_cons (by omega), List.drop_eq_getElem_cons (by omega),
      List.drop_eq_getElem_cons (by omega), List.drop_eq_getElem_cons (by omega)]
  · have hload {i : Nat} (hi : i < pkt.length) : load8 pkt i = some pkt[i] :=
      List.getElem?_eq_getElem hi
    rw [load32, hload (by omega), hload (by omega), hload (by omega), hload (by omega)]
    rfl

theorem addDWords_step {pkt : Bytes} {p dw : Nat} {nSize : Int} (hn : 0 < nSize)
    (hload : load32 pkt p = some dw) (s : Nat) :
    addDWords pkt p nSize s = addDWords pkt (p + 4) (nSize - 4) (s + dw) := by
  rw [addDWords, if_pos hn, hload]
  rfl

theorem addDWords_done {nSize : Int} (hn : nSize ≤ 0) (pkt : Bytes) (p s : Nat) :
    addDWords pkt p nSize s = some s := by
  rw [addDWords, if_neg (by omega)]

/-- The last turn reads what is left of the packet and zeros. -/
theorem rep_lastDWord {a b c d : UInt8} {rest : Bytes} {n : Nat} (hn : 0 < n) (hlt : n < 4)
    (hzero : ((a :: b :: c :: d :: rest).drop n).take 4 = [0, 0, 0, 0]) (s : Nat) :
    rep 16 (s + (word a b + 65536 * word c d)) =
      rep 16 (sumWords s ((a :: b :: c :: d :: rest).take n)) := by
  rw [rep_dword]
  match n with
  | 1 =>
    obtain ⟨rfl, rfl, rfl, -⟩ : b = 0 ∧ c = 0 ∧ d = 0 ∧ rest.take 1 = [0] := by
      simpa using hzero
    rfl
  | 2 =>
    obtain ⟨rfl, rfl, -⟩ : c = 0 ∧ d = 0 ∧ rest.take 2 = [0, 0] := by simpa using hzero
    rfl
  | 3 =>
    obtain ⟨rfl, -⟩ : d = 0 ∧ rest.take 3 = [0, 0, 0] := by simpa using hzero
    rfl

/-- **What the loop adds up folds to what `cksum` adds up**, as long as zeros follow. -/
theorem addDWords_folds (pkt : Bytes) (n p s : Nat) (hzero : bytesAt pkt (p + n) 4 = [0, 0, 0, 0]) :
    ∃ D, addDWords pkt p n s = some D ∧ rep 16 D = rep 16 (sumWords s (bytesAt pkt p n)) := by
  have hlen : p + n + 4 ≤ pkt.length := by
    have h := congrArg List.length hzero
    simp only [bytesAt, List.length_take, List.length_drop, List.length_cons, List.length_nil] at h
    omega
  induction n using Nat.strong_induction_on generalizing p s with
  | _ n ih =>
    obtain rfl | hn := Nat.eq_zero_or_pos n
    · exact ⟨s, addDWords_done (by decide) pkt p s, rfl⟩
    obtain ⟨a, b, c, d, hdrop, hload⟩ := load32_eq pkt p (by omega)
    rw [addDWords_step (by omega) hload]
    obtain hlt | hge := Nat.lt_or_ge n 4
    · refine ⟨_, addDWords_done (by omega) pkt _ _, ?_⟩
      rw [bytesAt, hdrop]
      refine rep_lastDWord hn hlt ?_ s
      rwa [← hdrop, List.drop_drop]
    · obtain ⟨m, rfl⟩ := Nat.exists_eq_add_of_le hge
      obtain ⟨D, hD, hrep⟩ := ih m (by omega) (p + 4) (s + (word a b + 65536 * word c d))
        (by rwa [Nat.add_assoc]) (by omega)
      have hfirst : bytesAt pkt p 4 = [a, b, c, d] := by rw [bytesAt, hdrop]; rfl
      refine ⟨D, ?_, ?_⟩
      · rw [← hD]
        congr 1
        omega
      · rw [hrep, bytesAt_add, hfirst]
        exact rep_sumWords_congr (rep_dword s (word a b) (word c d)) _

/-! ### The packet -/

/-- The buffer that is summed. -/
def patched (caplen : Nat) (pkt : Bytes) : Bytes :=
  let cleared := (((pkt.set caplen 0).set (caplen + 1) 0).set (caplen + 2) 0).set (caplen + 3) 0
  ((cleared.set 22 0).set 25 (pkt.getD 39 0)).set 24 (pkt.getD 38 0)

theorem UDPchecksum_patched {caplen : Nat} {pkt : Bytes} (hcap : 42 ≤ caplen)
    (hspare : caplen + 4 ≤ pkt.length) :
    UDPchecksum caplen pkt =
      (addDWords (patched caplen pkt) 22 (caplen - IP_LIVE) 0).map fun qwSum =>
        (invert (fold 16 qwSum), patched caplen pkt) := by
  have hload {i : Nat} (hi : i < pkt.length) : pkt[i]? = some (pkt.getD i 0) := by
    rw [List.getD_eq_getElem?_getD, List.getElem?_eq_getElem hi, Option.getD_some]
  simp (disch := (try simp only [List.length_set]); omega) only [UDPchecksum, clear32,
    store8_of_lt, IP_LIVE, IP_CHECKSUM, UDP_LEN, Option.bind_eq_bind, Option.bind_some, load8,
    List.getElem?_set_ne, hload, Option.map_eq_bind]
  rfl

theorem getD_set_self {pkt : Bytes} {i : Nat} (h : i < pkt.length) (b : UInt8) :
    (pkt.set i b).getD i 0 = b := by
  rw [List.getD_eq_getElem?_getD, List.getElem?_set_self h, Option.getD_some]

theorem getD_set_ne {pkt : Bytes} {x i : Nat} (h : x ≠ i) (b : UInt8) :
    (pkt.set x b).getD i 0 = pkt.getD i 0 := by
  rw [List.getD_eq_getElem?_getD, List.getElem?_set_ne h, List.getD_eq_getElem?_getD]

theorem length_patched (caplen : Nat) (pkt : Bytes) :
    (patched caplen pkt).length = pkt.length := by
  simp only [patched, List.length_set]

/-- The pseudo-header with the addresses last, and the rest of the packet as it was. -/
theorem bytesAt_patched {caplen : Nat} {pkt : Bytes} (hcap : 42 ≤ caplen)
    (hspare : caplen + 4 ≤ pkt.length) :
    bytesAt (patched caplen pkt) 22 (caplen - 22) =
      ([0] ++ bytesAt pkt 23 1 ++ bytesAt pkt 38 2) ++
        ((bytesAt pkt 26 4 ++ bytesAt pkt 30 4) ++ bytesAt pkt 34 (caplen - 34)) := by
  have hhead : bytesAt (patched caplen pkt) 22 4 = [0] ++ bytesAt pkt 23 1 ++ bytesAt pkt 38 2 := by
    simp (disch := (try simp only [List.length_set, length_patched]); omega) only [bytesAt_succ,
      bytesAt_zero, patched, Nat.reduceAdd, getD_set_self, getD_set_ne]
    rfl
  have hrest : bytesAt (patched caplen pkt) 26 (caplen - 26) = bytesAt pkt 26 (caplen - 26) := by
    simp (disch := omega) only [patched, bytesAt_set]
  have hparts : caplen - 22 = 4 + (4 + (4 + (caplen - 34))) := by omega
  have hpart : caplen - 26 = 4 + (4 + (caplen - 34)) := by omega
  rw [hparts, bytesAt_add, ← hpart, hhead, hrest, hpart, bytesAt_add, bytesAt_add,
    ← List.append_assoc (bytesAt pkt 26 4)]

theorem bytesAt_patched_spare {caplen : Nat} {pkt : Bytes} (hcap : 42 ≤ caplen)
    (hspare : caplen + 4 ≤ pkt.length) :
    bytesAt (patched caplen pkt) caplen 4 = [0, 0, 0, 0] := by
  have hspared : bytesAt (patched caplen pkt) caplen 4 =
      bytesAt ((((pkt.set caplen 0).set (caplen + 1) 0).set (caplen + 2) 0).set (caplen + 3) 0)
        caplen 4 := by
    simp (disch := omega) only [patched, bytesAt_set]
  rw [hspared]
  simp (disch := (try simp only [List.length_set]); omega) only [bytesAt_succ, bytesAt_zero,
    Nat.add_assoc, Nat.reduceAdd, getD_set_self, getD_set_ne]

/-- Parts of even length may be summed in any order. -/
theorem sumWords_comm {a b : Bytes} (ha : a.length % 2 = 0) (hb : b.length % 2 = 0) (rest : Bytes)
    (s : Nat) : sumWords s (a ++ (b ++ rest)) = sumWords s ((b ++ a) ++ rest) := by
  have hpart (x y : Bytes) (hx : x.length % 2 = 0) (hy : y.length % 2 = 0) :
      sumWords s (x ++ (y ++ rest)) = s + sumWords 0 x + sumWords 0 y + sumWords 0 rest := by
    rw [sumWords_append hx, sumWords_append hy, sumWords_eq rest, sumWords_eq y, sumWords_eq x]
  rw [List.append_assoc, hpart a b ha hb, hpart b a hb ha]
  omega

/-- **The two routines agree**: the checksum of the packet is that of its UDP part after that of
the pseudo-header. -/
theorem UDPchecksum_eq (caplen : Nat) (pkt : Bytes) (hcap : 42 ≤ caplen)
    (hspare : caplen + 4 ≤ pkt.length) :
    UDPchecksum caplen pkt =
      some (cksum (bytesAt pkt 34 (caplen - 34)) (~~~cksum (pseudoHeader pkt) 0),
        patched caplen pkt) := by
  have hsize : ((caplen : Int) - IP_LIVE) = ((caplen - 22 : Nat) : Int) := by
    simp only [IP_LIVE]
    omega
  have hspared : bytesAt (patched caplen pkt) (22 + (caplen - 22)) 4 = [0, 0, 0, 0] := by
    rw [Nat.add_sub_cancel' (by omega)]
    exact bytesAt_patched_spare hcap hspare
  obtain ⟨D, hD, hrep⟩ := addDWords_folds _ (caplen - 22) 22 0 hspared
  have haddresses : (bytesAt pkt 26 4 ++ bytesAt pkt 30 4).length % 2 = 0 := by
    rw [List.length_append, length_bytesAt (by omega), length_bytesAt (by omega)]
  have hothers : ([0] ++ bytesAt pkt 23 1 ++ bytesAt pkt 38 2).length % 2 = 0 := by
    rw [List.length_append, List.length_append, length_bytesAt (by omega),
      length_bytesAt (by omega)]
    rfl
  have hpseudo : pseudoHeader pkt = (bytesAt pkt 26 4 ++ bytesAt pkt 30 4) ++
      ([0] ++ bytesAt pkt 23 1 ++ bytesAt pkt 38 2) := by
    simp only [pseudoHeader, UDP_LEN, List.append_assoc]
  have heven : (pseudoHeader pkt).length % 2 = 0 := by
    rw [hpseudo, List.length_append]
    omega
  rw [UDPchecksum_patched hcap hspare, hsize, hD, cksum_append _ _ _ heven, cksum,
    fold_eq (by decide), UInt16.toNat_zero, hpseudo, ← sumWords_comm hothers haddresses,
    ← bytesAt_patched hcap hspare, ← hrep, ← fold_eq (by decide)]
  rfl

/-- A packet of 43 bytes and the four behind it. -/
theorem UDPchecksum_43 :
    UDPchecksum 43 ((List.range 47).map UInt8.ofNat) =
      some (cksum (bytesAt ((List.range 47).map UInt8.ofNat) 34 9)
          (~~~cksum (pseudoHeader ((List.range 47).map UInt8.ofNat)) 0),
        patched 43 ((List.range 47).map UInt8.ofNat)) :=
  UDPchecksum_eq 43 ((List.range 47).map UInt8.ofNat) (by decide) (by decide)

end VleoNotebook.Pcap
