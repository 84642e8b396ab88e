import Mathlib.Algebra.Group.Nat.Defs
import VleoNotebook.Lib.Regex

/-! The frames of `MessageTransport`.

`sendData` writes a start code, the length of the escaped form, the escaped form
and a `\003`; `receiveData` hunts for a start code byte by byte, reads the length
and the body and undoes the escaping. `receiveData` is a machine here, one state
for each place it reads at: a state says how many bytes it asks for (`want`) and
what the answer makes of it (`feed`), so the same machine runs on a blocking
stream (`receiveData`) and on a handle that may answer short. -/
namespace VleoNotebook.Mess.MessageTransport

open Perl (Regex)

abbrev Bytes := List UInt8

/-! ### Writing -/

/-- `\000\000(\000|\001|\002|\003)` -/
def escapePattern : Regex UInt8 :=
  .seq [.lit [0, 0], .group 1 (.alt (.lit [0]) (.alt (.lit [1]) (.alt (.lit [2]) (.lit [3]))))]

/-- `s/\000\000(\000|\001|\002|\003)/\000\000\003$1/gs` -/
def escape (coded : Bytes) : Bytes :=
  Regex.gsub escapePattern (fun m => [0, 0, 3] ++ (m.cap 1).getD []) coded

/-- `pack("N", n)`: four bytes, the highest first, of the low 32 bits. -/
def packN (n : Nat) : Bytes :=
  [UInt8.ofNat (n / 2 ^ 24), UInt8.ofNat (n / 2 ^ 16), UInt8.ofNat (n / 2 ^ 8), UInt8.ofNat n]

/-- `unpack("N", s)`, `none` for undef where four bytes are missing. -/
def unpackN : Bytes → Option Nat
  | a :: b :: c :: d :: _ =>
    some (a.toNat * 2 ^ 24 + b.toNat * 2 ^ 16 + c.toNat * 2 ^ 8 + d.toNat)
  | _ => none

/-- What `sendData` prints for a message with this `FROZEN` form. -/
def sendData (frozen : Bytes) : Bytes :=
  let coded := escape frozen
  [0, 0, 0, 1] ++ packN coded.length ++ coded ++ [3]

/-! ### Reading -/

/-- `s/\000\000\003/\000\000/gs` -/
def unescape (body : Bytes) : Bytes :=
  Regex.gsub (.lit [0, 0, 3]) (fun _ => [0, 0]) body

/-- `s/\003$//s`; `$` also matches in front of a final newline. -/
def stripFinal (body : Bytes) : Bytes :=
  Regex.sub (.seq [.lit [3], .eos (· = 10)]) (fun _ => []) body

/-- How a call of `receiveData` ends: `return -1`, or a body handed to `setFrozen`. -/
inductive Received where
  | failed
  | frozen (body : Bytes)
deriving DecidableEq

/-- Where `receiveData` stands. `third` keeps what `$oneByte` was unpacked to last. -/
inductive Scan where
  | noZero
  | second
  | third (oneByte : Option UInt8)
  | leadingZeros
  | gotNALstart
  | body (packLen : Nat)
  | done (result : Received)
deriving DecidableEq

/-- `unpack("C", $oneByte)` after `read($sock,$oneByte,1)`. A read at the end of
the stream leaves the empty string, which unpacks to undef. A read that fails
(`none`) leaves the variable as it was: the text of the number unpacked before. -/
def unpackC (old : Option UInt8) : Option Bytes → Option UInt8
  | some bytes => bytes.head?
  | none => old.map fun n => UInt8.ofNat ((Nat.toDigits 10 n.toNat).headD '0').toNat

namespace Scan

/-- How many bytes the next `read` asks for. -/
def want : Scan → Nat
  | .noZero | .second | .third _ | .leadingZeros => 1
  | .gotNALstart => 4
  | .body packLen => packLen
  | .done _ => 0

/-- Where the answer of the `read` leads: `none` is undef, `some` may be short.
Only `noZero` and `leadingZeros` look at the count. -/
def feed : Scan → Option Bytes → Scan
  | .noZero, r =>
    match r with
    | some (b :: _) => if b = 0 then .second else .noZero
    | _ => .done .failed
  | .second, r =>
    -- an undef byte compares equal to zero
    match unpackC (some 0) r with
    | some b => if b = 0 then .third (some 0) else .noZero
    | none => .third none
  | .third oneByte, r =>
    match unpackC oneByte r with
    | some b => if b = 1 then .gotNALstart else if b = 0 then .leadingZeros else .noZero
    | none => .leadingZeros
  | .leadingZeros, r =>
    match r with
    | some (b :: _) => if b = 0 then .leadingZeros else if b = 1 then .gotNALstart else .noZero
    | _ => .done .failed
  | .gotNALstart, r => .body ((unpackN (r.getD [])).getD 0)
  | .body _, r => .done (.frozen (stripFinal (unescape (r.getD []))))
  | .done result, _ => .done result

/-- `fuel` reads on a blocking stream with these bytes left before its end. -/
def drive : Nat → Scan → Bytes → Scan × Bytes
  | 0, q, s => (q, s)
  | fuel + 1, q, s => drive fuel (q.feed (some (s.take q.want))) (s.drop q.want)

/-- How many reads are left at most, beside three for each byte of the stream. -/
def rank : Scan → Nat
  | .done _ => 0
  | .noZero | .leadingZeros | .body _ => 1
  | .third _ | .gotNALstart => 2
  | .second => 3

end Scan

/-- `receiveData` on a blocking stream: the machine's last state and what it left
unread. The reads suffice (`receiveData_done`). -/
def receiveData (stream : Bytes) : Scan × Bytes :=
  Scan.drive (3 * stream.length + 1) .noZero stream

end VleoNotebook.Mess.MessageTransport
