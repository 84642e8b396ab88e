import VleoNotebook.Lib.OnesComplement

/-! The checksum of IP and UDP packets (`cksum`).

The 16-bit words of a buffer are added up as a little-endian machine reads them, an odd byte
at the end alone, and the sum is folded to 16 bits and inverted. What was summed before is
passed inverted, so that a buffer can be summed in parts (`cksum_append`). -/
namespace VleoNotebook.Pcap

open OnesComplement (fold fold_lt fold_fold_add)

abbrev Bytes := List UInt8

/-- `*(uint16_t*)addr` -/
def word (a b : UInt8) : Nat := a.toNat + 256 * b.toNat

/-- The inner loop, and the byte left over. -/
def sumWords (sum : Nat) : Bytes → Nat
  | a :: b :: addr => sumWords (sum + word a b) addr
  | [a] => sum + a.toNat
  | [] => sum

/-- `return ~sum`, of a sum of 16 bits. -/
def invert (sum : Nat) : UInt16 := ~~~UInt16.ofNat sum

/-- `cksum`: `cksum_inv` is the inverted checksum of the block before. -/
def cksum (addr : Bytes) (cksum_inv : UInt16) : UInt16 :=
  invert (fold 16 (sumWords cksum_inv.toNat addr))

theorem sumWords_append {a : Bytes} (ha : a.length % 2 = 0) (b : Bytes) (sum : Nat) :
    sumWords sum (a ++ b) = sumWords (sumWords sum a) b := by
  induction sum, a using sumWords.induct with
  | case1 sum x y a ih =>
    have heven : a.length % 2 = 0 := by
      simp only [List.length_cons] at ha
      omega
    simpa only [List.cons_append, sumWords] using ih heven
  | case2 sum x => cases ha
  | case3 sum => rfl

theorem sumWords_add (a : Bytes) (s t : Nat) : sumWords (s + t) a = s + sumWords t a := by
  induction t, a using sumWords.induct with
  | case1 t x y a ih => rw [sumWords, sumWords, Nat.add_assoc, ih]
  | case2 t x => rw [sumWords, sumWords, Nat.add_assoc]
  | case3 t => rfl

theorem sumWords_eq (a : Bytes) (s : Nat) : sumWords s a = s + sumWords 0 a := sumWords_add a s 0

/-- What is passed on inverted is the sum of the block before. -/
theorem toNat_not_invert {sum : Nat} (h : sum < 2 ^ 16) : (~~~invert sum).toNat = sum := by
  rw [invert, UInt16.not_not, UInt16.toNat_ofNat', Nat.mod_eq_of_lt h]

/-- **A buffer can be summed in parts**, if all but the last are of even length. -/
theorem cksum_append (a b : Bytes) (s : UInt16) (ha : a.length % 2 = 0) :
    cksum b (~~~cksum a s) = cksum (a ++ b) s := by
  have hfold := fold_lt (w := 16) (by decide) (sumWords s.toNat a)
  rw [cksum, cksum, cksum, toNat_not_invert hfold, sumWords_append ha,
    sumWords_eq b (sumWords s.toNat a), sumWords_eq b (fold 16 (sumWords s.toNat a)),
    fold_fold_add (by decide)]

/-! ### Test vectors -/

def cksum_TestVector : Bytes := [0x03, 0xf4, 0xf5, 0xf6, 0xf7]

def cksum_TestVector1 : Bytes := [0x03, 0xf4]

def cksum_TestVector2 : Bytes := [0xf5, 0xf6, 0xf7]

example : cksum cksum_TestVector 0 = 0x140f := by decide

theorem cksum_testVectors :
    cksum cksum_TestVector2 (~~~cksum cksum_TestVector1 0) = cksum cksum_TestVector 0 :=
  cksum_append cksum_TestVector1 cksum_TestVector2 0 rfl

end VleoNotebook.Pcap
