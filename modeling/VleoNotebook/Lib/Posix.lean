import Mathlib.Data.Nat.Basic

/-! Files the way a program sees them through descriptors.

A file is a byte at every offset, and a descriptor a file with the offset it stands at. A
`read` hands over so many bytes or fails, as the kernel decides; what it hands over replaces
the front of the buffer, and the offset moves on by that much. -/
namespace Posix

/-- The bytes of a file or of a buffer. -/
abbrev Contents := Nat → UInt8

/-- The `n`th block of so many bytes. -/
def Contents.block (c : Contents) (size n : Nat) : Contents := fun i => c (n * size + i)

/-- What a `read` of so many bytes returns: a count of bytes, or -1. -/
inductive ReadResult (size : Nat) where
  | count (n : Nat) (h : n ≤ size)
  | error
deriving DecidableEq

namespace ReadResult
variable {size : Nat}

/-- The bytes handed over. -/
def bytes : ReadResult size → Nat
  | .count n _ => n
  | .error => 0

/-- `read(...) == size` -/
def IsFull : ReadResult size → Prop
  | .count n _ => n = size
  | .error => False

instance : (r : ReadResult size) → Decidable r.IsFull
  | .count n _ => inferInstanceAs (Decidable (n = size))
  | .error => inferInstanceAs (Decidable False)

theorem IsFull.bytes {r : ReadResult size} (h : r.IsFull) : r.bytes = size := by
  cases r with
  | count n hn => exact h
  | error => exact h.elim

end ReadResult

structure Fd where
  contents : Contents
  offset : Nat

namespace Fd

/-- The next `n` bytes at the front of the buffer. -/
def fill (fd : Fd) (n : Nat) (buf : Contents) : Contents := fun i =>
  if i < n then fd.contents (fd.offset + i) else buf i

/-- The buffer after `read`. -/
def readInto {size : Nat} (fd : Fd) (r : ReadResult size) (buf : Contents) : Contents :=
  fd.fill r.bytes buf

/-- The descriptor after `read`. -/
def read {size : Nat} (fd : Fd) (r : ReadResult size) : Fd :=
  {fd with offset := fd.offset + r.bytes}

/-- `lseek(fd, offset, SEEK_SET)` -/
def seekSet (fd : Fd) (offset : Nat) : Fd := {fd with offset := offset}

/-- `lseek(fd, n, SEEK_CUR)` -/
def seekCur (fd : Fd) (n : Nat) : Fd := {fd with offset := fd.offset + n}

/-- `write(fd, buf, n)`, all of it. -/
def write (fd : Fd) (buf : Contents) (n : Nat) : Fd where
  contents i := if fd.offset ≤ i ∧ i < fd.offset + n then buf (i - fd.offset) else fd.contents i
  offset := fd.offset + n

variable {size : Nat} {fd : Fd} {b : Nat}

theorem readInto_error (buf : Contents) : fd.readInto (.error : ReadResult size) buf = buf := by
  funext i
  rw [readInto, fill]
  exact if_neg (Nat.not_lt_zero i)

/-- A full read at a block reads the block. -/
theorem readInto_of_isFull {r : ReadResult size} (h : r.IsFull) (hoffset : fd.offset = b * size)
    (buf : Contents) {i : Nat} (hi : i < size) :
    fd.readInto r buf i = fd.contents.block size b i := by
  rw [readInto, fill, h.bytes, if_pos hi, hoffset, Contents.block]

/-- The block written is what was in the buffer. -/
theorem write_block_self (hoffset : fd.offset = b * size) (buf : Contents) {i : Nat}
    (hi : i < size) : (fd.write buf size).contents.block size b i = buf i := by
  have hin : b * size ≤ b * size + i ∧ b * size + i < b * size + size := by omega
  simp only [write, Contents.block, hoffset, if_pos hin, Nat.add_sub_cancel_left]

/-- Other blocks stay. -/
theorem write_block_of_ne (hoffset : fd.offset = b * size) (buf : Contents) {c : Nat} (hc : c ≠ b)
    {i : Nat} (hi : i < size) :
    (fd.write buf size).contents.block size c i = fd.contents.block size c i := by
  have hout : ¬ (b * size ≤ c * size + i ∧ c * size + i < b * size + size) := by
    rintro ⟨hlow, hhigh⟩
    rcases Nat.lt_or_gt_of_ne hc with hlt | hgt
    · have hmul : (c + 1) * size ≤ b * size := Nat.mul_le_mul_right size hlt
      rw [Nat.add_mul] at hmul
      omega
    · have hmul : (b + 1) * size ≤ c * size := Nat.mul_le_mul_right size hgt
      rw [Nat.add_mul] at hmul
      omega
  simp only [write, Contents.block, hoffset, if_neg hout]

end Fd

end Posix
