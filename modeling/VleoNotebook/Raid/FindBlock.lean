import Mathlib.Order.Basic
import Mathlib.Data.Nat.Find
import VleoNotebook.Lib.Loop
import VleoNotebook.Lib.Posix

/-! Looking for a block with a signature (`findblock`).

A read that fails is stepped over twice: the macro moves `position` on and seeks there, and
so does the loop, but only in `position`. From the first failure on `position` is one block
ahead of the offset, and each further failure takes a block with it that is never looked at
(`Passed`). What stays in the buffer of a failed read is looked at again. So the block that is
printed is the first one with the signature exactly if none was passed over and it was read
(`findblock_first_iff`), and the loop ends exactly if it finds the signature
(`findblock_ends_iff`), the end of the file being no end to it. -/
namespace VleoNotebook.Raid.FindBlock

open Posix (Contents ReadResult Fd)

/-- A device, or a file. -/
structure Device where
  contents : Contents
  length : Nat
  /-- Blocks that cannot be read -/
  bad : Nat → Bool
  /-- Offsets that `lseek` goes to -/
  seekable : Nat → Bool

/-- What the kernel returns for `read(fd, buf, 512)`: 0 at and beyond the end. -/
def Device.read (d : Device) (offset : Nat) : ReadResult 512 :=
  if offset < d.length ∧ d.bad (offset / 512) then .error
  else .count (min 512 (d.length - offset)) (Nat.min_le_left _ _)

/-- The bytes that the head of a block is compared with. -/
def signature : List UInt8 :=
  [0x49, 0x49, 0x2a, 0x00, 0xd0, 0x25, 0x05, 0x00, 0x81, 0xff, 0x81, 0xff, 0x81, 0xff, 0x81, 0xff]

def Signed (buf : Contents) : Prop := (List.range 16).map buf = signature

instance (buf : Contents) : Decidable (Signed buf) := inferInstanceAs (Decidable (_ = _))

structure State where
  fd : Fd
  buf : Contents
  position : Nat

/-- How the program ends: with what it prints behind `offset[blk512]=`, or with a status. -/
inductive Result where
  | printed (n : Nat)
  | exit (status : Nat)
deriving DecidableEq

section Program
variable (d : Device)

/-- The condition of the loop, and what is printed behind it. -/
def test (s : State) : State ⊕ Result :=
  if Signed s.buf then .inr (.printed (s.fd.offset / 512 - 1)) else .inl s

/-- `SEEK_TO_BLK` with what follows it -/
def seekToBlk (s : State) (next : State → State ⊕ Result) : State ⊕ Result :=
  if d.seekable (s.position * 512) then next {s with fd := s.fd.seekSet (s.position * 512)}
  else .inr (.exit 15)

/-- `READ_BLK` with what follows it -/
def readBlk (s : State) (next : State → State ⊕ Result) : State ⊕ Result :=
  let r := d.read s.fd.offset
  let t := {s with buf := s.fd.readInto r s.buf, fd := s.fd.read r}
  if r.IsFull then next t else seekToBlk d {t with position := t.position + 1} next

/-- A turn of the loop. -/
def body (s : State) : State ⊕ Result :=
  readBlk d s fun t => test {t with position := t.position + 1}

/-- In front of the loop; the buffer holds what happens to be there. -/
def State.start (buf : Contents) (start : Nat) : State := ⟨⟨d.contents, start * 512⟩, buf, start⟩

/-- The program ends with this result. -/
def findblock (buf : Contents) (start : Nat) (r : Result) : Prop :=
  if d.seekable (start * 512) then Loop.Results (body d) (.start d buf start) r else r = .exit 15

end Program

/-! ### Which blocks are looked at -/

section Blocks
variable (d : Device) (start : Nat)

/-- All of the block can be read. -/
def Readable (b : Nat) : Prop := (b + 1) * 512 ≤ d.length ∧ d.bad b = false

instance (b : Nat) : Decidable (Readable d b) := inferInstanceAs (Decidable (_ ∧ _))

/-- How many blocks in a row cannot be read right in front of this one. Blocks are counted
from the start. -/
def gap : Nat → Nat
  | 0 => 0
  | k + 1 => if Readable d (start + k) then 0 else gap k + 1

/-- How many of the blocks in front of this one cannot be read. -/
def misses : Nat → Nat
  | 0 => 0
  | k + 1 => if Readable d (start + k) then misses k else misses k + 1

/-- The block is passed over: it is behind an odd number of blocks in a row that cannot be
read, or behind an even one where these are the first of all. -/
def Passed (k : Nat) : Prop :=
  if gap d start k = misses d start k then gap d start k ≠ 0 ∧ gap d start k % 2 = 0
  else gap d start k % 2 = 1

instance (k : Nat) : Decidable (Passed d start k) := inferInstanceAs (Decidable (ite _ _ _))

/-- How far `position` is ahead. -/
def drift (k : Nat) : Nat := if misses d start k = 0 then 0 else 1

/-- What the buffer holds when this block is read, after the blocks looked at before. -/
def left (buf : Contents) : Nat → Contents
  | 0 => buf
  | k + 1 =>
    if Passed d start k then left buf k
    else
      let offset := (start + k) * 512
      Fd.readInto ⟨d.contents, offset⟩ (d.read offset) (left buf k)

end Blocks

variable {d : Device} {start : Nat} {buf : Contents} {k : Nat}

theorem isFull_read_iff (b : Nat) : (d.read (b * 512)).IsFull ↔ Readable d b := by
  have hdiv : b * 512 / 512 = b := Nat.mul_div_cancel b (by decide)
  have hmul : (b + 1) * 512 = b * 512 + 512 := Nat.succ_mul b 512
  unfold Device.read Readable
  rw [hdiv, hmul]
  by_cases hbad : b * 512 < d.length ∧ d.bad b = true
  · rw [if_pos hbad]
    refine iff_of_false id fun h => ?_
    rw [h.2] at hbad
    exact Bool.false_ne_true hbad.2
  · rw [if_neg hbad]
    simp only [ReadResult.IsFull]
    have hfalse : b * 512 < d.length → d.bad b = false := fun hlt =>
      Bool.eq_false_iff.mpr fun h => hbad ⟨hlt, h⟩
    constructor
    · intro h
      exact ⟨by omega, hfalse (by omega)⟩
    · rintro ⟨hle, -⟩
      omega

theorem gap_le_misses (k : Nat) : gap d start k ≤ misses d start k := by
  induction k with
  | zero => exact Nat.le_refl 0
  | succ k ih =>
    rw [gap, misses]
    split
    · exact Nat.zero_le _
    · exact Nat.succ_le_succ ih

theorem misses_le_succ (k : Nat) : misses d start k ≤ misses d start (k + 1) := by
  rw [misses]
  split
  · exact Nat.le_refl _
  · exact Nat.le_succ _

theorem not_passed_zero : ¬ Passed d start 0 := by simp [Passed, gap, misses]

theorem not_passed_succ_of_readable (h : Readable d (start + k)) : ¬ Passed d start (k + 1) := by
  simp [Passed, gap, h]

/-- Nothing is passed over behind the first block that cannot be read. -/
theorem not_passed_succ_of_first (h : ¬ Readable d (start + k)) (hfirst : misses d start k = 0) :
    ¬ Passed d start (k + 1) := by
  have hgap : gap d start k ≤ misses d start k := gap_le_misses k
  simp only [Passed, gap, misses, if_neg h]
  split <;> omega

/-- Behind a later one the next block is passed over. -/
theorem passed_succ (h : ¬ Readable d (start + k)) (hk : ¬ Passed d start k)
    (hlater : misses d start k ≠ 0) : Passed d start (k + 1) := by
  simp only [Passed, gap, misses, if_neg h] at hk ⊢
  split at hk
  · rename_i heq
    rw [if_pos (by omega)]
    omega
  · rename_i hne
    rw [if_neg (by omega)]
    omega

/-- No two blocks in a row are passed over. -/
theorem not_passed_succ (hk : Passed d start k) : ¬ Passed d start (k + 1) := by
  by_cases h : Readable d (start + k)
  · exact not_passed_succ_of_readable h
  · simp only [Passed, gap, misses, if_neg h] at hk ⊢
    split at hk
    · rename_i heq
      rw [if_pos (by omega)]
      omega
    · rename_i hne
      rw [if_neg (by omega)]
      omega

/-! ### One turn -/

/-- The block looked at behind this one. -/
def next (d : Device) (start k : Nat) : Nat :=
  if Readable d (start + k) then k + 1 else k + 1 + drift d start k

/-- At the head of a turn that reads this block. -/
def head (d : Device) (buf : Contents) (start k : Nat) : State :=
  ⟨⟨d.contents, (start + k) * 512⟩, left d start buf k, start + k + drift d start k⟩

theorem head_zero : head d buf start 0 = .start d buf start := rfl

theorem not_passed_next (hk : ¬ Passed d start k) : ¬ Passed d start (next d start k) := by
  unfold next drift
  by_cases h : Readable d (start + k)
  · rw [if_pos h]
    exact not_passed_succ_of_readable h
  · rw [if_neg h]
    by_cases hfirst : misses d start k = 0
    · rw [if_pos hfirst]
      exact not_passed_succ_of_first h hfirst
    · rw [if_neg hfirst]
      exact not_passed_succ (passed_succ h hk hfirst)

/-- What is between two blocks looked at is passed over. -/
theorem passed_of_lt_next (hk : ¬ Passed d start k) {i : Nat} (hlow : k < i)
    (hhigh : i < next d start k) : Passed d start i := by
  unfold next drift at hhigh
  split at hhigh
  · omega
  · rename_i h
    split at hhigh
    · omega
    · rename_i hlater
      obtain rfl : i = k + 1 := by omega
      exact passed_succ h hk hlater

theorem left_succ (hk : ¬ Passed d start k) : left d start buf (k + 1) =
    Fd.readInto ⟨d.contents, (start + k) * 512⟩ (d.read ((start + k) * 512))
      (left d start buf k) := by
  rw [left, if_neg hk]

theorem left_next (hk : ¬ Passed d start k) :
    left d start buf (next d start k) = left d start buf (k + 1) := by
  unfold next drift
  split
  · rfl
  · rename_i h
    split
    · rfl
    · rename_i hlater
      rw [left, if_pos (passed_succ h hk hlater)]

/-- A block that is read moves the offset and `position` on by one. -/
theorem body_readable (h : Readable d (start + k)) (hk : ¬ Passed d start k) :
    body d (head d buf start k) = if Signed (left d start buf (k + 1))
      then .inr (.printed (start + k)) else .inl (head d buf start (next d start k)) := by
  have hfull := (isFull_read_iff (start + k)).mpr h
  have hoffset : (start + k) * 512 + (d.read ((start + k) * 512)).bytes =
      (start + (k + 1)) * 512 := by
    rw [hfull.bytes]
    omega
  have hnext : next d start k = k + 1 := if_pos h
  have hdrift : drift d start (k + 1) = drift d start k := by simp only [drift, misses, if_pos h]
  have hposition : start + k + drift d start k + 1 = start + (k + 1) + drift d start (k + 1) := by
    omega
  have hprinted : (start + (k + 1)) * 512 / 512 - 1 = start + k := by omega
  simp only [body, readBlk, head, if_pos hfull, Fd.read, hoffset, ← left_succ hk, test, hprinted,
    hnext, hposition]

/-- A read that fails moves the offset on to `position`, and `position` by two. -/
theorem body_not_readable (h : ¬ Readable d (start + k)) (hk : ¬ Passed d start k) :
    body d (head d buf start k) = if d.seekable ((start + k + drift d start k + 1) * 512)
      then if Signed (left d start buf (k + 1)) then .inr (.printed (start + k + drift d start k))
        else .inl (head d buf start (next d start k))
      else .inr (.exit 15) := by
  have hfull := fun hfull => h ((isFull_read_iff (start + k)).mp hfull)
  have hnext : next d start k = k + 1 + drift d start k := if_neg h
  have hmisses : misses d start (next d start k) ≠ 0 := by
    have hsucc : misses d start (k + 1) = misses d start k + 1 := if_neg h
    have hle : misses d start (k + 1) ≤ misses d start (k + 1 + 1) := misses_le_succ (k + 1)
    rw [hnext, drift]
    split
    · rw [Nat.add_zero]
      omega
    · omega
  have hdrift : drift d start (next d start k) = 1 := if_neg hmisses
  have hoffset : start + k + drift d start k + 1 = start + next d start k := by omega
  have hprinted : (start + next d start k) * 512 / 512 - 1 = start + k + drift d start k := by omega
  simp only [body, readBlk, head, if_neg hfull, seekToBlk, Fd.read, Fd.seekSet, ← left_succ hk,
    test, hoffset, hprinted, left_next hk, hdrift]

/-! ### The loop -/

/-- The seek behind the block succeeds, where one is made. -/
def Seeks (d : Device) (start k : Nat) : Prop :=
  Readable d (start + k) ∨ d.seekable ((start + k + drift d start k + 1) * 512) = true

/-- The loop goes on behind this block. -/
def Continues (d : Device) (buf : Contents) (start k : Nat) : Prop :=
  ¬ Signed (left d start buf (k + 1)) ∧ Seeks d start k

/-- What is printed when the loop ends at this block. -/
def found (d : Device) (start k : Nat) : Nat :=
  if Readable d (start + k) then start + k else start + k + drift d start k

theorem body_head (hk : ¬ Passed d start k) (hseeks : Seeks d start k) :
    body d (head d buf start k) = if Signed (left d start buf (k + 1))
      then .inr (.printed (found d start k)) else .inl (head d buf start (next d start k)) := by
  unfold found
  by_cases h : Readable d (start + k)
  · rw [body_readable h hk, if_pos h]
  · rw [body_not_readable h hk, if_neg h, if_pos (hseeks.resolve_left h)]

theorem body_exit (hk : ¬ Passed d start k) (hseeks : ¬ Seeks d start k) :
    body d (head d buf start k) = .inr (.exit 15) := by
  have h : ¬ Readable d (start + k) := fun h => hseeks (.inl h)
  rw [body_not_readable h hk, if_neg fun hseek => hseeks (.inr hseek)]

/-- Every block that is not passed over is looked at, while the loop goes on. -/
theorem reaches_head (hk : ¬ Passed d start k)
    (hbefore : ∀ i < k, ¬ Passed d start i → Continues d buf start i) :
    Loop.Reaches (body d) (.start d buf start) (head d buf start k) := by
  -- the first block from the `n`th on that is not passed over is reached
  have hreach (n : Nat) : ∃ j, n ≤ j ∧ ¬ Passed d start j ∧
      (∀ i, n ≤ i → i < j → Passed d start i) ∧
      ((∀ i < j, ¬ Passed d start i → Continues d buf start i) →
        Loop.Reaches (body d) (.start d buf start) (head d buf start j)) := by
    induction n with
    | zero =>
      refine ⟨0, Nat.le_refl 0, not_passed_zero, fun i _ hi => absurd hi (Nat.not_lt_zero i), ?_⟩
      exact fun _ => Relation.ReflTransGen.refl
    | succ n ih =>
      obtain ⟨j, hle, hj, hpassed, hrun⟩ := ih
      rcases Nat.lt_or_ge n j with hlt | hge
      · exact ⟨j, hlt, hj, fun i hi => hpassed i (Nat.le_of_succ_le hi), hrun⟩
      · obtain rfl : j = n := Nat.le_antisymm hge hle
        have hgrows : j < next d start j := by
          unfold next
          split <;> omega
        refine ⟨next d start j, hgrows, not_passed_next hj, fun i => passed_of_lt_next hj, ?_⟩
        intro hcontinues
        obtain ⟨hsigned, hseeks⟩ := hcontinues j hgrows hj
        have hstep : body d (head d buf start j) = .inl (head d buf start (next d start j)) := by
          rw [body_head hj hseeks, if_neg hsigned]
        exact (hrun fun i hi => hcontinues i (hi.trans hgrows)).tail hstep
  obtain ⟨j, hle, -, hpassed, hrun⟩ := hreach k
  rcases Nat.eq_or_lt_of_le hle with rfl | hlt
  · exact hrun hbefore
  · exact absurd (hpassed k (Nat.le_refl k) hlt) hk

/-- The loop finds the signature in the buffer behind this block. -/
structure Found (d : Device) (buf : Contents) (start k : Nat) : Prop where
  not_passed : ¬ Passed d start k
  seeks : Seeks d start k
  signed : Signed (left d start buf (k + 1))
  before : ∀ i < k, ¬ Passed d start i → Continues d buf start i

theorem Found.results (h : Found d buf start k) (r : Result) :
    Loop.Results (body d) (.start d buf start) r ↔ .printed (found d start k) = r := by
  have hstep : body d (head d buf start k) = .inr (.printed (found d start k)) := by
    rw [body_head h.not_passed h.seeks, if_pos h.signed]
  rw [Loop.results_of_reaches (reaches_head h.not_passed h.before), Loop.results_of_inr hstep]

/-- A loop that goes on at every block does not end. -/
theorem not_ends (h : ∀ k, ¬ Passed d start k → Continues d buf start k) :
    ¬ Loop.Ends (body d) (.start d buf start) := by
  have hstep : ∀ s, (∃ k, s = head d buf start k ∧ ¬ Passed d start k) →
      ∃ t, body d s = .inl t ∧ ∃ k, t = head d buf start k ∧ ¬ Passed d start k := by
    rintro s ⟨k, rfl, hk⟩
    obtain ⟨hsigned, hseeks⟩ := h k hk
    refine ⟨head d buf start (next d start k), ?_, next d start k, rfl, not_passed_next hk⟩
    rw [body_head hk hseeks, if_neg hsigned]
  exact Loop.not_ends hstep ⟨0, head_zero.symm, not_passed_zero⟩

/-- Where the loop does not go on for ever, there is a first block where it ends. -/
theorem exists_first (h : ∃ k, ¬ Passed d start k ∧ ¬ Continues d buf start k) :
    ∃ k, ¬ Passed d start k ∧ ¬ Continues d buf start k ∧
      ∀ i < k, ¬ Passed d start i → Continues d buf start i := by
  classical
  obtain ⟨hk, hends⟩ := Nat.find_spec h
  refine ⟨Nat.find h, hk, hends, fun i hi hnot => ?_⟩
  by_contra hstops
  exact Nat.find_min h hi ⟨hnot, hstops⟩

/-- **What the loop prints, and when.** -/
theorem results_printed_iff (n : Nat) : Loop.Results (body d) (.start d buf start) (.printed n) ↔
    ∃ k, Found d buf start k ∧ found d start k = n := by
  constructor
  · intro hprinted
    have hstops : ∃ k, ¬ Passed d start k ∧ ¬ Continues d buf start k := by
      by_contra hnone
      refine not_ends (fun k hk => ?_) ⟨_, hprinted⟩
      by_contra hends
      exact hnone ⟨k, hk, hends⟩
    obtain ⟨k, hk, hends, hbefore⟩ := exists_first hstops
    have hreaches := reaches_head hk hbefore
    by_cases hseeks : Seeks d start k
    · have hsigned : Signed (left d start buf (k + 1)) := by
        by_contra hsigned
        exact hends ⟨hsigned, hseeks⟩
      have hfound : Found d buf start k := ⟨hk, hseeks, hsigned, hbefore⟩
      exact ⟨k, hfound, Result.printed.inj ((hfound.results _).mp hprinted)⟩
    · rw [Loop.results_of_reaches hreaches, Loop.results_of_inr (body_exit hk hseeks)] at hprinted
      cases hprinted
  · rintro ⟨k, hfound, rfl⟩
    exact (hfound.results _).mpr rfl

/-! ### The first match -/

/-- The block is the first from the start on that can be read and has the signature. -/
structure IsFirst (d : Device) (start n : Nat) : Prop where
  start_le : start ≤ n
  readable : Readable d n
  signed : Signed (d.contents.block 512 n)
  before : ∀ b, start ≤ b → b < n → Readable d b → ¬ Signed (d.contents.block 512 b)

/-- The block where the loop ends can be read, and no block with the signature was passed
over in front of it. -/
def NoneMissed (d : Device) (buf : Contents) (start : Nat) : Prop :=
  ∀ k, Found d buf start k → Readable d (start + k) ∧ ∀ i < k, Passed d start i →
    Readable d (start + i) → ¬ Signed (d.contents.block 512 (start + i))

theorem signed_congr {a b : Contents} (h : ∀ i < 512, a i = b i) : Signed a ↔ Signed b := by
  have hmap : (List.range 16).map a = (List.range 16).map b := by
    refine List.map_congr_left fun i hi => h i ?_
    have hlt := List.mem_range.mp hi
    omega
  rw [Signed, Signed, hmap]

/-- A block that is read is what the buffer holds. -/
theorem signed_left_iff (hk : ¬ Passed d start k) (h : Readable d (start + k)) :
    Signed (left d start buf (k + 1)) ↔ Signed (d.contents.block 512 (start + k)) := by
  rw [left_succ hk]
  exact signed_congr fun i hi =>
    Fd.readInto_of_isFull ((isFull_read_iff (start + k)).mpr h) rfl (left d start buf k) hi

/-- The buffer holds what the last block looked at has left there. -/
theorem exists_left_eq (hk : k ≠ 0) :
    ∃ j < k, ¬ Passed d start j ∧ left d start buf k = left d start buf (j + 1) := by
  obtain ⟨i, rfl⟩ := Nat.exists_eq_succ_of_ne_zero hk
  by_cases hi : Passed d start i
  · cases i with
    | zero => exact absurd hi not_passed_zero
    | succ j =>
      refine ⟨j, by omega, fun hj => not_passed_succ hj hi, ?_⟩
      rw [left, if_pos hi]
  · exact ⟨i, Nat.lt_succ_self i, hi, rfl⟩

/-- Where the loop ends at a read that failed, the block it prints cannot be read. -/
theorem Found.not_readable (h : Found d buf start k) (hk : ¬ Readable d (start + k)) :
    ¬ Readable d (found d start k) := by
  have hfound : found d start k = start + k + drift d start k := if_neg hk
  rw [hfound]
  by_cases hmisses : misses d start k = 0
  · rw [drift, if_pos hmisses]
    exact hk
  · rw [drift, if_neg hmisses]
    intro hnext
    -- the file goes on behind the block, so the read came to nothing at all
    have hlength : (start + k + 1) * 512 ≤ d.length :=
      (Nat.mul_le_mul_right 512 (Nat.le_succ (start + k + 1))).trans hnext.1
    have hlt : (start + k) * 512 < d.length :=
      (Nat.mul_lt_mul_of_pos_right (Nat.lt_succ_self (start + k)) (by decide)).trans_le hlength
    have hbad : d.bad (start + k) = true := by
      by_contra hgood
      exact hk ⟨hlength, Bool.eq_false_iff.mpr hgood⟩
    have hdiv : (start + k) * 512 / 512 = start + k := Nat.mul_div_cancel _ (by decide)
    have herror : d.read ((start + k) * 512) = .error := by
      rw [Device.read, hdiv, if_pos ⟨hlt, hbad⟩]
    have hkeeps : left d start buf (k + 1) = left d start buf k := by
      rw [left_succ h.not_passed, herror, Fd.readInto_error]
    have hzero : k ≠ 0 := by
      rintro rfl
      exact hmisses rfl
    obtain ⟨j, hlt, hj, hleft⟩ : ∃ j < k, ¬ Passed d start j ∧
        left d start buf k = left d start buf (j + 1) := exists_left_eq hzero
    have hsigned := h.signed
    rw [hkeeps, hleft] at hsigned
    exact (h.before j hlt hj).1 hsigned

/-- **What is printed is the first match exactly where none is missed.** -/
theorem findblock_first_iff (d : Device) (buf : Contents) (start : Nat) :
    (∀ n, findblock d buf start (.printed n) → IsFirst d start n) ↔
      (d.seekable (start * 512) = true → NoneMissed d buf start) := by
  constructor
  · intro hfirst hseek k hfound
    have hprinted : findblock d buf start (.printed (found d start k)) := by
      rw [findblock, if_pos hseek]
      exact (hfound.results _).mpr rfl
    have h := hfirst _ hprinted
    have hreadable : Readable d (start + k) := by
      by_contra hk
      exact hfound.not_readable hk h.readable
    refine ⟨hreadable, fun i hi _ => h.before (start + i) (Nat.le_add_right _ _) ?_⟩
    rw [found, if_pos hreadable]
    omega
  · intro hmissed n hprinted
    unfold findblock at hprinted
    split at hprinted
    · rename_i hseek
      obtain ⟨k, hfound, rfl⟩ := (results_printed_iff n).mp hprinted
      obtain ⟨hreadable, hpassed⟩ := hmissed hseek k hfound
      rw [found, if_pos hreadable]
      refine ⟨Nat.le_add_right _ _, hreadable,
        (signed_left_iff hfound.not_passed hreadable).mp hfound.signed, fun b hle hlt hb => ?_⟩
      obtain ⟨i, rfl⟩ := Nat.exists_eq_add_of_le hle
      have hi : i < k := by omega
      by_cases hp : Passed d start i
      · exact hpassed i hi hp hb
      · exact fun hsigned => (hfound.before i hi hp).1 ((signed_left_iff hp hb).mpr hsigned)
    · cases hprinted

/-- Five blocks: the first and the third cannot be read, the last two have the signature. -/
def sampleDevice : Device where
  contents i := if 3 ≤ i / 512 then signature.getD (i % 512) 0 else 0
  length := 5 * 512
  bad b := b = 0 ∨ b = 2
  seekable _ := true

/-- The fourth block is passed over. -/
theorem fourth_missed :
    ¬ ∀ d buf start n, findblock d buf start (.printed n) → IsFirst d start n := by
  intro h
  have hprinted : findblock sampleDevice (fun _ => 0) 0 (.printed 4) := by
    have hseek : sampleDevice.seekable (0 * 512) = true := rfl
    rw [findblock, if_pos hseek]
    exact ⟨4, by decide +kernel⟩
  have hfirst := h _ _ _ _ hprinted
  exact hfirst.before 3 (by decide) (by decide) (by decide) (by decide +kernel)

/-! ### The end -/

/-- **The loop ends exactly where it finds the signature in the buffer**, where every offset
can be gone to: the end of the file is read like a bad block. -/
theorem findblock_ends_iff (d : Device) (buf : Contents) (start : Nat)
    (hseek : ∀ offset, d.seekable offset = true) : (∃ r, findblock d buf start r) ↔
      ∃ k, ¬ Passed d start k ∧ Signed (left d start buf (k + 1)) := by
  have hseeks (k : Nat) : Seeks d start k := .inr (hseek _)
  have hstops (k : Nat) : ¬ Continues d buf start k ↔ Signed (left d start buf (k + 1)) :=
    ⟨fun h => by_contra fun hsigned => h ⟨hsigned, hseeks k⟩, fun hsigned h => h.1 hsigned⟩
  simp only [findblock, if_pos (hseek (start * 512)), ← hstops]
  constructor
  · intro hends
    by_contra hnone
    refine not_ends (fun k hk => ?_) hends
    by_contra hstop
    exact hnone ⟨k, hk, hstop⟩
  · intro hfirst
    obtain ⟨k, hk, hstop, hbefore⟩ := exists_first hfirst
    have hfound : Found d buf start k := ⟨hk, hseeks k, (hstops k).mp hstop, hbefore⟩
    exact ⟨.printed (found d start k), (hfound.results _).mpr rfl⟩

theorem findblock_ends_sample : ∃ r, findblock sampleDevice (fun _ => 0) 0 r :=
  (findblock_ends_iff sampleDevice (fun _ => 0) 0 fun _ => rfl).mpr
    ⟨4, by decide +kernel, by decide +kernel⟩

/-- At the end of a file nothing is read. -/
theorem readInto_of_length_le {offset : Nat} (h : d.length ≤ offset) (buf : Contents) :
    Fd.readInto ⟨d.contents, offset⟩ (d.read offset) buf = buf := by
  have hnot : ¬ (offset < d.length ∧ d.bad (offset / 512) = true) := fun hlt =>
    absurd hlt.1 (Nat.not_lt_of_le h)
  have hzero : min 512 (d.length - offset) = 0 := by omega
  funext i
  rw [Device.read, if_neg hnot, Fd.readInto, Fd.fill]
  simp only [ReadResult.bytes, hzero, Nat.not_lt_zero, if_false]

/-- A search from the end of a file leaves the buffer as it was. -/
theorem left_of_length_le (h : d.length ≤ start * 512) (k : Nat) : left d start buf k = buf := by
  induction k with
  | zero => rfl
  | succ k ih =>
    have hle : d.length ≤ (start + k) * 512 :=
      h.trans (Nat.mul_le_mul_right 512 (Nat.le_add_right start k))
    rw [left, ih]
    split
    · rfl
    · exact readInto_of_length_le hle buf

/-- A file without anything in it. -/
def emptyFile : Device := ⟨fun _ => 0, 0, fun _ => false, fun _ => true⟩

/-- It is searched for ever. -/
theorem empty_never_ends : ¬ ∀ d buf start, (∀ offset, d.seekable offset = true) →
    ∃ r, findblock d buf start r := by
  intro h
  have hends := h emptyFile (fun _ => 0) 0 fun _ => rfl
  have hseek : emptyFile.seekable (0 * 512) = true := rfl
  simp only [findblock, if_pos hseek] at hends
  refine not_ends (fun k _ => ⟨?_, .inr rfl⟩) hends
  rw [left_of_length_le (Nat.zero_le _)]
  decide

end VleoNotebook.Raid.FindBlock
