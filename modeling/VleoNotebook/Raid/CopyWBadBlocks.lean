import VleoNotebook.Lib.Posix
import VleoNotebook.Lib.Runs

/-! Copying a device with bad blocks to an image (`copywbadblocks`).

Each turn of the loop reads a block of the device, or after a failure leaves zeros in its
place and seeks over it, and writes a block of the image. The two offsets move on by
different means, but together: at the head of each turn the blocks up to `position` are
copied, zeroed where the read failed, and nothing else is touched (`faithful_run`). A read
that would set the offsets apart ends the program first. `lseek` and `write` succeed. -/
namespace VleoNotebook.Raid.CopyWBadBlocks

open Posix (Contents ReadResult Fd)

/-- `MAXBLOCK` -/
def maxBlock : Nat := 475540065 * 2

structure State where
  /-- The device -/
  fd1 : Fd
  /-- The image -/
  fd2 : Fd
  buf : Contents
  position : Nat
  /-- What was printed behind `BAD BLOCK POS:`, in order -/
  badBlockPos : List Nat
  /-- The exit status, once the program has ended -/
  status : Option Nat

/-- In front of the loop; `start` is `SKIPTOBLK`. -/
def State.start (device image buf : Contents) (start : Nat) : State where
  fd1 := ⟨device, start * 512⟩
  fd2 := ⟨image, start * 512⟩
  buf := buf
  position := start
  badBlockPos := []
  status := none

namespace State

/-- A read that does not come to 512 bytes: the block is reported and zeroed, and the offset
set behind it. -/
def badBlock (s : State) : State :=
  {s with
    badBlockPos := s.badBlockPos ++ [s.position]
    buf := fun i => if i < 512 then 0 else s.buf i
    fd1 := s.fd1.seekCur 512}

/-- The read, and what is done if it fails. -/
def readBlock (s : State) (r : ReadResult 512) : State :=
  let t := {s with buf := s.fd1.readInto r s.buf, fd1 := s.fd1.read r}
  if r.IsFull then t else t.badBlock

/-- The block is written, and the loop goes on or ends. -/
def writeBlock (s : State) : State :=
  {s with
    fd2 := s.fd2.write s.buf 512
    position := s.position + 1
    status := if s.position + 1 < maxBlock then none else some 0}

/-- A turn of the loop. -/
def turn (s : State) (r : ReadResult 512) : State :=
  let t := s.readBlock r
  if ¬ r.IsFull ∧ t.fd1.offset ≠ s.position * 512 + 512 then {t with status := some 17}
  else t.writeBlock

end State

/-- The loop reads while the program runs. -/
def step (s : State) (r : ReadResult 512) : Option State :=
  if s.status = none then some (s.turn r) else none

/-! ### What is asked -/

/-- The positions of the reads that fail, from this one on. -/
def failed : Nat → List (ReadResult 512) → List Nat
  | _, [] => []
  | b, r :: rs => if r.IsFull then failed (b + 1) rs else b :: failed (b + 1) rs

/-- After these reads the image is faithful to the device. -/
structure Faithful (device image : Contents) (start : Nat) (rs : List (ReadResult 512))
    (s : State) : Prop where
  source : s.fd1.contents = device
  position : s.position = start + rs.length
  offset1 : s.fd1.offset = s.position * 512
  offset2 : s.fd2.offset = s.position * 512
  copied : ∀ b r, rs[b]? = some r → ∀ i < 512, s.fd2.contents.block 512 (start + b) i =
    if r.IsFull then device.block 512 (start + b) i else 0
  untouched : ∀ c, c < start ∨ s.position ≤ c → ∀ i < 512,
    s.fd2.contents.block 512 c i = image.block 512 c i
  reported : s.badBlockPos = failed start rs

/-- After this read and what is done about it, the device would stand elsewhere than the
image behind its next block. -/
def SetsApart (s : State) (r : ReadResult 512) : Prop :=
  (s.readBlock r).fd1.offset ≠ s.fd2.offset + 512

instance (s : State) (r : ReadResult 512) : Decidable (SetsApart s r) :=
  inferInstanceAs (Decidable (_ ≠ _))

theorem failed_append (b : Nat) (rs : List (ReadResult 512)) (r : ReadResult 512) :
    failed b (rs ++ [r]) = failed b rs ++ if r.IsFull then [] else [b + rs.length] := by
  induction rs generalizing b with
  | nil => rfl
  | cons r' rs ih =>
    have hlength : b + 1 + rs.length = b + (rs.length + 1) := by omega
    simp only [List.cons_append, failed, ih, List.length_cons, hlength]
    split <;> rfl

/-! ### One turn -/

theorem readBlock_eq (s : State) (r : ReadResult 512) : s.readBlock r =
    {s with
      buf := if r.IsFull then s.fd1.readInto r s.buf
        else fun i => if i < 512 then 0 else s.fd1.readInto r s.buf i
      fd1 := ⟨s.fd1.contents, s.fd1.offset + r.bytes + if r.IsFull then 0 else 512⟩
      badBlockPos := s.badBlockPos ++ if r.IsFull then [] else [s.position]} := by
  unfold State.readBlock
  by_cases h : r.IsFull
  · simp only [if_pos h, List.append_nil]
    rfl
  · simp only [if_neg h]
    rfl

section Turn
variable {device image : Contents} {start : Nat} {rs : List (ReadResult 512)} {s : State}
  (h : Faithful device image start rs s) (r : ReadResult 512)

include h

/-- What is in the buffer when the block is written. -/
theorem Faithful.buf {i : Nat} (hi : i < 512) :
    (s.readBlock r).buf i = if r.IsFull then device.block 512 s.position i else 0 := by
  rw [readBlock_eq]
  by_cases hr : r.IsFull
  · simp only [if_pos hr]
    rw [Fd.readInto_of_isFull hr h.offset1 s.buf hi, h.source]
  · simp only [if_neg hr, if_pos hi]

/-- The check behind a failed read finds out whether the offsets are set apart. -/
theorem Faithful.setsApart_iff : SetsApart s r ↔
    ¬ r.IsFull ∧ (s.readBlock r).fd1.offset ≠ s.position * 512 + 512 := by
  unfold SetsApart
  rw [h.offset2]
  refine ⟨fun hne => ⟨fun hr => hne ?_, hne⟩, And.right⟩
  rw [readBlock_eq]
  simp only [if_pos hr, h.offset1, hr.bytes, Nat.add_zero]

theorem Faithful.turn_of_setsApart (hr : SetsApart s r) :
    (s.turn r).status = some 17 ∧ (s.turn r).fd2 = s.fd2 := by
  have hturn : s.turn r = {s.readBlock r with status := some 17} := by
    rw [State.turn, if_pos ((h.setsApart_iff r).mp hr)]
  rw [hturn]
  exact ⟨rfl, by rw [readBlock_eq]⟩

/-- The block of this turn is copied, and those before it stay. -/
theorem Faithful.copied_write {b i : Nat} {r' : ReadResult 512} (hb : (rs ++ [r])[b]? = some r')
    (hi : i < 512) :
    (s.fd2.write (s.readBlock r).buf 512).contents.block 512 (start + b) i =
      if r'.IsFull then device.block 512 (start + b) i else 0 := by
  by_cases hlast : b = rs.length
  · have hr' : r' = r := by
      rw [hlast, List.getElem?_concat_length] at hb
      exact (Option.some.inj hb).symm
    rw [hlast, ← h.position, Fd.write_block_self h.offset2 _ hi, h.buf r hi, hr']
  · have hlt : b < rs.length := by
      have hle := (List.getElem?_eq_some_iff.mp hb).1
      rw [List.length_append] at hle
      exact Nat.lt_of_le_of_ne (Nat.le_of_lt_succ hle) hlast
    rw [List.getElem?_append_left hlt] at hb
    have hne : start + b ≠ s.position := by
      rw [h.position]
      omega
    rw [Fd.write_block_of_ne h.offset2 _ hne hi]
    exact h.copied b r' hb i hi

/-- What is not from the start up to this block is left alone. -/
theorem Faithful.untouched_write {c i : Nat} (hc : c < start ∨ s.position + 1 ≤ c) (hi : i < 512) :
    (s.fd2.write (s.readBlock r).buf 512).contents.block 512 c i = image.block 512 c i := by
  have hle : start ≤ s.position := by
    rw [h.position]
    exact Nat.le_add_right _ _
  have hne : c ≠ s.position := by omega
  rw [Fd.write_block_of_ne h.offset2 _ hne hi]
  exact h.untouched c (by omega) i hi

/-- A turn that keeps the offsets together keeps the image faithful. -/
theorem Faithful.turn (hr : ¬ SetsApart s r) :
    Faithful device image start (rs ++ [r]) (s.turn r) := by
  have hturn : s.turn r = (s.readBlock r).writeBlock := by
    rw [State.turn, if_neg fun hexit => hr ((h.setsApart_iff r).mpr hexit)]
  have hoffset : (s.readBlock r).fd1.offset = s.position * 512 + 512 := by
    rw [← h.offset2]
    exact not_not.mp hr
  have hfd2 : (s.readBlock r).fd2 = s.fd2 := by rw [readBlock_eq]
  have hposition : (s.readBlock r).position = s.position := by rw [readBlock_eq]
  rw [hturn]
  constructor
  · rw [State.writeBlock, readBlock_eq]
    exact h.source
  · rw [State.writeBlock, hposition, h.position, List.length_append]
    rfl
  · simp only [State.writeBlock, hposition]
    rw [hoffset, Nat.add_mul, Nat.one_mul]
  · simp only [State.writeBlock, hposition, hfd2, Fd.write, h.offset2]
    rw [Nat.add_mul, Nat.one_mul]
  · intro b r' hb i hi
    simp only [State.writeBlock, hfd2]
    exact h.copied_write r hb hi
  · intro c hc i hi
    simp only [State.writeBlock, hposition, hfd2] at hc ⊢
    exact h.untouched_write r hc hi
  · rw [failed_append, ← h.position, ← h.reported, State.writeBlock, readBlock_eq]

end Turn

/-! ### Runs -/

theorem faithful_start (device image buf : Contents) (start : Nat) :
    Faithful device image start [] (.start device image buf start) where
  source := rfl
  position := rfl
  offset1 := rfl
  offset2 := rfl
  copied b r hb := by cases hb
  untouched _ _ _ _ := rfl
  reported := rfl

/-- What holds after the reads of a run, unless it was cut off. -/
def Inv (device image : Contents) (start : Nat) (rs : List (ReadResult 512)) (s : State) : Prop :=
  s.status = none ∨ s.status = some 0 → Faithful device image start rs s

theorem inv_step {device image : Contents} {start : Nat} {rs : List (ReadResult 512)} {s s' : State}
    {r : ReadResult 512} (h : Inv device image start rs s) (hstep : step s r = some s') :
    Inv device image start (rs ++ [r]) s' := by
  unfold step at hstep
  split at hstep
  · rename_i hrunning
    obtain rfl := Option.some.inj hstep
    intro hstatus
    have hfaithful := h (.inl hrunning)
    refine hfaithful.turn r fun hr => ?_
    have hexit := (hfaithful.turn_of_setsApart r hr).1
    rw [hexit] at hstatus
    rcases hstatus with hstatus | hstatus <;> cases hstatus
  · cases hstep

/-- **The copy is faithful**: at the head of each turn, and at the end, each block up to
`position` is the device's if its read succeeded and zero if it failed, other blocks are as
they were, both offsets stand at `position`, and the reads that failed are the ones reported.
A read that would set the offsets apart ends the program with a status that is not zero, and
writes nothing. -/
theorem faithful_run (device image buf : Contents) (start : Nat) (rs : List (ReadResult 512))
    (s : State) (h : Runs.run step (.start device image buf start) rs = some s) :
    (s.status = none ∨ s.status = some 0 → Faithful device image start rs s) ∧
      (s.status = none → ∀ r, SetsApart s r →
        ∃ t n, step s r = some t ∧ t.status = some n ∧ n ≠ 0 ∧ t.fd2 = s.fd2) := by
  have hstart : Inv device image start [] (.start device image buf start) :=
    fun _ => faithful_start device image buf start
  have hinv : Inv device image start rs s :=
    Runs.run_history (fun _ _ _ _ => inv_step) hstart h
  refine ⟨hinv, fun hrunning r hr => ?_⟩
  obtain ⟨hstatus, hfd2⟩ := (hinv (.inl hrunning)).turn_of_setsApart r hr
  exact ⟨s.turn r, 17, if_pos hrunning, hstatus, by decide, hfd2⟩

/-- What the image holds before. -/
def sampleImage : Contents := fun _ => 1

/-- The second block cannot be read, and of the third only a part. -/
theorem faithful_run_three :
    ∃ s t n, Faithful UInt8.ofNat sampleImage 0 [.count 512 (Nat.le_refl 512), .error] s ∧
      step s (.count 100 (by decide)) = some t ∧ t.status = some n ∧ n ≠ 0 ∧ t.fd2 = s.fd2 := by
  have hrun := faithful_run UInt8.ofNat sampleImage sampleImage 0
    [.count 512 (Nat.le_refl 512), .error] _ rfl
  obtain ⟨t, n, hstep, hstatus, hn, hfd2⟩ :=
    hrun.2 rfl (.count 100 (by decide)) (by decide +kernel)
  exact ⟨_, t, n, hrun.1 (.inl rfl), hstep, hstatus, hn, hfd2⟩

end VleoNotebook.Raid.CopyWBadBlocks
