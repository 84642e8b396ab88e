import VleoNotebook.SemShm.Program

/-! What a step of a process can be (`test_sem_shm`), and how many clients are where. -/
namespace VleoNotebook.SemShm

open SysV (semop count)

/-! ### Where a client is -/

namespace Client

/-- It copies the text. -/
def writes : Client → Bool
  | .copy _ => true
  | _ => false

/-- It has taken the segment and not given it back. -/
def holds : Client → Bool
  | .copy _ | .signal | .signalFailed => true
  | _ => false

/-- It has said that the segment has been changed. -/
def delivered : Client → Bool
  | .shmdt | .ended => true
  | _ => false

/-- It does not know of the segment. -/
def before : Client → Bool
  | .semget | .shmget | .semgetFailed | .shmgetFailed => true
  | _ => false

/-- How many bytes it has copied, as far as one can tell. -/
def wrote : Client → Nat
  | .copy k => min k copied.length
  | .signal | .signalFailed | .shmdt | .ended => copied.length
  | _ => 0

/-- It makes no more calls. -/
def gone : Client → Bool
  | .ended | .semgetFailed | .shmgetFailed | .lockFailed | .signalFailed => true
  | _ => false

/-- How many steps it has to go. -/
def left : Client → Nat
  | .semget => 24
  | .shmget => 23
  | .lock => 22
  | .copy k => 3 + (18 - k)
  | .signal => 2
  | .shmdt => 1
  | _ => 0

end Client

theorem length_text : text.length = 17 := by decide +kernel

theorem length_copied : copied.length = 18 := by decide +kernel

/-! ### One step -/

variable {C : Type} [DecidableEq C] {s s' : State C} {c : C}

/-- What a step of a client can be. -/
inductive ClientStep (s : State C) (c : C) : State C → Prop
  | semget (hc : s.client c = .semget) :
    ClientStep s c (s.become c (if s.sems.isSome then .shmget else .semgetFailed))
  | shmget (hc : s.client c = .shmget) :
    ClientStep s c (s.become c (if s.shm then .lock else .shmgetFailed))
  | lock {vals : List Nat} (hc : s.client c = .lock)
    (hsem : semop s.sems lockOperations = .done vals) :
    ClientStep s c ({s with sems := some vals}.become c (.copy 0))
  | lockFailed (hc : s.client c = .lock) (hsem : semop s.sems lockOperations = .error) :
    ClientStep s c (s.become c .lockFailed)
  | copy {k : Nat} {byte : UInt8} (hc : s.client c = .copy k) (hbyte : copied[k]? = some byte) :
    ClientStep s c ({s with memory := s.memory.set k byte}.become c (.copy (k + 1)))
  | copied {k : Nat} (hc : s.client c = .copy k) (hend : copied[k]? = none) :
    ClientStep s c (s.become c .signal)
  | signal {vals : List Nat} (hc : s.client c = .signal)
    (hsem : semop s.sems signalOperations = .done vals) :
    ClientStep s c ({s with sems := some vals}.become c .shmdt)
  | signalFailed (hc : s.client c = .signal) (hsem : semop s.sems signalOperations = .error) :
    ClientStep s c (s.become c .signalFailed)
  | shmdt (hc : s.client c = .shmdt) : ClientStep s c (s.become c .ended)

theorem clientStep_of_step (h : stepClient c s = some s') : ClientStep s c s' := by
  cases hc : s.client c with
  | semget =>
    simp only [stepClient, hc, Option.some.injEq] at h
    exact h ▸ .semget hc
  | shmget =>
    simp only [stepClient, hc, Option.some.injEq] at h
    exact h ▸ .shmget hc
  | lock =>
    simp only [stepClient, hc] at h
    cases hsem : semop s.sems lockOperations with
    | done vals =>
      simp only [hsem, Option.some.injEq] at h
      exact h ▸ .lock hc hsem
    | wait => simp only [hsem, reduceCtorEq] at h
    | error =>
      simp only [hsem, Option.some.injEq] at h
      exact h ▸ .lockFailed hc hsem
  | copy k =>
    simp only [stepClient, hc] at h
    cases hbyte : copied[k]? with
    | some byte =>
      simp only [hbyte, Option.some.injEq] at h
      exact h ▸ .copy hc hbyte
    | none =>
      simp only [hbyte, Option.some.injEq] at h
      exact h ▸ .copied hc hbyte
  | signal =>
    simp only [stepClient, hc] at h
    cases hsem : semop s.sems signalOperations with
    | done vals =>
      simp only [hsem, Option.some.injEq] at h
      exact h ▸ .signal hc hsem
    | wait => simp only [hsem, reduceCtorEq] at h
    | error =>
      simp only [hsem, Option.some.injEq] at h
      exact h ▸ .signalFailed hc hsem
  | shmdt =>
    simp only [stepClient, hc, Option.some.injEq] at h
    exact h ▸ .shmdt hc
  | ended | semgetFailed | shmgetFailed | lockFailed | signalFailed =>
    simp only [stepClient, hc, reduceCtorEq] at h

/-- What a step of the server can be. -/
inductive ServerStep (s : State C) : State C → Prop
  | semget (first second : Nat) (hs : s.server = .semget) :
    ServerStep s {s with sems := some [first, second], server := .setall}
  | setall (hs : s.server = .setall) :
    ServerStep s {s with sems := some [0, 0], server := .shmget}
  | shmget (hs : s.server = .shmget) :
    ServerStep s
      {s with shm := true, memory := List.replicate sizeofshmseg 0, server := loop 0}
  | take {i : Nat} {vals : List Nat} (hs : s.server = .take i)
    (hsem : semop s.sems takeOperations = .done vals) :
    ServerStep s {s with sems := some vals, server := .print i []}
  | takeFailed {i : Nat} (hs : s.server = .take i)
    (hsem : semop s.sems takeOperations = .error) : ServerStep s {s with server := .failed}
  | byte {i : Nat} {out : List UInt8} {byte : UInt8} (hs : s.server = .print i out)
    (hbyte : (s.memory[out.length]?).getD 0 = byte) (hmore : byte ≠ 0) :
    ServerStep s {s with server := .print i (out ++ [byte])}
  | line {i : Nat} {out : List UInt8} (hs : s.server = .print i out)
    (hend : (s.memory[out.length]?).getD 0 = 0) :
    ServerStep s {s with printed := s.printed ++ [out], server := .free i}
  | free {i : Nat} {vals : List Nat} (hs : s.server = .free i)
    (hsem : semop s.sems freeOperations = .done vals) :
    ServerStep s {s with sems := some vals, server := loop (i + 1)}
  | freeFailed {i : Nat} (hs : s.server = .free i)
    (hsem : semop s.sems freeOperations = .error) : ServerStep s {s with server := .failed}
  | rmid (hs : s.server = .rmid) : ServerStep s {s with sems := none, server := .shmdt}
  | shmdt (hs : s.server = .shmdt) : ServerStep s {s with server := .shmrm}
  | shmrm (hs : s.server = .shmrm) : ServerStep s {s with shm := false, server := .ended}

omit [DecidableEq C] in
theorem serverStep_of_step {first second : Nat} (h : stepServer first second s = some s') :
    ServerStep s s' := by
  cases hs : s.server with
  | semget =>
    simp only [stepServer, hs, Option.some.injEq] at h
    exact h ▸ .semget first second hs
  | setall =>
    simp only [stepServer, hs, Option.some.injEq] at h
    exact h ▸ .setall hs
  | shmget =>
    simp only [stepServer, hs, Option.some.injEq] at h
    exact h ▸ .shmget hs
  | take i =>
    simp only [stepServer, hs] at h
    cases hsem : semop s.sems takeOperations with
    | done vals =>
      simp only [hsem, Option.some.injEq] at h
      exact h ▸ .take hs hsem
    | wait => simp only [hsem, reduceCtorEq] at h
    | error =>
      simp only [hsem, Option.some.injEq] at h
      exact h ▸ .takeFailed hs hsem
  | print i out =>
    simp only [stepServer, hs] at h
    by_cases hend : (s.memory[out.length]?).getD 0 = 0
    · simp only [hend, if_true, Option.some.injEq] at h
      exact h ▸ .line hs hend
    · simp only [if_neg hend, Option.some.injEq] at h
      exact h ▸ .byte hs rfl hend
  | free i =>
    simp only [stepServer, hs] at h
    cases hsem : semop s.sems freeOperations with
    | done vals =>
      simp only [hsem, Option.some.injEq] at h
      exact h ▸ .free hs hsem
    | wait => simp only [hsem, reduceCtorEq] at h
    | error =>
      simp only [hsem, Option.some.injEq] at h
      exact h ▸ .freeFailed hs hsem
  | rmid =>
    simp only [stepServer, hs, Option.some.injEq] at h
    exact h ▸ .rmid hs
  | shmdt =>
    simp only [stepServer, hs, Option.some.injEq] at h
    exact h ▸ .shmdt hs
  | shmrm =>
    simp only [stepServer, hs, Option.some.injEq] at h
    exact h ▸ .shmrm hs
  | ended | failed => simp only [stepServer, hs, reduceCtorEq] at h

/-! ### No step -/

/-- A client that cannot go on has ended, or it waits for a semaphore. -/
theorem stepClient_eq_none (h : stepClient c s = none) : (s.client c).gone = true ∨
    s.client c = .lock ∧ semop s.sems lockOperations = .wait ∨
    s.client c = .signal ∧ semop s.sems signalOperations = .wait := by
  cases hc : s.client c with
  | ended | semgetFailed | shmgetFailed | lockFailed | signalFailed => exact .inl rfl
  | lock =>
    refine .inr (.inl ⟨rfl, ?_⟩)
    simp only [stepClient, hc] at h
    cases hsem : semop s.sems lockOperations <;> simp only [hsem, reduceCtorEq] at h
    rfl
  | signal =>
    refine .inr (.inr ⟨rfl, ?_⟩)
    simp only [stepClient, hc] at h
    cases hsem : semop s.sems signalOperations <;> simp only [hsem, reduceCtorEq] at h
    rfl
  | semget | shmget | shmdt => simp only [stepClient, hc, reduceCtorEq] at h
  | copy k =>
    simp only [stepClient, hc] at h
    cases hbyte : copied[k]? <;> simp only [hbyte, reduceCtorEq] at h

omit [DecidableEq C] in
theorem stepServer_eq_none {first second : Nat} (h : stepServer first second s = none) :
    (s.server = .ended ∨ s.server = .failed) ∨
    (∃ i, s.server = .take i ∧ semop s.sems takeOperations = .wait) ∨
    ∃ i, s.server = .free i ∧ semop s.sems freeOperations = .wait := by
  cases hs : s.server with
  | ended => exact .inl (.inl rfl)
  | failed => exact .inl (.inr rfl)
  | take i =>
    refine .inr (.inl ⟨i, rfl, ?_⟩)
    simp only [stepServer, hs] at h
    cases hsem : semop s.sems takeOperations <;> simp only [hsem, reduceCtorEq] at h
    rfl
  | free i =>
    refine .inr (.inr ⟨i, rfl, ?_⟩)
    simp only [stepServer, hs] at h
    cases hsem : semop s.sems freeOperations <;> simp only [hsem, reduceCtorEq] at h
    rfl
  | semget | setall | shmget | rmid | shmdt | shmrm =>
    simp only [stepServer, hs, reduceCtorEq] at h
  | print i out =>
    simp only [stepServer, hs] at h
    split at h <;> cases h

theorem stepClient_of_gone (h : (s.client c).gone = true) : stepClient c s = none := by
  cases hc : s.client c <;> rw [hc] at h
  case ended | semgetFailed | shmgetFailed | lockFailed | signalFailed =>
    simp only [stepClient, hc]
  all_goals exact absurd h Bool.false_ne_true

/-! ### One client after a step -/

@[simp] theorem client_become_self (pc : Client) : (s.become c pc).client c = pc := by
  simp only [State.become, Function.update_self]

theorem client_become_of_ne {d : C} (hd : d ≠ c) (pc : Client) :
    (s.become c pc).client d = s.client d := by
  simp only [State.become, Function.update_of_ne hd]

/-- What holds of all clients, and of the one in its new place. -/
theorem forall_become (p : Client → Prop) (h : ∀ d, p (s.client d)) {pc : Client}
    (hpc : p pc) (d : C) : p ((s.become c pc).client d) := by
  by_cases hd : d = c
  · subst hd
    rw [client_become_self]
    exact hpc
  · rw [client_become_of_ne hd]
    exact h d

variable [Fintype C]

def State.holders (s : State C) : Nat := count Client.holds s.client

def State.delivered (s : State C) : Nat := count Client.delivered s.client

theorem holders_become (s : State C) (c : C) (pc : Client) :
    (s.become c pc).holders + (s.client c).holds.toNat = s.holders + pc.holds.toNat :=
  SysV.count_update Client.holds s.client c pc

theorem delivered_become (s : State C) (c : C) (pc : Client) :
    (s.become c pc).delivered + (s.client c).delivered.toNat =
      s.delivered + pc.delivered.toNat :=
  SysV.count_update Client.delivered s.client c pc

theorem holders_stay {pc : Client} (h : pc.holds = (s.client c).holds) :
    (s.become c pc).holders = s.holders := by
  have hbecome := holders_become s c pc
  rw [h] at hbecome
  omega

theorem delivered_stay {pc : Client} (h : pc.delivered = (s.client c).delivered) :
    (s.become c pc).delivered = s.delivered := by
  have hbecome := delivered_become s c pc
  rw [h] at hbecome
  omega

end VleoNotebook.SemShm
