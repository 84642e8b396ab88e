import Mathlib.Data.Fintype.Card
import VleoNotebook.Lib.Runs
import VleoNotebook.SemShm.Phases

/-! Runs of the server and its clients (`test_sem_shm`).

No two clients are in the segment at once, and each line the server prints is the text that
a client has copied (`always_safe`). Every run ends, with both messages printed or with the
server waiting (`run_ends`). Only by chance does the server not read while a client writes
(`apart_iff`). -/
namespace VleoNotebook.SemShm

open SysV (semvmx semop)

variable {C : Type} [DecidableEq C] [Fintype C] {s s' : State C} {c : C}

/-! ### Every run -/

/-- What a user of the programs relies on. -/
structure Safe (s : State C) : Prop where
  /-- At most one client is in the segment. -/
  alone : ∀ c d, (s.client c).holds = true → (s.client d).holds = true → c = d
  /-- No call of the server has failed. -/
  served : s.server ≠ .failed
  /-- Each line is the text of a client, and no message is printed before it has come. -/
  printed : ∃ n, s.printed = List.replicate n text ∧ n ≤ nummsg ∧ n ≤ s.delivered

section Safe
omit [DecidableEq C]

theorem Fresh.safe (h : Fresh s) (hserved : s.server ≠ .failed) : Safe s := by
  refine ⟨fun c d hc _ => ?_, hserved, 0, h.printed, Nat.zero_le _, Nat.zero_le _⟩
  have hbefore := h.before c
  cases hpc : s.client c <;> rw [hpc] at hbefore hc
  all_goals first
    | exact absurd hc Bool.false_ne_true
    | exact absurd hbefore Bool.false_ne_true

theorem Running.safe {received n : Nat} {busy : Bool} (h : Running s received busy)
    (hserved : s.server ≠ .failed) (hprinted : s.printed = List.replicate n text)
    (hn : n ≤ nummsg) (hreceived : n ≤ received) : Safe s := by
  obtain ⟨b, -, hcount, -⟩ := h.sems
  exact ⟨fun _ _ => SysV.eq_of_count_le_one h.alone, hserved, n, hprinted, hn,
    (hreceived.trans (Nat.le_add_right received b)).trans hcount.ge⟩

theorem Closed.safe (h : Closed s) (hserved : s.server ≠ .failed) : Safe s :=
  ⟨fun _ _ => SysV.eq_of_count_le_one h.alone, hserved, nummsg, h.printed, le_rfl, h.delivered⟩

theorem Phase.safe (h : Phase s) : Safe s := by
  cases hserver : s.server with
  | semget | setall =>
    simp only [Phase, hserver] at h
    exact h.safe (by rw [hserver]; decide)
  | shmget =>
    simp only [Phase, hserver] at h
    exact h.1.safe (by rw [hserver]; decide)
  | take i =>
    simp only [Phase, hserver] at h
    exact h.2.1.safe (by rw [hserver]; exact Server.noConfusion) h.2.2 h.1.le le_rfl
  | print i out =>
    simp only [Phase, hserver] at h
    exact h.2.1.safe (by rw [hserver]; exact Server.noConfusion) h.2.2.1 h.1.le (Nat.le_succ i)
  | free i =>
    simp only [Phase, hserver] at h
    exact h.2.1.safe (by rw [hserver]; exact Server.noConfusion) h.2.2 h.1 le_rfl
  | rmid =>
    simp only [Phase, hserver] at h
    exact h.1.safe (by rw [hserver]; decide) h.2 le_rfl le_rfl
  | shmdt | shmrm | ended =>
    simp only [Phase, hserver] at h
    exact h.safe (by rw [hserver]; decide)
  | failed => simp only [Phase, hserver] at h

end Safe

/-- **In every run, clients use the segment one at a time, and the server prints nothing but
whole texts**, whatever the order of the steps. -/
theorem always_safe (as : List (Action C)) : Runs.Always step Safe start as :=
  (Runs.always_of_invariant phase_step as phase_start).mono fun _ h => h.safe

/-! ### How runs end -/

/-- How many steps the server has to go. -/
def Server.left : Server → Nat
  | .semget => 46
  | .setall => 45
  | .shmget => 44
  | .take i => 20 * (nummsg - i) + 3
  | .print i out => 20 * (nummsg - (i + 1)) + 4 + (18 - out.length)
  | .free i => 20 * (nummsg - (i + 1)) + 4
  | .rmid => 3
  | .shmdt => 2
  | .shmrm => 1
  | .ended | .failed => 0

def State.left (s : State C) : Nat := s.server.left + ∑ c, (s.client c).left

omit [Fintype C] in
theorem left_loop (i : Nat) : (loop i).left = 20 * (nummsg - i) + 3 := by
  unfold loop
  split
  · rfl
  · next hi =>
    rw [Nat.sub_eq_zero_of_le (Nat.le_of_not_lt hi)]
    rfl

omit [DecidableEq C] in
theorem Phase.server_left (h : Phase s) (hstep : ServerStep s s') : s'.left < s.left := by
  have hmessages : nummsg = 2 := rfl
  refine Nat.add_lt_add_of_lt_of_le ?_ ?_
  · cases hstep with
    | semget _ _ hs | setall hs | rmid hs | shmdt hs | shmrm hs =>
      rw [hs]
      exact Nat.lt_succ_self _
    | shmget hs =>
      rw [hs, left_loop]
      decide
    | take hs =>
      simp only [Phase, hs] at h
      rw [hs]
      simp only [Server.left, List.length_nil]
      omega
    | takeFailed hs | freeFailed hs =>
      rw [hs]
      exact Nat.succ_pos _
    | byte hs | line hs =>
      simp only [Phase, hs] at h
      have hlen := h.2.2.2.length_le
      rw [length_text] at hlen
      rw [hs]
      simp only [Server.left, List.length_append, List.length_singleton]
      omega
    | free hs =>
      rw [hs, left_loop]
      exact Nat.lt_succ_self _
  · cases hstep <;> exact le_rfl

/-- A client goes where it has fewer steps to go. -/
theorem left_become {pc pc' : Client} (hc : s.client c = pc) (h : pc'.left < pc.left) :
    (s.become c pc').left < s.left := by
  have hsum := SysV.sum_update Client.left s.client c pc'
  rw [hc] at hsum
  show s.server.left + ∑ d, (Function.update s.client c pc' d).left < _
  rw [State.left]
  omega

theorem ClientStep.left (h : ClientStep s c s') : s'.left < s.left := by
  cases h with
  | semget hc => exact left_become hc (by split <;> decide)
  | shmget hc => exact left_become hc (by split <;> decide)
  | @lock vals hc => exact left_become (s := {s with sems := some vals}) hc (by decide)
  | lockFailed hc => exact left_become hc (by decide)
  | @copy k byte hc hbyte =>
    have hk := (List.getElem?_eq_some_iff.mp hbyte).1
    rw [length_copied] at hk
    refine left_become (s := {s with memory := s.memory.set k byte}) hc ?_
    simp only [Client.left]
    omega
  | copied hc => exact left_become hc (Nat.lt_add_right _ (Nat.lt_succ_self 2))
  | @signal vals hc => exact left_become (s := {s with sems := some vals}) hc (by decide)
  | signalFailed hc => exact left_become hc (by decide)
  | shmdt hc => exact left_become hc (by decide)

theorem left_step (s : State C) (a : Action C) (s' : State C) (h : Phase s)
    (hstep : step s a = some s') : s'.left < s.left := by
  cases a with
  | server first second => exact h.server_left (serverStep_of_step hstep)
  | client c => exact (clientStep_of_step hstep).left

/-- No process can go on. -/
def Over (s : State C) : Prop := ∀ a, step s a = none

/-- The server has printed its messages and left, and so have the clients. -/
structure Finished (s : State C) : Prop where
  server : s.server = .ended
  printed : s.printed = List.replicate nummsg text
  delivered : nummsg ≤ s.delivered
  client : ∀ c, (s.client c).gone = true

/-- The server waits for message `i`, and there is nobody to send it: the other clients came
too early. -/
structure Starved (s : State C) (i : Nat) : Prop where
  server : s.server = .take i
  lt : i < nummsg
  printed : s.printed = List.replicate i text
  delivered : s.delivered = i
  client : ∀ c, s.client c = .ended ∨ s.client c = .semgetFailed ∨ s.client c = .shmgetFailed

omit [DecidableEq C] in
/-- The server waits only if no change is there. -/
theorem Running.semop_take_wait {i : Nat} (h : Running s i false) :
    semop s.sems takeOperations = .wait ↔ s.delivered = i := by
  obtain ⟨b, hsems, hcount, -⟩ := h.sems
  rw [hsems, semop_take]
  split
  · next hzero => exact ⟨fun _ => by omega, fun _ => rfl⟩
  · refine ⟨fun hwait => ?_, fun hi => absurd hi (by omega)⟩
    split at hwait <;> cases hwait

/-- Whoever has the segment goes on, unless too many changes have been delivered. -/
theorem Running.client_over {i : Nat} (h : Running s i false) (hi : s.delivered < semvmx)
    (hover : ∀ c, stepClient c s = none) (c : C) :
    s.client c = .ended ∨ s.client c = .semgetFailed ∨ s.client c = .shmgetFailed := by
  obtain ⟨b, hsems, hcount, hb⟩ := h.sems
  have hbusy : false.toNat = 0 := rfl
  have hnone : s.holders = 0 := by
    by_contra hne
    obtain ⟨d, hd⟩ := SysV.exists_of_count_pos (Nat.pos_of_ne_zero hne)
    obtain hend | ⟨hpc, -⟩ | ⟨-, hwait⟩ := stepClient_eq_none (hover d)
    · cases hpc : s.client d <;> rw [hpc] at hd hend
      case signalFailed => exact absurd (h.full d hpc) (Nat.not_le_of_lt hi)
      all_goals first
        | exact absurd hd Bool.false_ne_true
        | exact absurd hend Bool.false_ne_true
    · rw [hpc] at hd
      exact absurd hd Bool.false_ne_true
    · rw [hsems, semop_signal, if_neg (by omega)] at hwait
      split at hwait <;> cases hwait
  obtain hend | ⟨-, hwait⟩ | ⟨hpc, -⟩ := stepClient_eq_none (hover c)
  · cases hpc : s.client c <;> rw [hpc] at hend
    case ended => exact .inl rfl
    case semgetFailed => exact .inr (.inl rfl)
    case shmgetFailed => exact .inr (.inr rfl)
    case lockFailed => exact absurd hpc (h.lock c)
    case signalFailed => exact absurd (h.full c hpc) (Nat.not_le_of_lt hi)
    all_goals exact absurd hend Bool.false_ne_true
  · rw [hsems, semop_lock, if_pos (by omega)] at hwait
    cases hwait
  · have hholds := SysV.count_pos (p := Client.holds) (f := s.client) (c := c) (by rw [hpc]; rfl)
    exact absurd hnone (Nat.pos_iff_ne_zero.mp hholds)

/-- **When no process can go on, the server has done its work, or too few clients came for
it.** -/
theorem Phase.over_iff (h : Phase s) : Over s ↔ Finished s ∨ ∃ i, Starved s i := by
  have hmax : semvmx = 32767 := rfl
  constructor
  · intro hover
    have hclient (c : C) : stepClient c s = none := hover (.client c)
    obtain hend | ⟨i, hs, hwait⟩ | ⟨i, hs, hwait⟩ := stepServer_eq_none (hover (.server 0 0))
    · obtain hs | hs := hend
      · simp only [Phase, hs] at h
        refine .inl ⟨hs, h.printed, h.delivered, fun c => ?_⟩
        obtain hend | ⟨-, hwait⟩ | ⟨-, hwait⟩ := stepClient_eq_none (hclient c)
        · exact hend
        all_goals
          rw [h.sems] at hwait
          cases hwait
      · simp only [Phase, hs] at h
    · simp only [Phase, hs] at h
      obtain ⟨hi, hrunning, hprinted⟩ := h
      have hdelivered := hrunning.semop_take_wait.mp hwait
      refine .inr ⟨i, hs, hi, hprinted, hdelivered, hrunning.client_over ?_ hclient⟩
      rw [nummsg] at hi
      omega
    · simp only [Phase, hs] at h
      obtain ⟨b, hdone, -⟩ := h.2.1.semop_free_eq
      exact SysV.Semop.noConfusion (hwait.symm.trans hdone)
  · intro hend a
    obtain hend | ⟨i, hend⟩ := hend
    · cases a with
      | server first second => simp only [step, stepServer, hend.server]
      | client c => exact stepClient_of_gone (hend.client c)
    · simp only [Phase, hend.server] at h
      cases a with
      | server first second =>
        simp only [step, stepServer, hend.server, h.2.1.semop_take_wait.mpr hend.delivered]
      | client c =>
        refine stepClient_of_gone ?_
        obtain hc | hc | hc := hend.client c <;> rw [hc] <;> rfl

/-- **Every run comes to its end**: it has no more than 46 steps and 24 for each client, and
where nobody can go on the server has printed two messages and left, or it waits for a message
that no client is left to send. -/
theorem run_ends {as : List (Action C)} (h : Runs.run step start as = some s) :
    as.length ≤ 46 + 24 * Fintype.card C ∧ (Over s ↔ Finished s ∨ ∃ i, Starved s i) := by
  refine ⟨?_, (Runs.run_invariant phase_step phase_start h).over_iff⟩
  have hlength := Runs.length_add_le phase_step left_step phase_start h
  have hstart : (start : State C).left = 46 + 24 * Fintype.card C := by
    show 46 + ∑ _ : C, 24 = _
    rw [Finset.sum_const_nat fun _ _ => rfl, Finset.card_univ, Nat.mul_comm]
  omega

/-- The server is ready, a client comes, and the server prints what it has written. -/
def oneClient : List (Action (Fin 1)) :=
  List.replicate 3 (.server 0 0) ++ List.replicate 24 (.client 0) ++
    List.replicate 20 (.server 0 0)

/-- One client comes in time; the server waits for another one then. -/
theorem run_ends_one : ∃ s, Runs.run step (start : State (Fin 1)) oneClient = some s ∧
    oneClient.length ≤ 46 + 24 * Fintype.card (Fin 1) ∧
    (Over s ↔ Finished s ∨ ∃ i, Starved s i) := by
  have hrun : (Runs.run step (start : State (Fin 1)) oneClient).isSome = true := by decide +kernel
  obtain ⟨s, hs⟩ := Option.isSome_iff_exists.mp hrun
  exact ⟨s, hs, run_ends hs⟩

/-! ### The server and a client at once -/

def Server.reads : Server → Bool
  | .print _ _ => true
  | _ => false

def Server.takes : Server → Bool
  | .take _ => true
  | _ => false

/-- The server does not read what a client is writing. -/
def Apart (s : State C) : Prop := s.server.reads = true → ∀ c, (s.client c).writes = false

/-- The server takes the segment when no client writes to it. Its operations do not wait for
that. -/
def Waited (s : State C) : Action C → Prop
  | .server _ _ => s.server.takes = true → ∀ c, (s.client c).writes = false
  | .client _ => True

instance (s : State C) (a : Action C) : Decidable (Waited s a) :=
  match a with
  | .server _ _ =>
    inferInstanceAs (Decidable (s.server.takes = true → ∀ c, (s.client c).writes = false))
  | .client _ => inferInstanceAs (Decidable True)

theorem reads_loop (i : Nat) : (loop i).reads = false := by
  unfold loop
  split <;> rfl

omit [Fintype C] in
theorem ClientStep.writes (h : ClientStep s c s') (hapart : ∀ c, (s.client c).writes = false)
    (hlock : ∀ vals, semop s.sems lockOperations ≠ .done vals) (d : C) :
    (s'.client d).writes = false := by
  have hwrites := hapart c
  cases h with
  | semget =>
    exact forall_become (fun pc => pc.writes = false) hapart (by split <;> rfl) d
  | shmget =>
    exact forall_become (fun pc => pc.writes = false) hapart (by split <;> rfl) d
  | @lock vals hc hsem => exact absurd hsem (hlock vals)
  | copy hc =>
    rw [hc] at hwrites
    exact Bool.noConfusion hwrites
  | lockFailed | copied | signalFailed | shmdt =>
    exact forall_become (fun pc => pc.writes = false) hapart rfl d
  | @signal vals =>
    exact forall_become (s := {s with sems := some vals}) (fun pc => pc.writes = false) hapart rfl d

/-- **One step keeps server and clients apart exactly when it waits for the clients.** -/
theorem apart_step (s : State C) (a : Action C) (s' : State C) (h : Phase s) (hapart : Apart s)
    (hstep : step s a = some s') : Apart s' ↔ Waited s a := by
  cases a with
  | server first second =>
    have hserver := serverStep_of_step hstep
    cases hserver with
    | take hs => simp only [Apart, Waited, hs, Server.reads, Server.takes]
    | takeFailed hs hsem =>
      simp only [Phase, hs] at h
      exact absurd hsem h.2.1.take_ne_error
    | byte hs =>
      simp only [Apart, Waited, hs, Server.reads, Server.takes] at hapart ⊢
      exact ⟨fun _ ht => absurd ht Bool.false_ne_true, fun _ => hapart⟩
    | shmget hs | free hs =>
      refine iff_of_true (fun hreads => ?_) fun htakes => ?_
      · exact absurd hreads (by rw [reads_loop]; exact Bool.false_ne_true)
      · rw [hs] at htakes
        exact absurd htakes Bool.false_ne_true
    | semget _ _ hs | setall hs | line hs | freeFailed hs | rmid hs | shmdt hs | shmrm hs =>
      refine iff_of_true (fun hreads => absurd hreads Bool.false_ne_true) fun htakes => ?_
      rw [hs] at htakes
      exact absurd htakes Bool.false_ne_true
  | client c =>
    have hclient := clientStep_of_step hstep
    refine iff_of_true (fun hreads => ?_) trivial
    rw [hclient.server_eq.1] at hreads
    refine hclient.writes (hapart hreads) fun vals hdone => ?_
    cases hs : s.server with
    | print i out =>
      simp only [Phase, hs] at h
      obtain ⟨b, hsems, -⟩ := h.2.1.sems
      have hbusy : true.toNat = 1 := rfl
      rw [hsems, semop_lock, if_neg (by omega)] at hdone
      cases hdone
    | semget | setall | shmget | take | free | rmid | shmdt | shmrm | ended | failed =>
      rw [hs] at hreads
      exact absurd hreads Bool.false_ne_true

/-- **The server never reads what a client is writing, in exactly the runs in which it takes
the segment only when no client writes.** Its operations leave that to chance. -/
theorem apart_iff {as : List (Action C)} (h : (Runs.run step (start : State C) as).isSome = true) :
    Runs.Always step Apart start as ↔ Runs.Meets step Waited (start : State C) as := by
  obtain ⟨s, hrun⟩ := Option.isSome_iff_exists.mp h
  exact Runs.always_iff_meets phase_step apart_step phase_start
    (fun hreads => absurd hreads Bool.false_ne_true) hrun

/-- The first client is done, and the second has taken the segment, when the server does. -/
def overlap : List (Action (Fin 2)) :=
  List.replicate 3 (.server 0 0) ++ List.replicate 23 (.client 0) ++
    List.replicate 3 (.client 1) ++ [.server 0 0]

theorem apart_iff_overlap : ¬ Runs.Always step Apart start overlap := by
  have hrun : (Runs.run step (start : State (Fin 2)) overlap).isSome = true := by decide +kernel
  have hwaited : ¬ Runs.Meets step Waited (start : State (Fin 2)) overlap := by decide +kernel
  exact fun halways => hwaited ((apart_iff hrun).mp halways)

end VleoNotebook.SemShm
