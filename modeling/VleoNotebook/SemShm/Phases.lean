import VleoNotebook.SemShm.Steps

/-! The phases of the server (`test_sem_shm`), and what each step keeps in them.

The first semaphore counts the clients that have taken the segment, which is at most one,
and the server if it has; the second counts the changes that the server has not taken. -/
namespace VleoNotebook.SemShm

open SysV (semvmx semop)

variable {C : Type} [DecidableEq C] [Fintype C] {s s' : State C} {c : C}

/-! ### The invariant -/

/-- No client knows of the segment. -/
structure Fresh (s : State C) : Prop where
  before : ∀ c, (s.client c).before = true
  shm : s.shm = false
  printed : s.printed = []

/-- The segment is there, and the server has been told of `received` changes; it is `busy`
with the segment or not. -/
structure Running (s : State C) (received : Nat) (busy : Bool) : Prop where
  shm : s.shm = true
  length : s.memory.length = sizeofshmseg
  sems : ∃ b, s.sems = some [s.holders + busy.toNat, b] ∧ s.delivered = received + b ∧ b ≤ semvmx
  alone : s.holders ≤ 1
  written : ∀ c j, j < (s.client c).wrote → s.memory[j]? = copied[j]?
  lock : ∀ c, s.client c ≠ .lockFailed
  full : ∀ c, s.client c = .signalFailed → semvmx ≤ s.delivered

/-- The set of semaphores has been removed. -/
structure Closed (s : State C) : Prop where
  sems : s.sems = none
  alone : s.holders ≤ 1
  printed : s.printed = List.replicate nummsg text
  delivered : nummsg ≤ s.delivered

/-- What holds, by what the server has done. -/
def Phase (s : State C) : Prop :=
  match s.server with
  | .semget | .setall => Fresh s
  | .shmget => Fresh s ∧ s.sems = some [0, 0]
  | .take i => i < nummsg ∧ Running s i false ∧ s.printed = List.replicate i text
  | .print i out =>
    i < nummsg ∧ Running s (i + 1) true ∧ s.printed = List.replicate i text ∧ out <+: text
  | .free i => i < nummsg ∧ Running s (i + 1) true ∧ s.printed = List.replicate (i + 1) text
  | .rmid => Running s nummsg false ∧ s.printed = List.replicate nummsg text
  | .shmdt | .shmrm | .ended => Closed s
  | .failed => False

/-! ### Steps of a client -/

omit [Fintype C] in
theorem Fresh.client (h : Fresh s) (hstep : ClientStep s c s') : Fresh s' := by
  have hbefore := h.before c
  cases hstep with
  | semget hc =>
    refine ⟨forall_become (fun pc => pc.before = true) h.before ?_, h.shm, h.printed⟩
    cases s.sems.isSome <;> rfl
  | shmget hc =>
    refine ⟨forall_become (fun pc => pc.before = true) h.before ?_, h.shm, h.printed⟩
    rw [h.shm]
    rfl
  | lock hc | lockFailed hc | copy hc | copied hc | signal hc | signalFailed hc | shmdt hc =>
    rw [hc] at hbefore
    exact absurd hbefore Bool.false_ne_true

/-- A client goes on to another place, and the semaphores with it. -/
theorem Running.move {received b : Nat} {busy : Bool} (h : Running s received busy) {pc : Client}
    (halone : (s.become c pc).holders ≤ 1) (hcount : (s.become c pc).delivered = received + b)
    (hb : b ≤ semvmx) (hmore : s.delivered ≤ (s.become c pc).delivered)
    (hwrote : ∀ j, j < pc.wrote → s.memory[j]? = copied[j]?) (hlock : pc ≠ .lockFailed)
    (hfull : pc = .signalFailed → semvmx ≤ (s.become c pc).delivered) :
    Running ({s with sems := some [(s.become c pc).holders + busy.toNat, b]}.become c pc)
      received busy where
  shm := h.shm
  length := h.length
  sems := ⟨b, rfl, hcount, hb⟩
  alone := halone
  written :=
    forall_become (fun pc => ∀ j, j < pc.wrote → s.memory[j]? = copied[j]?) h.written hwrote
  lock := forall_become (· ≠ .lockFailed) h.lock hlock
  full := forall_become (fun pc' => pc' = .signalFailed → semvmx ≤ (s.become c pc).delivered)
    (fun d hd => (h.full d hd).trans hmore) hfull

/-- It goes on with what it has of the semaphores. -/
theorem Running.stay {received : Nat} {busy : Bool} (h : Running s received busy) {pc : Client}
    (hholds : pc.holds = (s.client c).holds) (hdelivered : pc.delivered = (s.client c).delivered)
    (hwrote : ∀ j, j < pc.wrote → s.memory[j]? = copied[j]?) (hlock : pc ≠ .lockFailed)
    (hfull : pc = .signalFailed → semvmx ≤ s.delivered) :
    Running (s.become c pc) received busy := by
  obtain ⟨b, hsems, hcount, hb⟩ := h.sems
  have hh := holders_stay hholds
  have hd := delivered_stay hdelivered
  have hmove := h.move (c := c) (b := b) (hh ▸ h.alone) (hd.trans hcount) hb hd.ge hwrote hlock
    (fun hpc => hd ▸ hfull hpc)
  rwa [hh, ← hsems] at hmove

omit [DecidableEq C] in
/-- A byte of the text goes to its place, where it may be already. -/
theorem Running.write {received k : Nat} {busy : Bool} {byte : UInt8}
    (h : Running s received busy) (hbyte : copied[k]? = some byte) :
    Running {s with memory := s.memory.set k byte} received busy := by
  refine {h with length := (List.length_set ..).trans h.length, written := fun c j hj => ?_}
  rw [List.getElem?_set]
  by_cases hk : k = j
  · subst hk
    have hlen : k < s.memory.length := by
      have hcopied := (List.getElem?_eq_some_iff.mp hbyte).1
      rw [length_copied] at hcopied
      rw [h.length, sizeofshmseg]
      omega
    rw [if_pos rfl, if_pos hlen, hbyte]
  · rw [if_neg hk]
    exact h.written c j hj

theorem Running.client {received : Nat} {busy : Bool} (h : Running s received busy)
    (hstep : ClientStep s c s') : Running s' received busy := by
  obtain ⟨b, hsems, hcount, hb⟩ := h.sems
  have halone := h.alone
  have hbusy := Bool.toNat_le busy
  have hmax : semvmx = 32767 := rfl
  cases hstep with
  | semget hc =>
    rw [hsems, Option.isSome_some, if_pos rfl]
    exact h.stay (by rw [hc]; rfl) (by rw [hc]; rfl) (fun j hj => absurd hj (Nat.not_lt_zero j))
      (by decide) (fun hpc => absurd hpc (by decide))
  | shmget hc =>
    rw [h.shm, if_pos rfl]
    exact h.stay (by rw [hc]; rfl) (by rw [hc]; rfl) (fun j hj => absurd hj (Nat.not_lt_zero j))
      (by decide) (fun hpc => absurd hpc (by decide))
  | @lock vals hc hsem =>
    rw [hsems, semop_lock] at hsem
    split at hsem
    · next hzero =>
      obtain rfl := SysV.Semop.done.inj hsem
      have hh := holders_become s c (.copy 0)
      have hd := delivered_become s c (.copy 0)
      simp only [hc, Client.holds, Client.delivered, Bool.toNat_false, Bool.toNat_true] at hh hd
      have hone : (s.become c (.copy 0)).holders + busy.toNat = 1 := by omega
      rw [← hone]
      exact h.move (by omega) (hd.trans hcount) hb hd.ge
        (fun j hj => absurd (hj.trans_le (Nat.min_le_left ..)) (Nat.not_lt_zero j)) (by decide)
        (fun hpc => absurd hpc (by decide))
    · cases hsem
  | lockFailed hc hsem =>
    rw [hsems, semop_lock] at hsem
    split at hsem <;> cases hsem
  | @copy k byte hc hbyte =>
    refine (h.write hbyte).stay (by rw [hc]; rfl) (by rw [hc]; rfl) (fun j hj => ?_)
      (fun hpc => by cases hpc) (fun hpc => by cases hpc)
    obtain ⟨hk, hj⟩ := lt_min_iff.mp hj
    obtain hk | rfl := Nat.lt_succ_iff_lt_or_eq.mp hk
    · refine (h.write hbyte).written c j ?_
      show j < (s.client c).wrote
      rw [hc]
      exact lt_min hk hj
    · have hlen : j < s.memory.length := by
        rw [h.length, sizeofshmseg]
        have hcopied := (List.getElem?_eq_some_iff.mp hbyte).1
        rw [length_copied] at hcopied
        omega
      rw [hbyte]
      exact List.getElem?_set_self hlen
  | @copied k hc hend =>
    refine h.stay (by rw [hc]; rfl) (by rw [hc]; rfl) (fun j hj => h.written c j ?_) (by decide)
      (fun hpc => absurd hpc (by decide))
    rw [hc]
    exact lt_min (hj.trans_le (List.getElem?_eq_none_iff.mp hend)) hj
  | @signal vals hc hsem =>
    have hwritten := h.written c
    have hh := holders_become s c .shmdt
    have hd := delivered_become s c .shmdt
    rw [hc] at hwritten
    simp only [hc, Client.holds, Client.delivered, Bool.toNat_false, Bool.toNat_true] at hh hd
    rw [hsems, semop_signal, if_neg (by omega)] at hsem
    split at hsem
    · obtain rfl := SysV.Semop.done.inj hsem
      have hpred : s.holders + busy.toNat - 1 = (s.become c .shmdt).holders + busy.toNat := by
        omega
      rw [hpred]
      exact h.move (by omega) (by omega) (by omega) (by omega) hwritten (by decide)
        (fun hpc => absurd hpc (by decide))
    · cases hsem
  | signalFailed hc hsem =>
    have hwritten := h.written c
    have hholds := SysV.count_pos (p := Client.holds) (f := s.client) (c := c) (by rw [hc]; rfl)
    change 0 < s.holders at hholds
    rw [hc] at hwritten
    rw [hsems, semop_signal, if_neg (by omega)] at hsem
    split at hsem
    · cases hsem
    · next hmany =>
      exact h.stay (by rw [hc]; rfl) (by rw [hc]; rfl) hwritten (by decide) (fun _ => by omega)
  | shmdt hc =>
    have hwritten := h.written c
    rw [hc] at hwritten
    exact h.stay (by rw [hc]; rfl) (by rw [hc]; rfl) hwritten (by decide)
      (fun hpc => absurd hpc (by decide))

theorem Closed.stay (h : Closed s) {pc : Client} (hholds : pc.holds = (s.client c).holds)
    (hdelivered : pc.delivered = (s.client c).delivered) : Closed (s.become c pc) := by
  refine ⟨h.sems, ?_, h.printed, ?_⟩
  · rw [holders_stay hholds]
    exact h.alone
  · rw [delivered_stay hdelivered]
    exact h.delivered

theorem Closed.client (h : Closed s) (hstep : ClientStep s c s') : Closed s' := by
  cases hstep with
  | semget hc =>
    rw [h.sems]
    exact h.stay (by rw [hc]; rfl) (by rw [hc]; rfl)
  | shmget hc =>
    cases s.shm
    · exact h.stay (by rw [hc]; rfl) (by rw [hc]; rfl)
    · exact h.stay (by rw [hc]; rfl) (by rw [hc]; rfl)
  | lock hc hsem | signal hc hsem =>
    rw [h.sems] at hsem
    cases hsem
  | @copy k byte hc hbyte =>
    have hwritten : Closed {s with memory := s.memory.set k byte} := {h with}
    exact hwritten.stay (by rw [hc]; rfl) (by rw [hc]; rfl)
  | lockFailed hc | copied hc | signalFailed hc | shmdt hc =>
    exact h.stay (by rw [hc]; rfl) (by rw [hc]; rfl)

/-! ### Steps of the server -/

omit [DecidableEq C] in
/-- When a change has been delivered, the whole text is in the segment. -/
theorem Running.memory {received : Nat} {busy : Bool} (h : Running s (received + 1) busy) {j : Nat}
    (hj : j < copied.length) : s.memory[j]? = copied[j]? := by
  obtain ⟨b, -, hcount, -⟩ := h.sems
  have hpos : 0 < s.delivered := by omega
  obtain ⟨c, hc⟩ := SysV.exists_of_count_pos hpos
  refine h.written c j ?_
  cases hpc : s.client c with
  | shmdt | ended => exact hj
  | semget | shmget | lock | copy | signal | semgetFailed | shmgetFailed | lockFailed
    | signalFailed =>
    rw [hpc] at hc
    exact absurd hc Bool.false_ne_true

theorem text_ne_zero : ∀ byte ∈ text, byte ≠ 0 := by decide +kernel

omit [DecidableEq C] in
/-- What the server prints ends where the text ends. -/
theorem Running.prints {received : Nat} {busy : Bool} (h : Running s (received + 1) busy)
    {out : List UInt8} {byte : UInt8} (hout : out <+: text)
    (hbyte : (s.memory[out.length]?).getD 0 = byte) :
    byte = 0 ∧ out = text ∨ byte ≠ 0 ∧ out ++ [byte] <+: text := by
  have hlt : out.length < copied.length := by
    rw [copied, List.length_append]
    exact Nat.lt_succ_of_le hout.length_le
  obtain ⟨rest, hrest⟩ := hout
  rw [h.memory hlt, copied, ← hrest, List.append_assoc, List.getElem?_append_right le_rfl,
    Nat.sub_self] at hbyte
  cases rest with
  | nil =>
    rw [List.append_nil] at hrest
    exact .inl ⟨hbyte.symm, hrest⟩
  | cons b rest =>
    obtain rfl : b = byte := hbyte
    refine .inr ⟨text_ne_zero b (hrest ▸ List.mem_append_right out List.mem_cons_self), rest, ?_⟩
    rw [← hrest, List.append_assoc, List.singleton_append]

omit [DecidableEq C] in
/-- At the head of the loop. -/
theorem Running.loop {i : Nat} (h : Running s i false) (hi : i ≤ nummsg)
    (hprinted : s.printed = List.replicate i text) : Phase {s with server := loop i} := by
  unfold SemShm.loop Phase
  by_cases hlt : i < nummsg
  · rw [if_pos hlt]
    exact ⟨hlt, {h with}, hprinted⟩
  · obtain rfl : i = nummsg := by omega
    rw [if_neg hlt]
    exact ⟨{h with}, hprinted⟩

omit [DecidableEq C] in
/-- The segment is new, and no client has come. -/
theorem Fresh.running (h : Fresh s) (hsems : s.sems = some [0, 0]) :
    Running {s with shm := true, memory := List.replicate sizeofshmseg 0} 0 false := by
  have hbefore (c : C) : (s.client c).holds = false ∧ (s.client c).delivered = false ∧
      (s.client c).wrote = 0 := by
    have hc := h.before c
    cases hpc : s.client c <;> rw [hpc] at hc
    case semget | shmget | semgetFailed | shmgetFailed => exact ⟨rfl, rfl, rfl⟩
    all_goals exact absurd hc Bool.false_ne_true
  have hholders : s.holders = 0 := SysV.count_eq_zero fun c => (hbefore c).1
  have hdelivered : s.delivered = 0 := SysV.count_eq_zero fun c => (hbefore c).2.1
  refine ⟨rfl, List.length_replicate, ⟨0, ?_, hdelivered, Nat.zero_le _⟩, hholders.le.trans zero_le_one,
    fun c j hj => ?_, fun c hc => ?_, fun c hc => ?_⟩
  · show s.sems = some [s.holders + 0, 0]
    rw [hsems, hholders]
  · have hj : j < (s.client c).wrote := hj
    rw [(hbefore c).2.2] at hj
    exact absurd hj (Nat.not_lt_zero j)
  · have hpc := h.before c
    rw [show s.client c = _ from hc] at hpc
    exact absurd hpc Bool.false_ne_true
  · have hpc := h.before c
    rw [show s.client c = _ from hc] at hpc
    exact absurd hpc Bool.false_ne_true

omit [DecidableEq C] in
/-- A change is there for the server, and it takes the segment. -/
theorem Running.take {i : Nat} {vals : List Nat} (h : Running s i false)
    (hsem : semop s.sems takeOperations = .done vals) :
    Running {s with sems := some vals} (i + 1) true := by
  obtain ⟨b, hsems, hcount, hb⟩ := h.sems
  rw [hsems, semop_take] at hsem
  split at hsem
  · cases hsem
  · next hpos =>
    split at hsem
    · obtain rfl := SysV.Semop.done.inj hsem
      have hcount' : s.delivered = i + 1 + (b - 1) := by omega
      exact {h with sems := ⟨b - 1, rfl, hcount', (Nat.sub_le b 1).trans hb⟩}
    · cases hsem

omit [DecidableEq C] in
theorem Running.take_ne_error {i : Nat} (h : Running s i false) :
    semop s.sems takeOperations ≠ .error := by
  obtain ⟨b, hsems, -, hb⟩ := h.sems
  have halone := h.alone
  have hmax : semvmx = 32767 := rfl
  have hbusy : false.toNat = 0 := rfl
  rw [hsems, semop_take]
  split
  · decide
  · rw [if_pos ⟨by omega, by omega⟩]
    exact SysV.Semop.noConfusion

omit [DecidableEq C] in
theorem Running.semop_free_eq {i : Nat} (h : Running s i true) :
    ∃ b, semop s.sems freeOperations = .done [s.holders, b] ∧ s.delivered = i + b ∧
      b ≤ semvmx := by
  obtain ⟨b, hsems, hcount, hb⟩ := h.sems
  have halone := h.alone
  have hmax : semvmx = 32767 := rfl
  have hbusy : true.toNat = 1 := rfl
  refine ⟨b, ?_, hcount, hb⟩
  rw [hsems, semop_free, if_neg (by omega), if_pos (by omega), hbusy, Nat.add_sub_cancel]

omit [DecidableEq C] in
/-- The server gives the segment back. -/
theorem Running.free {i : Nat} {vals : List Nat} (h : Running s i true)
    (hsem : semop s.sems freeOperations = .done vals) :
    Running {s with sems := some vals} i false := by
  obtain ⟨b, hdone, hcount, hb⟩ := h.semop_free_eq
  obtain rfl := SysV.Semop.done.inj (hsem.symm.trans hdone)
  exact {h with sems := ⟨b, rfl, hcount, hb⟩}

omit [DecidableEq C] in
theorem Running.free_ne_error {i : Nat} (h : Running s i true) :
    semop s.sems freeOperations ≠ .error := by
  obtain ⟨b, hdone, -⟩ := h.semop_free_eq
  rw [hdone]
  exact SysV.Semop.noConfusion

omit [DecidableEq C] in
/-- **A step of the server leads from phase to phase.** -/
theorem Phase.server (h : Phase s) (hstep : ServerStep s s') : Phase s' := by
  cases hstep with
  | semget first second hs =>
    simp only [Phase, hs] at h
    exact {h with}
  | setall hs =>
    simp only [Phase, hs] at h
    exact ⟨{h with}, rfl⟩
  | shmget hs =>
    simp only [Phase, hs] at h
    exact (h.1.running h.2).loop (Nat.zero_le _) h.1.printed
  | take hs hsem =>
    simp only [Phase, hs] at h
    exact ⟨h.1, {h.2.1.take hsem with}, h.2.2, List.nil_prefix⟩
  | takeFailed hs hsem =>
    simp only [Phase, hs] at h
    exact absurd hsem h.2.1.take_ne_error
  | byte hs hbyte hmore =>
    simp only [Phase, hs] at h
    obtain ⟨hi, hrunning, hprinted, hout⟩ := h
    obtain ⟨hzero, -⟩ | ⟨-, hprefix⟩ := hrunning.prints hout hbyte
    · exact absurd hzero hmore
    · exact ⟨hi, {hrunning with}, hprinted, hprefix⟩
  | @line i out hs hend =>
    simp only [Phase, hs] at h
    obtain ⟨hi, hrunning, hprinted, hout⟩ := h
    obtain ⟨-, htext⟩ | ⟨hzero, -⟩ := hrunning.prints hout hend
    · refine ⟨hi, {hrunning with}, ?_⟩
      show s.printed ++ [out] = _
      rw [hprinted, htext, List.replicate_succ']
    · exact absurd rfl hzero
  | free hs hsem =>
    simp only [Phase, hs] at h
    exact (h.2.1.free hsem).loop h.1 h.2.2
  | freeFailed hs hsem =>
    simp only [Phase, hs] at h
    exact absurd hsem h.2.1.free_ne_error
  | rmid hs =>
    simp only [Phase, hs] at h
    obtain ⟨b, -, hcount, -⟩ := h.1.sems
    exact ⟨rfl, h.1.alone, h.2, (Nat.le_add_right _ b).trans hcount.ge⟩
  | shmdt hs =>
    simp only [Phase, hs] at h
    exact {h with}
  | shmrm hs =>
    simp only [Phase, hs] at h
    exact {h with}

omit [Fintype C] in
/-- Of the server and what it has printed, a step of a client changes nothing. -/
theorem ClientStep.server_eq (h : ClientStep s c s') :
    s'.server = s.server ∧ s'.printed = s.printed := by
  cases h <;> exact ⟨rfl, rfl⟩

/-- **A step of a client keeps the phase.** -/
theorem Phase.client (h : Phase s) (hstep : ClientStep s c s') : Phase s' := by
  obtain ⟨hs', hp'⟩ := hstep.server_eq
  cases hserver : s.server with
  | semget | setall =>
    simp only [Phase, hs', hserver] at h ⊢
    exact h.client hstep
  | shmget =>
    simp only [Phase, hs', hserver] at h ⊢
    refine ⟨h.1.client hstep, ?_⟩
    have hbefore := h.1.before c
    cases hstep with
    | semget | shmget => exact h.2
    | lock hc | lockFailed hc | copy hc | copied hc | signal hc | signalFailed hc | shmdt hc =>
      rw [hc] at hbefore
      exact absurd hbefore Bool.false_ne_true
  | take | print | free =>
    simp only [Phase, hs', hp', hserver] at h ⊢
    exact ⟨h.1, h.2.1.client hstep, h.2.2⟩
  | rmid =>
    simp only [Phase, hs', hp', hserver] at h ⊢
    exact ⟨h.1.client hstep, h.2⟩
  | shmdt | shmrm | ended =>
    simp only [Phase, hs', hserver] at h ⊢
    exact h.client hstep
  | failed =>
    simp only [Phase, hserver] at h

theorem phase_step (s : State C) (a : Action C) (s' : State C) (h : Phase s)
    (hstep : step s a = some s') : Phase s' := by
  cases a with
  | server first second => exact h.server (serverStep_of_step hstep)
  | client c => exact h.client (clientStep_of_step hstep)

omit [DecidableEq C] in
theorem phase_start : Phase (start : State C) := ⟨fun _ => rfl, rfl, rfl⟩

end VleoNotebook.SemShm
