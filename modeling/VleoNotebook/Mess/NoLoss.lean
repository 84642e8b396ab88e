import Mathlib.Logic.Relation
import VleoNotebook.Mess.Flooding

/-! No message is lost by flood routing.

A copy on its way to a server stays on its way until the server has seen the message
or is dead (`Underway`). A server that let a message past its filter and is still up
has sent it to every neighbour the message must go to from there (`Next`): to all of
them, or, where the destination is itself a neighbour, to that one alone. So once no
copy is in flight and all servers are up, what one server has seen all its `Next`
servers have seen, and a path of links carries this to the destination: the servers
the shortcut leaves out lie behind a server that has already reached it. -/
namespace VleoNotebook.Mess

open Proc

section Network
variable {S C : Type} (N : Net S C)

/-- The tables of all servers have the links `L` and nothing else as MESS routes: each
under the ID of the server at the other end of the socket, which no other route has. -/
structure Mesh (L : S → S → Prop) (σ : State S C) : Prop where
  peers : ∀ s, ∀ e ∈ (σ.table s).localRoutes.entries, e.2.type = .mess →
    ∃ t n, L s t ∧ e.1 = (N.cfg t).messMyId ∧ e.2.sock = .sock n ∧ N.wire s n = .inl t
  linked : ∀ s t, L s t → (N.cfg t).messMyId ∈ (σ.table s).localRoutes
  others : ∀ s, ∀ e ∈ (σ.table s).localRoutes.entries, e.2.type ≠ .mess →
    ∀ t, e.1 ≠ (N.cfg t).messMyId

/-- The IDs of the servers are different from each other and from `DST_BCAST`. -/
structure Identified : Prop where
  injective : Function.Injective fun s => (N.cfg s).messMyId
  notBcast : ∀ s, (N.cfg s).messMyId ≠ dstBcast

/-- The servers a message must go to from `s`. -/
def Next (L : S → S → Prop) (m : Message) (s t : S) : Prop :=
  L s t ∧ (m.dst = dstBcast ∨ ∃ d, m.dst = (N.cfg d).messMyId ∧ s ≠ d ∧ (L s d → t = d))

variable {N} {L : S → S → Prop} {σ : State S C}

/-- The route of a link. -/
theorem Mesh.route (h : Mesh N L σ) (hid : Identified N) {s t : S} (hl : L s t) :
    ∃ n, (⟨(N.cfg t).messMyId, ⟨.sock n, .mess⟩⟩ : Sigma fun _ => Route) ∈
      (σ.table s).localRoutes.entries ∧ N.wire s n = .inl t := by
  obtain ⟨⟨sock, type⟩, hroute⟩ :=
    Option.isSome_iff_exists.mp (AList.lookup_isSome.mpr (h.linked s t hl))
  have hmem := AList.mem_lookup_iff.mp hroute
  have htype : type = .mess := by
    by_contra hne
    exact h.others s _ hmem hne t rfl
  subst htype
  obtain ⟨t', n, -, hkey, hsock, hwire⟩ := h.peers s _ hmem rfl
  obtain rfl : t = t' := hid.injective hkey
  simp only at hsock
  subst hsock
  exact ⟨n, hmem, hwire⟩

/-- There is no route under the ID of a server that is not linked. -/
theorem Mesh.no_route (h : Mesh N L σ) (hid : Identified N) {s t : S} (hl : ¬ L s t) :
    (σ.table s).localRoutes.lookup (N.cfg t).messMyId = none := by
  rw [AList.lookup_eq_none]
  intro hmem
  obtain ⟨⟨sock, type⟩, hroute⟩ := Option.isSome_iff_exists.mp (AList.lookup_isSome.mpr hmem)
  have hentry := AList.mem_lookup_iff.mp hroute
  by_cases htype : type = .mess
  · obtain ⟨t', n, hl', hkey, -⟩ := h.peers s _ hentry htype
    obtain rfl : t = t' := hid.injective hkey
    exact hl hl'
  · exact h.others s _ hentry htype t rfl

/-- Sending a message on from `s` sends it to all of its `Next`. -/
theorem Mesh.sends_next (h : Mesh N L σ) (hid : Identified N) {m : Message} {s t : S}
    (hok : (routeNonlocal (N.cfg s).messMyId m (σ.table s)).error = none)
    (hnext : Next N L m s t) :
    ∃ id n, .toPeer id (.sock n) m ∈
      (routeNonlocal (N.cfg s).messMyId m (σ.table s)).effects ∧ N.wire s n = .inl t := by
  obtain ⟨hl, hdst⟩ := hnext
  obtain ⟨n, hmem, hwire⟩ := h.route hid hl
  have hclient : clientRoute (N.cfg s).messMyId m.dst m.dstsub (σ.table s) = none := by
    refine if_neg fun hlocal => ?_
    rcases hdst with hb | ⟨d, hd, hsd, -⟩
    · exact hid.notBcast s (hlocal.1.symm.trans hb)
    · exact hsd (hid.injective (hlocal.1.symm.trans hd))
  have hflood : peerRoute m.dst (σ.table s) = none → .toPeer (N.cfg t).messMyId (.sock n) m ∈
      (routeNonlocal (N.cfg s).messMyId m (σ.table s)).effects := fun hp =>
    routeNonlocal_flood hclient hp hok hmem rfl
  rcases hdst with hb | ⟨d, hd, hsd, hshort⟩
  · exact ⟨_, n, hflood (if_neg (not_not.mpr hb)), hwire⟩
  · have hpeer : peerRoute m.dst (σ.table s) =
        (σ.table s).localRoutes.lookup (N.cfg d).messMyId := by
      rw [peerRoute, if_pos (hd ▸ hid.notBcast d), hd]
    by_cases hld : L s d
    · obtain rfl := hshort hld
      refine ⟨m.dst, n, ?_, hwire⟩
      rw [routeNonlocal_toPeer hclient (hpeer.trans (AList.mem_lookup_iff.mpr hmem))]
      exact List.mem_singleton_self _
    · exact ⟨_, n, hflood (hpeer.trans (h.no_route hid hld)), hwire⟩

variable [DecidableEq S] [DecidableEq C] {σ' : State S C} {a : Action S C}

/-! ### Copies on their way -/

/-- The message is on its way to the server, or seen there, or the server is dead. -/
def Underway (σ : State S C) (m : Message) (t : S) : Prop :=
  (∃ q : Port S C, q.node = .server t ∧ (q, m) ∈ σ.flight) ∨ m.uuid ∈ (σ.table t).seenUUID ∨
    σ.alive (.server t) = false

theorem Underway.perform {s : S} {q : Routing} {m : Message} {t : S} (h : Underway σ m t)
    (halive : σ.alive (.server s) = true)
    (hseen : (σ.table s).seenUUID ⊆ (q (σ.table s)).state.seenUUID) :
    Underway (N.perform s q σ) m t := by
  rcases h with ⟨p, hp, hmem⟩ | hmem | hdead
  · exact .inl ⟨p, hp, List.mem_append_left _ hmem⟩
  · refine .inr (.inl ?_)
    by_cases ht : t = s
    · subst ht
      rw [Net.perform_table_self]
      exact hseen hmem
    · rwa [Net.perform_table_ne s q σ ht]
  · refine .inr (.inr ?_)
    have ht : t ≠ s := by
      rintro rfl
      rw [halive] at hdead
      cases hdead
    rwa [Net.perform_alive_ne s q σ ht]

/-- Taking a copy out of flight leaves all others on their way. -/
theorem Underway.take {p : Port S C} {m x : Message} {w : World} {t : S} (h : Underway σ m t)
    (hother : p.node ≠ .server t ∨ x ≠ m) : Underway (Net.take σ p x w) m t := by
  refine h.imp_left fun ⟨q, hq, hmem⟩ => ⟨q, hq, (List.mem_erase_of_ne ?_).mpr hmem⟩
  rintro ⟨rfl, rfl⟩
  rcases hother with hother | hother
  · exact hother hq
  · exact hother rfl

/-- **A message on its way arrives or stays on its way.** -/
theorem underway_step {m : Message} {t : S} (h : Underway σ m t) (hstep : N.step σ a = some σ') :
    Underway σ' m t := by
  cases N.stepped hstep with
  | inject p m' =>
    exact h.imp_left fun ⟨q, hq, hmem⟩ => ⟨q, hq, List.mem_cons_of_mem _ hmem⟩
  | duplicate p m' =>
    exact h.imp_left fun ⟨q, hq, hmem⟩ => ⟨q, hq, List.mem_cons_of_mem _ hmem⟩
  | register s id sock type halive =>
    exact h.perform halive (lRoute_seenUUID _ _ _ _ ▸ List.Subset.refl _)
  | ask p m' w back q hflight halive hfresh hq =>
    have hother := hq.node t
    rcases h.take (w := w) (x := m') (.inl hother) with ⟨p', hp', hmem⟩ | hmem | hdead
    · exact .inl ⟨p', hp', List.mem_append_left _ hmem⟩
    · exact .inr (.inl hmem)
    · refine .inr (.inr ?_)
      rw [← hdead]
      exact Function.update_of_ne (Ne.symm hother) _ _
  | serve p m' w s q hflight halive hfresh hq =>
    by_cases hsame : s = t ∧ m' = m
    · obtain ⟨rfl, rfl⟩ := hsame
      by_cases hok : (q (σ.table s)).error = none
      · refine .inr (.inl ?_)
        rw [Net.perform_table_self]
        exact hq.sees hok
      · refine .inr (.inr ?_)
        rw [Net.perform_alive_self]
        exact Option.isNone_eq_false_iff.mpr (Option.isSome_iff_ne_none.mpr hok)
    · refine (h.take (w := w) (x := m') ?_).perform halive (hq.tidy _).seen
      rw [hq.node]
      simp only [ne_eq, Node.server.injEq]
      tauto

/-- What a server that is still up let past its filter, it let past before this step or
has in this step sent on completely. -/
theorem passed_step {m : Message} {s : S} (hstep : N.step σ a = some σ')
    (halive : σ'.alive (.server s) = true) (hpassed : .passed m ∈ σ'.log s) :
    (σ.alive (.server s) = true ∧ .passed m ∈ σ.log s ∧ σ.log s ⊆ σ'.log s) ∨
      ((routeNonlocal (N.cfg s).messMyId m (σ'.table s)).error = none ∧
        ∀ e ∈ (routeNonlocal (N.cfg s).messMyId m (σ'.table s)).effects, e ∈ σ'.log s ∧
          ∀ c, N.copy s e = some c → c ∈ σ'.flight) := by
  cases N.stepped hstep with
  | inject p m' => exact .inl ⟨halive, hpassed, List.Subset.refl _⟩
  | duplicate p m' => exact .inl ⟨halive, hpassed, List.Subset.refl _⟩
  | ask p m' w back q hflight hup hfresh hq =>
    refine .inl ⟨?_, hpassed, List.Subset.refl _⟩
    rw [← halive]
    exact (Function.update_of_ne (Ne.symm (hq.node s)) _ _).symm
  | register t id sock type hup =>
    have hnone := lRoute_effects id (.sock sock) type.text (σ.table t)
    rw [Net.perform_quiet_log hnone] at hpassed ⊢
    refine .inl ⟨?_, hpassed, List.Subset.refl _⟩
    by_cases hst : s = t
    · rwa [hst]
    · rwa [Net.perform_alive_ne _ _ _ hst] at halive
  | serve p m' w t q hflight hup hfresh hq =>
    by_cases hst : s = t
    · subst hst
      rw [Net.perform_alive_self, Option.isNone_iff_eq_none] at halive
      rw [Net.perform_log_self] at hpassed ⊢
      rcases List.mem_append.mp hpassed with hold | hnew
      · exact .inl ⟨hup, hold, List.subset_append_left _ _⟩
      · obtain ⟨hok, hsub⟩ := hq.complete halive m hnew
        rw [Net.perform_table_self]
        refine .inr ⟨hok, fun e he => ⟨List.mem_append_right _ (hsub he), fun c hc => ?_⟩⟩
        rw [Net.perform_flight]
        exact List.mem_append_right _ (List.mem_filterMap.mpr ⟨e, hsub he, hc⟩)
    · rw [Net.perform_alive_ne _ _ _ hst] at halive
      rw [Net.perform_log_ne _ _ _ hst] at hpassed ⊢
      exact .inl ⟨halive, hpassed, List.Subset.refl _⟩

/-! ### Whose UUID it is -/

/-- What is in flight or seen has been created or injected. -/
structure Known (σ : State S C) : Prop where
  seen : ∀ s, ∀ u ∈ (σ.table s).seenUUID, u ∈ σ.used
  flight : ∀ c ∈ σ.flight, c.2.uuid ∈ σ.used

omit [DecidableEq S] [DecidableEq C] in
theorem known_start (routes : S → Routes) : Known (State.start routes : State S C) := by
  constructor <;> simp [State.start]

theorem known_step (σ : State S C) (a : Action S C) (σ' : State S C) (h : Known σ)
    (hstep : N.step σ a = some σ') : Known σ' := by
  cases N.stepped hstep with
  | inject p m =>
    refine ⟨fun s u hu => List.mem_cons_of_mem _ (h.seen s u hu), fun c hc => ?_⟩
    rcases List.mem_cons.mp hc with rfl | hc
    · exact List.mem_cons_self ..
    · exact List.mem_cons_of_mem _ (h.flight c hc)
  | duplicate p m hflight =>
    refine ⟨h.seen, fun c hc => ?_⟩
    rcases List.mem_cons.mp hc with rfl | hc
    · exact h.flight _ hflight
    · exact h.flight c hc
  | register t id sock type =>
    have hnone := lRoute_effects id (.sock sock) type.text (σ.table t)
    refine ⟨fun s u hu => h.seen s u ?_, by rw [Net.perform_quiet_flight hnone]; exact h.flight⟩
    by_cases hst : s = t
    · subst hst
      rwa [Net.perform_table_self, lRoute_seenUUID] at hu
    · rwa [Net.perform_table_ne _ _ _ hst] at hu
  | ask p m w back q hflight hup hfresh hq =>
    have hold : ∀ u ∈ σ.used, u ∈ w.uuid :: w.uuid' :: σ.used := fun u hu =>
      List.mem_cons_of_mem _ (List.mem_cons_of_mem _ hu)
    refine ⟨fun s u hu => hold u (h.seen s u hu), fun c hc => ?_⟩
    obtain ⟨uuids, hsub, hanswers⟩ := hq.answers
    obtain hc | ⟨r, hr, rfl⟩ := Net.mem_answer_flight hc
    · exact hold _ (h.flight c (Net.mem_take_flight hc))
    · have := hsub ((hanswers ()).1 r hr).2
      simp only [List.mem_cons, List.not_mem_nil, or_false] at this
      rcases this with hu | hu
      · exact hu ▸ List.mem_cons_self ..
      · exact hu ▸ List.mem_cons_of_mem _ (List.mem_cons_self ..)
  | serve p m w t q hflight hup hfresh hq =>
    have hold : ∀ u ∈ σ.used, u ∈ w.uuid :: w.uuid' :: σ.used := fun u hu =>
      List.mem_cons_of_mem _ (List.mem_cons_of_mem _ hu)
    have habout : ∀ e ∈ (q (σ.table t)).effects, ∀ x, e.message = some x →
        x.uuid ∈ w.uuid :: w.uuid' :: σ.used := fun e he x hx =>
      hq.about (P := fun x => x.uuid ∈ _) (hold _ (h.flight _ hflight))
        (fun r _ hr => hr ▸ List.mem_cons_self ..) he hx
    refine ⟨fun s u hu => ?_, fun c hc => ?_⟩
    · by_cases hst : s = t
      · subst hst
        rw [Net.perform_table_self] at hu
        by_cases hsold : u ∈ (σ.table s).seenUUID
        · exact hold u (h.seen s u hsold)
        · obtain ⟨m', rfl, hm'⟩ := (hq.tidy _).passed u hu hsold
          exact habout _ hm' m' rfl
      · rw [Net.perform_table_ne _ _ _ hst] at hu
        exact hold u (h.seen s u hu)
    · obtain hc | ⟨e, he, hcopy⟩ := Net.mem_perform_flight hc
      · exact hold _ (h.flight c (Net.mem_take_flight hc))
      · exact habout e he c.2 hcopy

/-- The only message under its UUID, anywhere. -/
structure Genuine (m : Message) (σ : State S C) : Prop where
  used : m.uuid ∈ σ.used
  flight : ∀ c ∈ σ.flight, c.2.uuid = m.uuid → c.2 = m
  log : ∀ s m', .passed m' ∈ σ.log s → m'.uuid = m.uuid → m' = m

theorem genuine_step {m : Message} (h : Genuine m σ) (hstep : N.step σ a = some σ') :
    Genuine m σ' := by
  cases N.stepped hstep with
  | inject p m' hp hm' =>
    refine ⟨List.mem_cons_of_mem _ h.used, fun c hc hu => ?_, h.log⟩
    rcases List.mem_cons.mp hc with rfl | hc
    · exact absurd (hu ▸ h.used) hm'
    · exact h.flight c hc hu
  | duplicate p m' hflight =>
    refine ⟨h.used, fun c hc hu => ?_, h.log⟩
    rcases List.mem_cons.mp hc with rfl | hc
    · exact h.flight _ hflight hu
    · exact h.flight c hc hu
  | register t id sock type =>
    have hnone := lRoute_effects id (.sock sock) type.text (σ.table t)
    refine ⟨h.used, ?_, ?_⟩
    · rw [Net.perform_quiet_flight hnone]
      exact h.flight
    · rw [Net.perform_quiet_log hnone]
      exact h.log
  | ask p m' w back q hflight hup hfresh hq =>
    refine ⟨List.mem_cons_of_mem _ (List.mem_cons_of_mem _ h.used), fun c hc hu => ?_, h.log⟩
    obtain hc | ⟨r, hr, rfl⟩ := Net.mem_answer_flight hc
    · exact h.flight c (Net.mem_take_flight hc) hu
    · obtain ⟨uuids, hsub, hanswers⟩ := hq.answers
      have hdrawn := hsub ((hanswers ()).1 r hr).2
      simp only at hu
      simp only [hu, List.mem_cons, List.not_mem_nil, or_false] at hdrawn
      rcases hdrawn with hdrawn | hdrawn
      · exact absurd (hdrawn ▸ h.used) hfresh.1
      · exact absurd (hdrawn ▸ h.used) hfresh.2.1
  | serve p m' w t q hflight hup hfresh hq =>
    have habout : ∀ e ∈ (q (σ.table t)).effects, ∀ x, e.message = some x →
        x.uuid = m.uuid → x = m := fun e he x hx =>
      hq.about (P := fun x => x.uuid = m.uuid → x = m) (h.flight _ hflight)
        (fun r _ hr hu => absurd (hr.symm.trans hu ▸ h.used) hfresh.1) he hx
    refine ⟨List.mem_cons_of_mem _ (List.mem_cons_of_mem _ h.used), fun c hc => ?_,
      fun s x hx => ?_⟩
    · obtain hc | ⟨e, he, hcopy⟩ := Net.mem_perform_flight hc
      · exact h.flight c (Net.mem_take_flight hc)
      · exact habout e he c.2 hcopy
    · obtain hx | hx := Net.mem_perform_log hx
      · exact h.log s x hx
      · exact habout _ hx x rfl

/-! ### The flood -/

/-- The message entered at `s₀` and is on its way to all servers it must go to. -/
structure Tracked (N : Net S C) (L : S → S → Prop) (m : Message) (s₀ : S) (σ : State S C) :
    Prop where
  genuine : Genuine m σ
  entered : Underway σ m s₀
  covered : ∀ s, σ.alive (.server s) = true → .passed m ∈ σ.log s →
    ∀ t, Next N L m s t → Underway σ m t

theorem tracked_step (hid : Identified N) {m : Message} {s₀ : S} (σ : State S C)
    (a : Action S C) (σ' : State S C) (hmesh : Mesh N L σ') (h : Tracked N L m s₀ σ)
    (hstep : N.step σ a = some σ') : Tracked N L m s₀ σ' where
  genuine := genuine_step h.genuine hstep
  entered := underway_step h.entered hstep
  covered := by
    intro s halive hpassed t hnext
    rcases passed_step hstep halive hpassed with ⟨hup, hold, -⟩ | ⟨hok, hsent⟩
    · exact underway_step (h.covered s hup hold t hnext) hstep
    · obtain ⟨id, n, hmem, hwire⟩ := hmesh.sends_next hid hok hnext
      refine .inl ⟨.sock t, rfl, (hsent _ hmem).2 _ ?_⟩
      simp [Net.copy, Net.port, hwire]

/-- Where the client's route stands, the server has sent it the message it let past. -/
theorem toClient_step {m : Message} {d : S} {n : Nat} (hdst : m.dst = (N.cfg d).messMyId)
    (hsub : m.dstsub ≠ subaddrSelf) (σ : State S C) (a : Action S C) (σ' : State S C)
    (hroute : (σ'.table d).localRoutes.lookup m.dstsub = some ⟨.sock n, .tcc⟩)
    (h : σ.alive (.server d) = true → .passed m ∈ σ.log d →
      .toClient m.dstsub (.sock n) m ∈ σ.log d) (hstep : N.step σ a = some σ')
    (halive : σ'.alive (.server d) = true) (hpassed : .passed m ∈ σ'.log d) :
    .toClient m.dstsub (.sock n) m ∈ σ'.log d := by
  rcases passed_step hstep halive hpassed with ⟨hup, hold, hlog⟩ | ⟨-, hsent⟩
  · exact hlog (h hup hold)
  · refine (hsent _ ?_).1
    rw [routeNonlocal_toClient ((if_pos ⟨hdst, hsub⟩).trans hroute)]
    exact List.mem_singleton_self _

/-- At an injection the message is nowhere yet. -/
theorem tracked_inject {routes : S → Routes} {before : List (Action S C)} {p : Port S C}
    {m : Message} {s₀ : S} (hp : p.node = .server s₀)
    (hbefore : Runs.run N.step (State.start routes) before = some σ)
    (hstep : N.step σ (.inject p m) = some σ') :
    Tracked N L m s₀ σ' ∧ ∀ s, .passed m ∉ σ'.log s := by
  have hknown : Known σ := Runs.run_invariant known_step (known_start routes) hbefore
  have hsound := allSound_run N hbefore
  cases N.stepped hstep with
  | inject p m hport hnew =>
    have hpassed : ∀ s m', .passed m' ∈ σ.log s → m'.uuid ≠ m.uuid := fun s m' hm' hu =>
      hnew (hu ▸ hknown.seen s _ ((hsound s).marked _ hm' m'.uuid rfl))
    refine ⟨⟨⟨List.mem_cons_self .., fun c hc hu => ?_, fun s m' hm' hu => ?_⟩,
      .inl ⟨p, hp, List.mem_cons_self ..⟩, fun s _ hm => ?_⟩, fun s hm => ?_⟩
    · rcases List.mem_cons.mp hc with rfl | hc
      · rfl
      · exact absurd (hu ▸ hknown.flight c hc) hnew
    · exact absurd hu (hpassed s m' hm')
    · exact absurd rfl (hpassed s m hm)
    · exact absurd rfl (hpassed s m hm)

section Quiet
variable {m : Message} {s₀ : S} (h : Tracked N L m s₀ σ) (hsound : AllSound σ)
  (halive : ∀ s, σ.alive (.server s) = true) (hquiet : ∀ q, (q, m) ∉ σ.flight)
include halive hquiet

omit [DecidableEq S] [DecidableEq C] in
/-- With nothing in flight and all servers up, on its way means seen. -/
theorem Underway.seen {t : S} (ht : Underway σ m t) : m.uuid ∈ (σ.table t).seenUUID := by
  rcases ht with ⟨q, -, hmem⟩ | hseen | hdead
  · exact absurd hmem (hquiet q)
  · exact hseen
  · rw [halive t] at hdead
    cases hdead

omit [DecidableEq S] [DecidableEq C] in
include h hsound in
theorem Tracked.next_seen {s t : S} (hs : m.uuid ∈ (σ.table s).seenUUID)
    (hnext : Next N L m s t) : m.uuid ∈ (σ.table t).seenUUID := by
  obtain ⟨m', hm', hmem⟩ := (hsound s).passed _ hs
  obtain rfl := h.genuine.log s m' hmem hm'
  exact (h.covered s (halive s) hmem t hnext).seen halive hquiet

omit [DecidableEq S] [DecidableEq C] in
include h hsound in
/-- Along a path of links to the destination: wherever the flood is cut short, the
destination is the one it was cut short for. -/
theorem Tracked.reaches {d s : S} (hdst : m.dst = (N.cfg d).messMyId)
    (hpath : Relation.ReflTransGen L s d) (hs : m.uuid ∈ (σ.table s).seenUUID) :
    m.uuid ∈ (σ.table d).seenUUID := by
  induction hpath using Relation.ReflTransGen.head_induction_on with
  | refl => exact hs
  | @head s t hst _ ih =>
    by_cases hsd : s = d
    · exact hsd ▸ hs
    · by_cases hshort : L s d
      · exact h.next_seen hsound halive hquiet hs ⟨hshort, .inr ⟨d, hdst, hsd, fun _ => rfl⟩⟩
      · exact ih (h.next_seen hsound halive hquiet hs
          ⟨hst, .inr ⟨d, hdst, hsd, fun hl => absurd hl hshort⟩⟩)

omit [DecidableEq S] [DecidableEq C] in
include h hsound in
/-- A broadcast follows every path. -/
theorem Tracked.reaches_all {s t : S} (hdst : m.dst = dstBcast)
    (hpath : Relation.ReflTransGen L s t) (hs : m.uuid ∈ (σ.table s).seenUUID) :
    m.uuid ∈ (σ.table t).seenUUID := by
  induction hpath with
  | refl => exact hs
  | tail _ hl ih => exact h.next_seen hsound halive hquiet ih ⟨hl, .inl hdst⟩

end Quiet

/-! ### Nothing is lost -/

omit [DecidableEq S] [DecidableEq C] in
/-- A server that has seen the message let it past its filter exactly once. -/
theorem count_passed {m : Message} {s : S} (hsound : AllSound σ)
    (hs : m.uuid ∈ (σ.table s).seenUUID) : count .passed m.uuid (σ.log s) = 1 := by
  obtain ⟨m', hm', hmem⟩ := (hsound s).passed _ hs
  have hpos : 0 < count .passed m.uuid (σ.log s) := count_pos hmem (congrArg some hm') rfl
  have honce := (hsound s).once .passed m.uuid
  omega

omit [DecidableEq S] [DecidableEq C] in
theorem count_toClient {m : Message} {s : S} {n : Nat} (hsound : AllSound σ)
    (hmem : .toClient m.dstsub (.sock n) m ∈ σ.log s) :
    (σ.log s).count (.toClient m.dstsub (.sock n) m) = 1 := by
  have hpos := List.count_pos_iff.mpr hmem
  have hle : (σ.log s).count (.toClient m.dstsub (.sock n) m) ≤
      count (.sent m.dstsub) m.uuid (σ.log s) := by
    refine List.countP_mono_left fun e _ he => ?_
    obtain rfl : e = _ := eq_of_beq he
    simp [Effect.about, Effect.is, Effect.sentTo]
  have honce := (hsound s).once (.sent m.dstsub) m.uuid
  omega

/-- **Flood routing loses no message.** In a network that stays a mesh of links that
connect all servers, take any state reached after a message was injected in which no
copy of it is in flight and no server has died. If it is addressed to a server, that
server has processed it exactly once, and a client its `DSTSUB` names there has been
sent it exactly once; if it is a broadcast, every server has processed it exactly
once. -/
theorem flood_loses_nothing (hid : Identified N) (hconn : ∀ s t, Relation.ReflTransGen L s t)
    {routes : S → Routes} {before after : List (Action S C)} {σ₀ σ : State S C} {p : Port S C}
    {m : Message} (hbefore : Runs.run N.step (State.start routes) before = some σ₀)
    (hrun : Runs.run N.step σ₀ (.inject p m :: after) = some σ)
    (hmesh : Runs.Always N.step (Mesh N L) σ₀ (.inject p m :: after))
    (halive : ∀ s, σ.alive (.server s) = true) (hquiet : ∀ q, (q, m) ∉ σ.flight) :
    (∀ d, m.dst = (N.cfg d).messMyId → count .passed m.uuid (σ.log d) = 1 ∧
      ∀ n, m.dstsub ≠ subaddrSelf →
        Runs.Always N.step (fun σ => (σ.table d).localRoutes.lookup m.dstsub =
          some ⟨.sock n, .tcc⟩) σ₀ (.inject p m :: after) →
        (σ.log d).count (.toClient m.dstsub (.sock n) m) = 1) ∧
    (m.dst = dstBcast → ∀ s, count .passed m.uuid (σ.log s) = 1) := by
  have hwhole : Runs.run N.step (State.start routes) (before ++ .inject p m :: after) =
      some σ := by
    rw [Runs.run_append, hbefore]
    exact hrun
  have hsound := allSound_run N hwhole
  obtain ⟨σ₁, hinject, hafter⟩ := Runs.run_cons hrun
  obtain ⟨s₀, hp⟩ : ∃ s₀, p.node = .server s₀ := by
    cases N.stepped hinject with
    | inject p m hport hnew =>
      cases p with
      | sock s => exact ⟨s, rfl⟩
      | mq s => exact ⟨s, rfl⟩
      | tcClient c => cases hport
      | tcServer s => cases hport
  obtain ⟨htracked, hnone⟩ := tracked_inject (L := L) hp hbefore hinject
  have hend : Tracked N L m s₀ σ :=
    Runs.always_invariant (tracked_step hid) htracked (hmesh.2 σ₁ hinject) hafter
  have hstart := hend.entered.seen halive hquiet
  constructor
  · intro d hdst
    have hseen := hend.reaches hsound halive hquiet hdst (hconn s₀ d) hstart
    refine ⟨count_passed hsound hseen, fun n hsub hroute => count_toClient hsound ?_⟩
    have hclient := Runs.always_invariant (toClient_step hdst hsub)
      (fun _ hm => absurd hm (hnone d)) (hroute.2 σ₁ hinject) hafter
    obtain ⟨m', hm', hmem⟩ := (hsound d).passed _ hseen
    obtain rfl := hend.genuine.log d m' hmem hm'
    exact hclient (halive d) hmem
  · intro hdst s
    exact count_passed hsound (hend.reaches_all hsound halive hquiet hdst (hconn s₀ s) hstart)

end Network

/-! ### The small network -/

namespace Sample

/-- The tables of the small network as they were at the start. -/
def Unchanged (σ : State Bool Unit) : Prop :=
  ∀ s, (σ.table s).localRoutes.entries = (routes s).entries

instance (σ : State Bool Unit) : Decidable (Unchanged σ) :=
  inferInstanceAs (Decidable (∀ s, (σ.table s).localRoutes.entries = (routes s).entries))

theorem identified : Identified net := ⟨by decide, by decide⟩

theorem mesh (σ : State Bool Unit) (h : Unchanged σ) : Mesh net (· ≠ ·) σ := by
  have htable : ∀ s, (σ.table s).localRoutes = routes s := fun s => AList.ext (h s)
  have hpeers : ∀ s, ∀ e ∈ (routes s).entries, e.2.type = .mess → (s ≠ !s) ∧
      e.1 = (net.cfg !s).messMyId ∧ e.2.sock = .sock 1 ∧ net.wire s 1 = .inl !s := by decide
  have hlinked : ∀ s t, s ≠ t → (net.cfg t).messMyId ∈ (routes s).keys := by decide
  have hothers : ∀ s, ∀ e ∈ (routes s).entries, e.2.type ≠ .mess →
      ∀ t, e.1 ≠ (net.cfg t).messMyId := by decide
  constructor <;> intro s <;> rw [htable]
  · exact fun e he htype => ⟨!s, 1, hpeers s e he htype⟩
  · exact hlinked s
  · exact hothers s

theorem connected (s t : Bool) : Relation.ReflTransGen (· ≠ · : Bool → Bool → Prop) s t := by
  by_cases h : s = t
  · rw [h]
  · exact .single h

end Sample

theorem flood_loses_nothing_pinging : ∃ σ,
    Runs.run Sample.net.step (State.start Sample.routes) Sample.pinging = some σ ∧
      count .passed Sample.call.uuid (σ.log false) = 1 ∧
      (σ.log false).count (.toClient "L1" (.sock 2) Sample.call) = 1 := by
  have hsome : ((Runs.run Sample.net.step (State.start Sample.routes) Sample.pinging).any
      fun σ => (∀ s, σ.alive (.server s)) ∧ ∀ c ∈ σ.flight, c.2 ≠ Sample.call) = true := by decide
  obtain ⟨σ, hrun, hquiet⟩ := (Option.any_eq_true _ _).mp hsome
  simp only [Bool.decide_and, Bool.and_eq_true, decide_eq_true_eq] at hquiet
  have hsame : Runs.Always Sample.net.step Sample.Unchanged (State.start Sample.routes)
      Sample.pinging := by decide
  have hstart : Runs.run Sample.net.step (State.start Sample.routes) [] =
      some (State.start Sample.routes) := rfl
  obtain ⟨hdst, -⟩ := flood_loses_nothing Sample.identified Sample.connected hstart hrun
    (hsame.mono Sample.mesh) hquiet.1 (fun q hq => hquiet.2 _ hq rfl)
  obtain ⟨honce, hclient⟩ := hdst false rfl
  refine ⟨σ, hrun, honce, hclient 2 (by decide) (hsame.mono fun σ h => ?_)⟩
  rw [AList.ext (h false)]
  rfl

end VleoNotebook.Mess
