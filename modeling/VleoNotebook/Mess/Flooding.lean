import Mathlib.Algebra.BigOperators.Group.Finset.Basic
import Mathlib.Algebra.Order.BigOperators.Group.Finset
import VleoNotebook.Mess.Network

/-! Flooding delivers at most once and is finite.

What a server did so far fits its tables (`Sound`): everything it did under a UUID
is under one it has seen, every copy it sent went to an ID in its table, and of
each kind there is at most one effect under a UUID. A tidy processing keeps this,
so every run does; the number of copies follows by counting IDs. -/
namespace VleoNotebook.Mess

/-- What a server did so far fits its tables. -/
structure Sound (r : RoutingTables) (log : List Effect) : Prop where
  marked : ∀ e ∈ log, ∀ u, e.about = some u → u ∈ r.seenUUID
  passed : ∀ u ∈ r.seenUUID, ∃ m, m.uuid = u ∧ Effect.passed m ∈ log
  sent : ∀ e ∈ log, ∀ id via, e.sentTo = some (id, via) → id ∈ r.localRoutes
  once : ∀ k u, count k u log ≤ 1

theorem sound_nil (routes : Routes) : Sound ⟨[], routes⟩ [] := by
  constructor <;> simp

theorem Sound.tidy {r : RoutingTables} {log : List Effect} {a : Ran RoutingTables Effect}
    (h : Sound r log) (ha : Tidy r a) : Sound a.state (log ++ a.effects) where
  marked := by
    intro e he u hu
    rcases List.mem_append.mp he with he | he
    · exact ha.seen (h.marked e he u hu)
    · exact ha.marked e he u hu
  passed := by
    intro u hu
    by_cases hold : u ∈ r.seenUUID
    · obtain ⟨m, hm, hmem⟩ := h.passed u hold
      exact ⟨m, hm, List.mem_append_left _ hmem⟩
    · obtain ⟨m, hm, hmem⟩ := ha.passed u hu hold
      exact ⟨m, hm, List.mem_append_right _ hmem⟩
  sent := by
    intro e he id via hsent
    rcases List.mem_append.mp he with he | he
    · exact List.map_subset Sigma.fst ha.entries (h.sent e he id via hsent)
    · obtain ⟨type, hmem⟩ := ha.sent e he id via hsent
      exact List.mem_keys_of_mem hmem
  once := by
    intro k u
    rw [count_append]
    by_cases hu : u ∈ r.seenUUID
    · rw [count_eq_zero_of_about k (ha.quiet u hu), Nat.add_zero]
      exact h.once k u
    · rw [count_eq_zero_of_about k fun e he habout => hu (h.marked e he u habout), Nat.zero_add]
      exact ha.once k u

/-- The copies sent under a UUID. -/
def copies (uuid : String) (es : List Effect) : Nat :=
  es.countP fun e => e.about == some uuid && e.sentTo.isSome

/-- The IDs the copies under a UUID went to. -/
def targets (uuid : String) (es : List Effect) : List String :=
  es.filterMap fun e => if e.about = some uuid then e.sentTo.map Prod.fst else none

theorem length_targets (uuid : String) (es : List Effect) :
    (targets uuid es).length = copies uuid es := by
  unfold targets copies
  rw [List.length_filterMap_eq_countP]
  congr 1
  funext e
  by_cases h : e.about = some uuid <;> simp [h]

theorem count_targets (uuid id : String) (es : List Effect) :
    (targets uuid es).count id = count (.sent id) uuid es := by
  unfold targets count
  rw [List.count_filterMap]
  congr 1
  funext e
  by_cases h : e.about = some uuid <;> simp [h, Effect.is]

/-- There are at most as many copies under a UUID as IDs in the table. -/
theorem Sound.copies_le {r : RoutingTables} {log : List Effect} (h : Sound r log) (u : String) :
    copies u log ≤ r.localRoutes.entries.length := by
  have hnodup : (targets u log).Nodup := by
    refine List.nodup_iff_count_le_one.mpr fun id => ?_
    rw [count_targets]
    exact h.once (.sent id) u
  have hsub : targets u log ⊆ r.localRoutes.keys := by
    intro id hid
    obtain ⟨e, he, hto⟩ := List.mem_filterMap.mp hid
    split_ifs at hto with habout
    obtain ⟨⟨id', via⟩, hsent, rfl⟩ := Option.map_eq_some_iff.mp hto
    exact h.sent e he id' via hsent
  calc copies u log = (targets u log).length := (length_targets u log).symm
    _ ≤ r.localRoutes.keys.length := (hnodup.subperm hsub).length_le
    _ = r.localRoutes.entries.length := List.length_map _

section Network
variable {S C : Type} [DecidableEq S] [DecidableEq C] (N : Net S C)

/-- What every server did fits its tables. -/
def AllSound (σ : State S C) : Prop := ∀ s, Sound (σ.table s) (σ.log s)

theorem allSound_perform {σ : State S C} {s : S} {p : Routing} (h : AllSound σ)
    (hp : Sound (p (σ.table s)).state (σ.log s ++ (p (σ.table s)).effects)) :
    AllSound (N.perform s p σ) := by
  intro t
  by_cases ht : t = s
  · subst ht
    rwa [Net.perform_table_self, Net.perform_log_self]
  · rw [Net.perform_table_ne s p σ ht, Net.perform_log_ne s p σ ht]
    exact h t

theorem allSound_step (σ : State S C) (a : Action S C) (σ' : State S C) (h : AllSound σ)
    (hstep : N.step σ a = some σ') : AllSound σ' := by
  cases N.stepped hstep with
  | inject p m => exact h
  | duplicate p m => exact h
  | ask p m w back q => exact h
  | serve p m w s q hflight halive hfresh hq =>
    exact allSound_perform N (σ := Net.take σ p m w) h ((h s).tidy (hq.tidy _))
  | register s id sock type halive =>
    refine allSound_perform N h ?_
    rw [lRoute_effects, List.append_nil]
    refine ⟨?_, ?_, fun e he id' via hsent => lRoute_mem ((h s).sent e he id' via hsent) _ _,
      (h s).once⟩
    · rw [lRoute_seenUUID]
      exact (h s).marked
    · rw [lRoute_seenUUID]
      exact (h s).passed

/-- In every state of a run. -/
theorem allSound_run {routes : S → Routes} {as : List (Action S C)} {σ : State S C}
    (h : Runs.run N.step (State.start routes) as = some σ) : AllSound σ :=
  Runs.run_invariant (allSound_step N) (fun s => sound_nil (routes s)) h

/-- **Under one UUID each server has at most one local effect and sends at most one
copy to each ID of its table**, whatever the topology, the messages injected and the
order of deliveries and duplications; so the copies sent are bounded by the entries
of all tables. -/
theorem flood_at_most_once [Fintype S] (routes : S → Routes) (as : List (Action S C))
    (σ : State S C) (h : Runs.run N.step (State.start routes) as = some σ) (u : String) :
    (∀ s, count .here u (σ.log s) ≤ 1) ∧ (∀ s id, count (.sent id) u (σ.log s) ≤ 1) ∧
      ∑ s, copies u (σ.log s) ≤ ∑ s, (σ.table s).localRoutes.entries.length := by
  have hsound := allSound_run N h
  exact ⟨fun s => (hsound s).once .here u, fun s id => (hsound s).once (.sent id) u,
    Finset.sum_le_sum fun s _ => (hsound s).copies_le u⟩

end Network

theorem flood_at_most_once_pinging : ∃ σ,
    Runs.run Sample.net.step (State.start Sample.routes) Sample.pinging = some σ ∧
      (∀ s, count .here Sample.call.uuid (σ.log s) ≤ 1) ∧
      (∀ s id, count (.sent id) Sample.call.uuid (σ.log s) ≤ 1) ∧
      ∑ s, copies Sample.call.uuid (σ.log s) ≤ ∑ s, (σ.table s).localRoutes.entries.length := by
  obtain ⟨σ, h⟩ := Option.isSome_iff_exists.mp
    (by decide : (Runs.run Sample.net.step (State.start Sample.routes) Sample.pinging).isSome)
  exact ⟨σ, h, flood_at_most_once Sample.net Sample.routes Sample.pinging σ h Sample.call.uuid⟩

end VleoNotebook.Mess
