import VleoNotebook.Mess.Survival

/-! What one processing of a message can do.

`Tidy r a` says what may be relied on when tables `r` were worked on with result
`a`: no route and no seen UUID is lost, whatever is sent goes to an entry of the
tables, nothing happens under a UUID seen before, everything that happens is under
a UUID seen afterwards, and under one UUID there is at most one local effect and at
most one copy to each entry. The relation follows through a sequence, so it holds of
`floodRoute` with any handler that has it (`floodRoute_tidy`), and of what a server
does with a message (`fromSock_tidy`, `fromMQ_tidy`). -/
namespace VleoNotebook.Mess

open Proc

/-! ### Reading effects -/

/-- The UUID an effect is under. The creation of a reply is under none. -/
def Effect.about : Effect → Option String
  | .passed m | .handled m | .registered m | .linked m _ _ | .toClient _ _ m | .toPeer _ _ m
  | .forwarded _ m => some m.uuid
  | .made _ _ => none

/-- The route entry a copy is sent to, and by what. -/
def Effect.sentTo : Effect → Option (String × Handle)
  | .toClient id via _ | .toPeer id via _ => some (id, via)
  | _ => none

/-- What `floodRoute` does at this server: calling the local handler, or doing itself
what a handler would, and sending to a client's socket or the tc-server's queue. -/
def Effect.isLocal : Effect → Bool
  | .handled _ | .registered _ | .linked _ _ _ | .toClient _ _ _ | .forwarded _ _ => true
  | .passed _ | .toPeer _ _ _ | .made _ _ => false

/-- The kinds of effects a server has once under a UUID: getting past the duplicate
filter, a local effect, a copy to the entry `id`. -/
inductive Kind where
  | passed
  | here
  | sent (id : String)

def Effect.is : Kind → Effect → Bool
  | .passed, .passed _ => true
  | .passed, _ => false
  | .here, e => e.isLocal
  | .sent id, e => e.sentTo.map Prod.fst == some id

/-- The effects of one kind under a UUID. -/
def count (k : Kind) (uuid : String) (es : List Effect) : Nat :=
  es.countP fun e => e.about == some uuid && e.is k

section Counts
variable (k : Kind) (uuid : String) (es es' : List Effect)

@[simp] theorem count_nil : count k uuid [] = 0 := rfl

@[simp] theorem count_append : count k uuid (es ++ es') = count k uuid es + count k uuid es' :=
  List.countP_append

theorem count_cons (e : Effect) : count k uuid (e :: es) = count k uuid [e] + count k uuid es :=
  count_append k uuid [e] es

variable {uuid es}

theorem count_eq_zero_of_about (h : ∀ e ∈ es, e.about ≠ some uuid) : count k uuid es = 0 := by
  refine List.countP_eq_zero.mpr fun e he hp => h e he ?_
  simpa using (Bool.and_eq_true_iff.mp hp).1

variable {k}

theorem count_eq_zero_of_is (h : ∀ e ∈ es, e.is k = false) : count k uuid es = 0 := by
  refine List.countP_eq_zero.mpr fun e he hp => ?_
  rw [h e he, Bool.and_false] at hp
  cases hp

theorem count_pos {e : Effect} (he : e ∈ es) (habout : e.about = some uuid) (hk : e.is k = true) :
    0 < count k uuid es :=
  List.countP_pos_iff.mpr ⟨e, he, by simp [habout, hk]⟩

end Counts

/-! ### The relation -/

structure Tidy (r : RoutingTables) (a : Ran RoutingTables Effect) : Prop where
  entries : r.localRoutes.entries ⊆ a.state.localRoutes.entries
  seen : r.seenUUID ⊆ a.state.seenUUID
  /-- A copy goes to an entry. -/
  sent : ∀ e ∈ a.effects, ∀ id via, e.sentTo = some (id, via) →
    ∃ type, (⟨id, ⟨via, type⟩⟩ : Sigma fun _ => Route) ∈ a.state.localRoutes.entries
  quiet : ∀ u ∈ r.seenUUID, ∀ e ∈ a.effects, e.about ≠ some u
  marked : ∀ e ∈ a.effects, ∀ u, e.about = some u → u ∈ a.state.seenUUID
  /-- What is seen has got past the filter. -/
  passed : ∀ u ∈ a.state.seenUUID, u ∉ r.seenUUID →
    ∃ m, m.uuid = u ∧ Effect.passed m ∈ a.effects
  once : ∀ k u, count k u a.effects ≤ 1

theorem tidy_skip (r : RoutingTables) (error : Option String) : Tidy r ⟨r, [], error⟩ where
  entries := List.Subset.refl _
  seen := List.Subset.refl _
  sent := by simp
  quiet := by simp
  marked := by simp
  passed := fun u hu hnew => absurd hu hnew
  once := by simp

/-- The relation follows through a sequence: what the first part did under a UUID, the
second does not do again, since the UUID is seen by then. -/
theorem Tidy.comp {r : RoutingTables} {a b : Ran RoutingTables Effect} (ha : Tidy r a)
    (hb : Tidy a.state b) : Tidy r ⟨b.state, a.effects ++ b.effects, b.error⟩ where
  entries := List.Subset.trans ha.entries hb.entries
  seen := List.Subset.trans ha.seen hb.seen
  sent := by
    intro e he id via hsent
    rcases List.mem_append.mp he with he | he
    · obtain ⟨type, hmem⟩ := ha.sent e he id via hsent
      exact ⟨type, hb.entries hmem⟩
    · exact hb.sent e he id via hsent
  quiet := by
    intro u hu e he
    rcases List.mem_append.mp he with he | he
    · exact ha.quiet u hu e he
    · exact hb.quiet u (ha.seen hu) e he
  marked := by
    intro e he u hu
    rcases List.mem_append.mp he with he | he
    · exact hb.seen (ha.marked e he u hu)
    · exact hb.marked e he u hu
  passed := by
    intro u hu hnew
    by_cases h : u ∈ a.state.seenUUID
    · obtain ⟨m, hm, hmem⟩ := ha.passed u h hnew
      exact ⟨m, hm, List.mem_append_left _ hmem⟩
    · obtain ⟨m, hm, hmem⟩ := hb.passed u hu h
      exact ⟨m, hm, List.mem_append_right _ hmem⟩
  once := by
    intro k u
    rw [count_append]
    by_cases h : ∀ e ∈ a.effects, e.about ≠ some u
    · rw [count_eq_zero_of_about k h, Nat.zero_add]
      exact hb.once k u
    · obtain ⟨e, he, hu⟩ : ∃ e ∈ a.effects, e.about = some u := by simpa using h
      rw [count_eq_zero_of_about k (hb.quiet u (ha.marked e he u hu)), Nat.add_zero]
      exact ha.once k u

theorem tidy_andThen {p q : Routing} {r : RoutingTables} (hp : Tidy r (p r))
    (hq : Tidy (p r).state (q (p r).state)) : Tidy r (andThen p q r) :=
  andThen_induction (fun _ _ _ ha _ hb => ha.comp hb) hp hq

/-- The creation of a reply. -/
theorem tidy_made (reply call : Message) (r : RoutingTables) :
    Tidy r (emit (.made reply call) r) where
  entries := List.Subset.refl _
  seen := List.Subset.refl _
  sent := by simp [Effect.sentTo]
  quiet := by simp [Effect.about]
  marked := by simp [Effect.about]
  passed := fun u hu hnew => absurd hu hnew
  once := fun k u => by simp [count, Effect.about]

/-! ### Sending on -/

/-- What sending a message on may do: nothing but copies of it, each entry at most
one, and none to a client unless it is for one. -/
structure Sends (localID : String) (m : Message) (r : RoutingTables) (es : List Effect) : Prop where
  about : ∀ e ∈ es, e.about = some m.uuid
  sent : ∀ e ∈ es, ∀ id via, e.sentTo = some (id, via) →
    ∃ type, (⟨id, ⟨via, type⟩⟩ : Sigma fun _ => Route) ∈ r.localRoutes.entries
  notPassed : ∀ e ∈ es, e.is .passed = false
  notHere : m.dstsub = subaddrSelf → ∀ e ∈ es, e.is .here = false
  once : ∀ k, count k m.uuid es ≤ 1

theorem sends_nil (localID : String) (m : Message) (r : RoutingTables) :
    Sends localID m r [] := by
  constructor <;> simp

/-- One copy of the message, to an entry. -/
theorem sends_single {localID id : String} {m : Message} {r : RoutingTables} {route : Route}
    {e : Effect} (hroute : r.localRoutes.lookup id = some route) (habout : e.about = some m.uuid)
    (hto : e.sentTo = some (id, route.sock)) (hhere : m.dstsub = subaddrSelf → e.is .here = false) :
    Sends localID m r [e] where
  about := by simpa using habout
  sent := by
    intro e' he' id' via hsent
    obtain rfl : e' = e := List.mem_singleton.mp he'
    simp only [hto, Option.some.injEq, Prod.mk.injEq] at hsent
    obtain ⟨rfl, rfl⟩ := hsent
    exact ⟨route.type, AList.mem_lookup_iff.mp hroute⟩
  notPassed := by
    intro e' he'
    obtain rfl : e' = e := List.mem_singleton.mp he'
    cases e' with
    | passed m' => cases hto
    | _ => rfl
  notHere := by
    intro hself e' he'
    obtain rfl : e' = e := List.mem_singleton.mp he'
    exact hhere hself
  once := fun k => List.countP_le_length

theorem sends_toClient {localID : String} {m : Message} {r : RoutingTables} {route : Route}
    (h : clientRoute localID m.dst m.dstsub r = some route) :
    Sends localID m r [.toClient m.dstsub route.sock m] := by
  unfold clientRoute at h
  split_ifs at h with hcond
  exact sends_single h rfl rfl fun hself => absurd hself hcond.2

theorem sends_toPeer {localID : String} {m : Message} {r : RoutingTables} {route : Route}
    (h : peerRoute m.dst r = some route) : Sends localID m r [.toPeer m.dst route.sock m] := by
  unfold peerRoute at h
  split_ifs at h with hcond
  exact sends_single h rfl rfl fun _ => rfl

theorem floodPeer_effects (m : Message) (e : Sigma fun _ : String => Route) (r : RoutingTables) :
    (floodPeer m e r).effects = [] ∨ (floodPeer m e r).effects = [.toPeer e.1 e.2.sock m] := by
  unfold floodPeer
  split
  · cases e.2.sock with
    | sock n => exact .inr rfl
    | mq => exact .inl rfl
  · exact .inl rfl

theorem mem_floodPeer {m : Message} {entry : Sigma fun _ : String => Route} {r : RoutingTables}
    {e : Effect} (he : e ∈ (floodPeer m entry r).effects) :
    e = .toPeer entry.1 entry.2.sock m := by
  rcases floodPeer_effects m entry r with h | h <;> rw [h] at he
  · cases he
  · exact List.mem_singleton.mp he

/-- Among entries with different IDs, one ID gets one copy. -/
theorem count_sent_flood (m : Message) (r : RoutingTables) (id : String)
    (entries : List (Sigma fun _ : String => Route)) :
    count (.sent id) m.uuid (entries.flatMap fun e => (floodPeer m e r).effects) ≤
      entries.countP fun e => e.1 == id := by
  induction entries with
  | nil => exact Nat.le_refl 0
  | cons e entries ih =>
    rw [List.flatMap_cons, count_append, List.countP_cons, Nat.add_comm]
    refine Nat.add_le_add ih ?_
    rcases floodPeer_effects m e r with h | h <;> rw [h]
    · exact Nat.zero_le _
    · by_cases hid : e.1 = id <;> simp [count, Effect.about, Effect.is, Effect.sentTo, hid]

theorem countP_key_le_one {entries : List (Sigma fun _ : String => Route)}
    (h : entries.NodupKeys) (id : String) : (entries.countP fun e => e.1 == id) ≤ 1 := by
  have hcount : (entries.countP fun e => e.1 == id) = entries.keys.count id := by
    rw [List.count, List.keys, List.countP_map]
    rfl
  rw [hcount]
  exact List.nodup_iff_count_le_one.mp h id

theorem sends_flood (localID : String) (m : Message) (r : RoutingTables) :
    Sends localID m r (each (floodPeer m) r.localRoutes.entries r).effects := by
  have hsub := each_effects_sublist (floodPeer_state m) r.localRoutes.entries r
  have hmem : ∀ e ∈ (each (floodPeer m) r.localRoutes.entries r).effects,
      ∃ entry ∈ r.localRoutes.entries, e = .toPeer entry.1 entry.2.sock m := by
    intro e he
    obtain ⟨entry, hentry, he⟩ := List.mem_flatMap.mp (hsub.subset he)
    exact ⟨entry, hentry, mem_floodPeer he⟩
  have hpassed : ∀ e ∈ (each (floodPeer m) r.localRoutes.entries r).effects,
      e.is .passed = false := by
    intro e he
    obtain ⟨entry, -, rfl⟩ := hmem e he
    rfl
  have hhere : ∀ e ∈ (each (floodPeer m) r.localRoutes.entries r).effects, e.is .here = false := by
    intro e he
    obtain ⟨entry, -, rfl⟩ := hmem e he
    rfl
  refine ⟨?_, ?_, hpassed, fun _ => hhere, ?_⟩
  · intro e he
    obtain ⟨entry, -, rfl⟩ := hmem e he
    rfl
  · intro e he id via hsent
    obtain ⟨entry, hentry, rfl⟩ := hmem e he
    simp only [Effect.sentTo, Option.some.injEq, Prod.mk.injEq] at hsent
    obtain ⟨rfl, rfl⟩ := hsent
    exact ⟨entry.2.type, hentry⟩
  · intro k
    cases k with
    | passed => rw [count_eq_zero_of_is hpassed]; exact Nat.zero_le 1
    | here => rw [count_eq_zero_of_is hhere]; exact Nat.zero_le 1
    | sent id =>
      calc count (.sent id) m.uuid (each (floodPeer m) r.localRoutes.entries r).effects
          ≤ count (.sent id) m.uuid
              (r.localRoutes.entries.flatMap fun e => (floodPeer m e r).effects) := hsub.countP_le
        _ ≤ r.localRoutes.entries.countP fun e => e.1 == id := count_sent_flood m r id _
        _ ≤ 1 := countP_key_le_one r.localRoutes.nodupKeys id

theorem routeNonlocal_sends (localID : String) (m : Message) (r : RoutingTables) :
    Sends localID m r (routeNonlocal localID m r).effects := by
  unfold routeNonlocal
  cases hc : clientRoute localID m.dst m.dstsub r with
  | some route =>
    obtain ⟨sock, type⟩ := route
    cases type <;> cases sock <;>
      first | exact sends_toClient hc | exact sends_nil localID m r
  | none =>
    cases hp : peerRoute m.dst r with
    | some route =>
      obtain ⟨sock, type⟩ := route
      cases sock <;> first | exact sends_toPeer hp | exact sends_nil localID m r
    | none => exact sends_flood localID m r

/-! ### Processing -/

/-- Doing a message addressed to the server itself is at most one local effect under
its UUID; the rest is what the handler does. -/
structure Does (m : Message) (r : RoutingTables) (a : Ran RoutingTables Effect)
    (own rest : List Effect) : Prop where
  effects : a.effects = own ++ rest
  single : own.length ≤ 1
  about : ∀ e ∈ own, e.about = some m.uuid
  isHere : ∀ e ∈ own, e.isLocal = true ∧ e.sentTo = none
  forSelf : own ≠ [] → m.dstsub = subaddrSelf
  rest : Tidy r ⟨a.state, rest, a.error⟩

theorem does_skip (m : Message) (r : RoutingTables) (error : Option String) :
    Does m r ⟨r, [], error⟩ [] [] where
  effects := rfl
  single := Nat.zero_le 1
  about := by simp
  isHere := by simp
  forSelf := fun h => absurd rfl h
  rest := tidy_skip r error

theorem does_single {m : Message} {r : RoutingTables} {a : Ran RoutingTables Effect} {e : Effect}
    {rest : List Effect} (hself : m.dstsub = subaddrSelf) (heffects : a.effects = e :: rest)
    (habout : e.about = some m.uuid) (hhere : e.isLocal = true ∧ e.sentTo = none)
    (hrest : Tidy r ⟨a.state, rest, a.error⟩) : Does m r a [e] rest where
  effects := heffects
  single := Nat.le_refl 1
  about := by simpa using habout
  isHere := by simpa using hhere
  forSelf := fun _ => hself
  rest := hrest

theorem tidy_insert {r : RoutingTables} {id : String} (hid : id ∉ r.localRoutes) (route : Route) :
    Tidy r ⟨{r with localRoutes := r.localRoutes.insert id route}, [], none⟩ where
  entries := by
    rw [AList.entries_insert_of_notMem hid]
    exact List.subset_cons_self _ _
  seen := List.Subset.refl _
  sent := by simp
  quiet := by simp
  marked := by simp
  passed := fun u hu hnew => absurd hu hnew
  once := by simp

theorem autoLink_does {w : World} {localID : String} {m : Message} {r : RoutingTables}
    (hself : m.dstsub = subaddrSelf) :
    ∃ own rest, Does m r (autoLink w localID m r) own rest := by
  unfold autoLink
  cases hargs : m.argval with
  | none => exact ⟨[], [], does_skip m r _⟩
  | some args =>
    simp only
    split_ifs with hcond
    · cases w.newClient (args.get "ip") (args.get "port") with
      | error text => exact ⟨[], [], does_skip m r _⟩
      | ok n =>
        by_cases hid : Truthy (args.get "id")
        · simp only [lRoute_mess hid]
          exact ⟨_, [], does_single hself rfl rfl ⟨rfl, rfl⟩ (tidy_insert hcond.2.2 _)⟩
        · simp only [lRoute_not_truthy hid]
          exact ⟨_, [], does_single hself rfl rfl ⟨rfl, rfl⟩ (tidy_skip r _)⟩
    · exact ⟨[], [], does_skip m r _⟩

theorem processLocal_does {cfg : Config} {w : World} {localID : String} {m : Message}
    {handler : String → Message → Routing} {r : RoutingTables}
    (hh : m.dstsub = subaddrSelf → Tidy r (handler localID m r)) :
    ∃ own rest, Does m r (processLocal cfg w localID m handler r) own rest := by
  unfold processLocal
  split_ifs with hself h1 h2 hauto h3
  · exact ⟨[], [], does_skip m r _⟩
  · exact autoLink_does hself.1
  · exact ⟨[], [], does_skip m r _⟩
  · exact ⟨_, [], does_single hself.1 rfl rfl ⟨rfl, rfl⟩ (tidy_skip r _)⟩
  · exact ⟨_, _, does_single hself.1 rfl rfl ⟨rfl, rfl⟩ (hh hself.1)⟩
  · exact ⟨[], [], does_skip m r _⟩

/-! ### One processing -/

/-- What is done here and what is sent on are together once under the UUID. -/
theorem count_own_sends {localID : String} {m : Message} {r s : RoutingTables}
    {a : Ran RoutingTables Effect} {own rest sends : List Effect} (hdoes : Does m r a own rest)
    (hsends : Sends localID m s sends) (k : Kind) :
    count k m.uuid (.passed m :: (own ++ sends)) ≤ 1 := by
  have hpassed : k ≠ .passed → count k m.uuid [.passed m] = 0 := by
    intro hk
    cases k with
    | passed => exact absurd rfl hk
    | here => exact count_eq_zero_of_is (by simp [Effect.is, Effect.isLocal])
    | sent id => exact count_eq_zero_of_is (by simp [Effect.is, Effect.sentTo])
  rw [count_cons, count_append]
  cases k with
  | passed =>
    have hown : count .passed m.uuid own = 0 := by
      refine count_eq_zero_of_is fun e he => ?_
      have := (hdoes.isHere e he).1
      cases e with
      | passed m' => cases this
      | _ => rfl
    rw [hown, count_eq_zero_of_is hsends.notPassed]
    exact List.countP_le_length
  | here =>
    have hown : count .here m.uuid own ≤ own.length := List.countP_le_length
    have hsingle := hdoes.single
    have honce := hsends.once .here
    rw [hpassed (by simp)]
    by_cases hself : m.dstsub = subaddrSelf
    · rw [count_eq_zero_of_is (hsends.notHere hself)]
      omega
    · have hnil : own = [] := not_not.mp fun h => hself (hdoes.forSelf h)
      simp only [hnil, count_nil]
      omega
  | sent id =>
    have hown : count (.sent id) m.uuid own = 0 := by
      refine count_eq_zero_of_is fun e he => ?_
      simp [Effect.is, (hdoes.isHere e he).2]
    have honce := hsends.once (.sent id)
    rw [hpassed (by simp), hown]
    omega

/-- Apart from what the handler does, all of it is about the message. -/
theorem about_processed {localID : String} {m : Message} {r : RoutingTables}
    {a : Ran RoutingTables Effect} {own rest sends : List Effect} {e : Effect}
    (hdoes : Does m r a own rest) (hsends : Sends localID m a.state sends)
    (he : e ∈ Effect.passed m :: (own ++ rest ++ sends)) : e.about = some m.uuid ∨ e ∈ rest := by
  simp only [List.mem_cons, List.mem_append] at he
  rcases he with rfl | (he | he) | he
  · exact .inl rfl
  · exact .inl (hdoes.about e he)
  · exact .inr he
  · exact .inl (hsends.about e he)

/-- The message is counted in what is done here and sent on, other messages in what the
handler does. -/
theorem count_processed {localID : String} {m : Message} {r : RoutingTables}
    {a : Ran RoutingTables Effect} {own rest sends : List Effect}
    (hdoes : Does m (r.see m.uuid) a own rest) (hsends : Sends localID m a.state sends)
    (k : Kind) (u : String) : count k u (.passed m :: (own ++ rest ++ sends)) ≤ 1 := by
  have hperm : count k u (.passed m :: (own ++ rest ++ sends)) =
      count k u (.passed m :: (own ++ sends)) + count k u rest := by
    rw [count_cons k u (own ++ rest ++ sends), count_cons k u (own ++ sends)]
    simp only [count_append]
    omega
  rw [hperm]
  by_cases hu : u = m.uuid
  · subst hu
    have hquiet : ∀ e ∈ rest, e.about ≠ some m.uuid :=
      hdoes.rest.quiet m.uuid (List.mem_cons_self ..)
    rw [count_eq_zero_of_about k hquiet, Nat.add_zero]
    exact count_own_sends hdoes hsends k
  · have hother : count k u (.passed m :: (own ++ sends)) = 0 := by
      refine count_eq_zero_of_about k fun e he h => hu ?_
      simp only [List.mem_cons, List.mem_append] at he
      rcases he with rfl | he | he
      · exact (Option.some.inj h).symm
      · exact Option.some.inj (h.symm.trans (hdoes.about e he))
      · exact Option.some.inj (h.symm.trans (hsends.about e he))
    rw [hother, Nat.zero_add]
    exact hdoes.rest.once k u

/-- What is done here, what the handler does and what is sent on make a tidy whole
for tables that have not seen the message. -/
theorem tidy_processed {localID : String} {m : Message} {r : RoutingTables}
    {a : Ran RoutingTables Effect} {own rest sends : List Effect} {error : Option String}
    (hnew : m.uuid ∉ r.seenUUID) (hdoes : Does m (r.see m.uuid) a own rest)
    (hsends : Sends localID m a.state sends) :
    Tidy r ⟨a.state, .passed m :: (own ++ rest ++ sends), error⟩ := by
  refine ⟨hdoes.rest.entries, fun u hu => hdoes.rest.seen (List.mem_cons_of_mem _ hu), ?_, ?_, ?_,
    ?_, count_processed hdoes hsends⟩
  · intro e he id via hsent
    simp only [List.mem_cons, List.mem_append] at he
    rcases he with rfl | (he | he) | he
    · cases hsent
    · rw [(hdoes.isHere e he).2] at hsent
      cases hsent
    · exact hdoes.rest.sent e he id via hsent
    · exact hsends.sent e he id via hsent
  · intro u hu e he habout
    rcases about_processed hdoes hsends he with h | h
    · rw [h] at habout
      exact hnew (Option.some.inj habout ▸ hu)
    · exact hdoes.rest.quiet u (List.mem_cons_of_mem _ hu) e h habout
  · intro e he u habout
    rcases about_processed hdoes hsends he with h | h
    · rw [h] at habout
      exact Option.some.inj habout ▸ hdoes.rest.seen (List.mem_cons_self ..)
    · exact hdoes.rest.marked e h u habout
  · intro u hu hold
    by_cases h : u = m.uuid
    · exact ⟨m, h.symm, List.mem_cons_self ..⟩
    · have hsee : u ∉ (r.see m.uuid).seenUUID := by simp [RoutingTables.see, h, hold]
      obtain ⟨m', hm', he⟩ := hdoes.rest.passed u hu hsee
      exact ⟨m', hm', by simp [he]⟩

/-- **`floodRoute` is tidy whenever its handler is.** -/
theorem floodRoute_tidy {cfg : Config} {w : World} {localID : String} {m : Message}
    {handler : String → Message → Routing}
    (hh : m.dstsub = subaddrSelf → ∀ r, Tidy r (handler localID m r)) (r : RoutingTables) :
    Tidy r (floodRoute cfg w localID m handler r) := by
  by_cases hseen : m.uuid ∈ r.seenUUID
  · rw [floodRoute_of_seen hseen]
    exact tidy_skip r none
  · obtain ⟨own, rest, hdoes⟩ : ∃ own rest, Does m (r.see m.uuid)
        (processLocal cfg w localID m handler (r.see m.uuid)) own rest :=
      processLocal_does fun h => hh h _
    rw [floodRoute_of_unseen hseen, emit_andThen]
    by_cases hok : (processLocal cfg w localID m handler (r.see m.uuid)).error = none
    · rw [andThen_of_ok _ hok, routeNonlocal_state]
      rw [hdoes.effects]
      exact tidy_processed hseen hdoes (routeNonlocal_sends localID m _)
    · rw [andThen_of_error _ hok, hdoes.effects, ← List.append_nil (own ++ rest)]
      exact tidy_processed hseen hdoes (sends_nil localID m _)

theorem routeCallback_tidy {cfg : Config} {w : World} {localID : String} {m : Message}
    (hself : m.dstsub = subaddrSelf) (r : RoutingTables) :
    Tidy r (routeCallback cfg w localID m r) := by
  unfold routeCallback
  by_cases hping : m.method = "ping"
  · rw [if_pos hping, if_pos hself]
    cases m.argval with
    | none => exact tidy_skip r _
    | some args =>
      simp only
      cases pingReply w localID m args with
      | error text => exact tidy_skip r _
      | ok reply =>
        exact tidy_andThen (tidy_made reply m r) (floodRoute_tidy (fun _ r => tidy_skip r none) _)
  · rw [if_neg hping]
    exact tidy_skip r _

theorem printMsg_tidy (m : Message) (r : RoutingTables) : Tidy r (printMsg m r) := by
  unfold printMsg
  cases m.argval with
  | none => exact tidy_skip r _
  | some _ => exact tidy_skip r none

theorem fromSock_tidy (cfg : Config) (w : World) (m : Message) (r : RoutingTables) :
    Tidy r (fromSock cfg w m r) :=
  tidy_andThen (printMsg_tidy m r) (floodRoute_tidy (fun h _ => routeCallback_tidy h _) _)

theorem fromMQ_tidy (cfg : Config) (w : World) (m : Message) (r : RoutingTables) :
    Tidy r (fromMQ cfg w m r) :=
  tidy_andThen (printMsg_tidy m r) (floodRoute_tidy (fun _ r => tidy_skip r none) _)

end VleoNotebook.Mess
