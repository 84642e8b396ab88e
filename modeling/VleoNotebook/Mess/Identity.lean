import VleoNotebook.Mess.Loop

/-! Who the server takes a connection for.

`getClientID` reads `%auth` by the address of the socket, and a handshake that fails
leaves `%auth` alone. So what it returns for a new connection is the ID of the
handshake run on it, except where that failed and an earlier socket of the same
address has left an ID behind. -/
namespace VleoNotebook.Mess.Server

variable (cfg : LoopConfig)

/-- For the connection accepted, `getClientID` returns an ID, and the server records
`authOK` and a route, only if the handshake ended with code 0 for that ID. -/
def NoForgery (σ : Server) : Event → Prop
  | .accept sock peer login =>
    (∀ σ₁ id, authenticateOnServer sock login σ = .ok σ₁ → getClientID sock σ₁ = some id →
      login = .ok id) ∧
    (∀ id, (accept cfg sock peer login σ).authOK.lookup sock = some id → login = .ok id) ∧
    ∀ e ∈ (accept cfg sock peer login σ).tables.localRoutes.entries, e.2.sock = .sock sock →
      login = .ok e.1
  | _ => True

/-- A handshake does not fail at an address that has an ID in `%auth`. -/
def FreshIdentity (σ : Server) : Event → Prop
  | .accept sock _ .failed => getClientID sock σ = none
  | _ => True

/-- Sockets with an identity are in the select set. -/
def Selected (σ : Server) : Prop := ∀ sock ∈ σ.authOK, sock ∈ σ.readSet

/-! ### Accepting -/

/-- A handshake touches nothing but `%auth`. -/
theorem authenticateOnServer_ok {sock : Nat} {login : Login} {σ σ₁ : Server}
    (h : authenticateOnServer sock login σ = .ok σ₁) : ∃ auth, σ₁ = {σ with auth := auth} ∧
      (auth = σ.auth ∧ login = .failed ∨ ∃ id, auth = σ.auth.insert sock (some id) ∧
        login = .ok id) := by
  cases login with
  | dies text => cases h
  | failed =>
    cases h
    exact ⟨σ.auth, rfl, .inl ⟨rfl, rfl⟩⟩
  | ok id =>
    cases h
    exact ⟨_, rfl, .inr ⟨id, rfl, rfl⟩⟩

/-- What `getClientID` returns after the handshake is the ID it was for, unless it failed
where `%auth` has an ID. -/
theorem getClientID_of_fresh {sock : Nat} {login : Login} {σ σ₁ : Server} {id : String}
    (hfresh : login = .failed → getClientID sock σ = none)
    (h : authenticateOnServer sock login σ = .ok σ₁) (hid : getClientID sock σ₁ = some id) :
    login = .ok id := by
  obtain ⟨auth, rfl, ⟨rfl, hlogin⟩ | ⟨id', rfl, hlogin⟩⟩ := authenticateOnServer_ok h
  · have hnone := hfresh hlogin
    simp only [getClientID] at hid hnone
    rw [hnone] at hid
    cases hid
  · simp only [getClientID, AList.lookup_insert, Option.join_some, Option.some.injEq] at hid
    rw [hlogin, hid]

/-- The route entered for a connection, if the type of its ID allows one. -/
def Entered (sock : Nat) (id : String) (r r' : RoutingTables) : Prop :=
  r' = r ∨ ∃ t, r' = {r with localRoutes := r.localRoutes.insert id ⟨.sock sock, t⟩}

/-- An accepted connection stays without an identity, or gets the one `getClientID`
returns after the handshake, in `authOK` and with a route. -/
theorem accept_cases (sock : Nat) (peer : Peer) (login : Login) (σ : Server) :
    (∃ auth died, accept cfg sock peer login σ =
        {opened sock peer σ with auth := auth, died := died}) ∨
      ∃ id auth tables died, accept cfg sock peer login σ =
          {opened sock peer σ with
            auth := auth, authOK := σ.authOK.insert sock id, tables := tables, died := died} ∧
        Entered sock id σ.tables tables ∧
        ∃ σ₁, authenticateOnServer sock login (opened sock peer σ) = .ok σ₁ ∧
          getClientID sock σ₁ = some id := by
  unfold accept
  cases h : authenticateOnServer sock login (opened sock peer σ) with
  | error text => exact .inl ⟨σ.auth, some text, rfl⟩
  | ok σ₁ =>
    obtain ⟨auth, rfl, -⟩ := authenticateOnServer_ok h
    simp only [identify]
    cases hid : getClientID sock {opened sock peer σ with auth := auth} with
    | none => exact .inl ⟨auth, σ.died, rfl⟩
    | some id =>
      by_cases htruthy : Truthy id
      · refine .inr ⟨id, auth, _, _, if_pos htruthy, ?_, _, rfl, hid⟩
        change Entered sock id σ.tables
          (lRoute id (.sock sock) (cfg.getType id) σ.tables).state
        obtain ⟨t, -, hroute⟩ | ⟨text, hroute⟩ :=
          lRoute_cases id (.sock sock) (cfg.getType id) σ.tables
        · exact .inr ⟨t, by rw [hroute]⟩
        · exact .inl (by rw [hroute])
      · exact .inl ⟨auth, σ.died, if_neg htruthy⟩

theorem Entered.mem {sock : Nat} {id : String} {r r' : RoutingTables}
    (h : Entered sock id r r') {e : Sigma fun _ : String => Route}
    (he : e ∈ r'.localRoutes.entries) :
    e ∈ r.localRoutes.entries ∨ e.1 = id ∧ e.2.sock = .sock sock := by
  rcases h with rfl | ⟨t, rfl⟩
  · exact .inl he
  · simp only [AList.entries_insert] at he
    rcases List.mem_cons.mp he with rfl | he
    · exact .inr ⟨rfl, rfl⟩
    · exact .inl ((List.kerase_sublist _ _).subset he)

/-- After an accept, what is recorded for the socket was there before or is under the ID
of the handshake. -/
theorem accept_records {sock : Nat} (peer : Peer) {login : Login} {σ : Server}
    (hfresh : login = .failed → getClientID sock σ = none) :
    (∀ id, (accept cfg sock peer login σ).authOK.lookup sock = some id →
        σ.authOK.lookup sock = some id ∨ login = .ok id) ∧
      ∀ e ∈ (accept cfg sock peer login σ).tables.localRoutes.entries,
        e ∈ σ.tables.localRoutes.entries ∨ login = .ok e.1 := by
  obtain ⟨auth, died, heq⟩ | ⟨id, auth, tables, died, heq, hentered, σ₁, hauth, hget⟩ :=
    accept_cases cfg sock peer login σ
  · rw [heq]
    exact ⟨fun _ => .inl, fun _ => .inl⟩
  · have hlogin : login = .ok id :=
      getClientID_of_fresh (σ := opened sock peer σ) hfresh hauth hget
    rw [heq]
    refine ⟨fun id' hid' => .inr ?_, fun e he => (hentered.mem he).imp_right fun h => ?_⟩
    · simp only [AList.lookup_insert, Option.some.injEq] at hid'
      rw [hlogin, hid']
    · rw [hlogin, h.1]

/-! ### The invariant -/

theorem selected_insert {σ : Server} {sock : Nat} (h : Selected σ) (id : String)
    (hsock : sock ∈ σ.readSet) : Selected {σ with authOK := σ.authOK.insert sock id} := by
  intro n hn
  rcases (AList.mem_insert _).mp hn with rfl | hn
  · exact hsock
  · exact h n hn

theorem selected_accept {σ : Server} (h : Selected σ) (sock : Nat) (peer : Peer)
    (login : Login) : Selected (accept cfg sock peer login σ) := by
  have hopened : Selected (opened sock peer σ) := fun n hn => List.mem_cons_of_mem _ (h n hn)
  obtain ⟨auth, died, heq⟩ | ⟨id, auth, tables, died, heq, -⟩ :=
    accept_cases cfg sock peer login σ
  · rw [heq]
    exact hopened
  · rw [heq]
    exact selected_insert hopened id (List.mem_cons_self ..)

theorem selected_step (σ : Server) (e : Event) (σ' : Server) (h : Selected σ)
    (hstep : step cfg σ e = some σ') : Selected σ' := by
  cases e with
  | accept sock peer login =>
    simp only [step, Option.ite_none_right_eq_some, Option.some.injEq] at hstep
    obtain ⟨-, rfl⟩ := hstep
    exact selected_accept cfg h sock peer login
  | receive sock m w answer =>
    simp only [step, Option.ite_none_right_eq_some, Option.some.injEq] at hstep
    obtain ⟨-, rfl⟩ := hstep
    unfold connect
    split <;> exact h
  | fromMQ m w answer =>
    simp only [step, Option.ite_none_right_eq_some, Option.some.injEq] at hstep
    obtain ⟨-, rfl⟩ := hstep
    unfold connect
    split <;> exact h
  | close sock =>
    simp only [step, Option.ite_none_right_eq_some, Option.some.injEq] at hstep
    obtain ⟨-, rfl⟩ := hstep
    intro n hn
    obtain ⟨hne, hn⟩ := AList.mem_erase.mp hn
    exact List.mem_filter.mpr ⟨h n hn, by simpa using hne⟩
  | bcastLocalIpPort w =>
    simp only [step, Option.ite_none_right_eq_some, Option.some.injEq] at hstep
    obtain ⟨-, rfl⟩ := hstep
    exact h

theorem selected_startup (boot : Boot) : Selected (startup cfg boot) := by
  have hempty : ∀ σ : Server, σ.authOK = ∅ → Selected σ := by
    intro σ hσ n hn
    rw [hσ] at hn
    exact absurd hn (AList.notMem_empty n)
  have hup : ∀ σ : Server, σ.authOK = ∅ → Selected (connectUp cfg boot σ) := by
    intro σ hσ
    unfold connectUp
    split
    · split
      · exact hempty _ hσ
      · exact selected_insert (hempty {σ with readSet := [_]} hσ) _ (List.mem_singleton_self _)
    · exact hempty _ hσ
  unfold startup
  simp only
  split
  · exact hempty _ rfl
  · split
    · exact hup _ rfl
    · exact fun n hn => List.mem_cons_of_mem _ (hup _ rfl n hn)

/-! ### The exact condition -/

theorem noForgery_iff {σ σ' : Server} {e : Event} (hsel : Selected σ)
    (hstep : step cfg σ e = some σ') : NoForgery cfg σ e ↔ FreshIdentity σ e := by
  cases e with
  | accept sock peer login =>
    simp only [step, Option.ite_none_right_eq_some, Option.some.injEq] at hstep
    obtain ⟨⟨-, hlive⟩, -⟩ := hstep
    constructor
    · rintro ⟨hget, -, -⟩
      cases login with
      | failed =>
        refine Option.eq_none_iff_forall_ne_some.mpr fun id hid => ?_
        cases hget σ id rfl hid
      | _ => trivial
    · intro hfresh
      have hfailed : login = .failed → getClientID sock σ = none := by
        rintro rfl
        exact hfresh
      obtain ⟨hauth, hroute⟩ := accept_records cfg peer hfailed
      refine ⟨fun σ₁ id h hid => getClientID_of_fresh hfailed h hid, fun id hid => ?_,
        fun r hr hsock => ?_⟩
      · refine (hauth id hid).resolve_left fun hold => hlive ?_
        have hmem : sock ∈ σ.authOK := AList.lookup_isSome.mp (by rw [hold]; rfl)
        simp [live, hsel sock hmem]
      · refine (hroute r hr).resolve_left fun hold => hlive ?_
        have hmem : sock ∈ routeSocks σ.tables :=
          List.mem_filterMap.mpr ⟨r, hold, by rw [hsock]⟩
        simp [live, hmem]
  | _ => exact Iff.rfl

/-- **No connection gets an identity without a handshake of its own exactly in the runs
in which none fails at an address that has an ID in `%auth`.** -/
theorem noForgery_iff_freshIdentity (boot : Boot) (es : List Event) (σ : Server)
    (h : Runs.run (step cfg) (startup cfg boot) es = some σ) :
    Runs.Meets (step cfg) (NoForgery cfg) (startup cfg boot) es ↔
      Runs.Meets (step cfg) FreshIdentity (startup cfg boot) es :=
  Runs.meets_congr (selected_step cfg) (fun _ _ _ => noForgery_iff cfg) (selected_startup cfg boot)
    h

end VleoNotebook.Mess.Server

namespace VleoNotebook.Mess

namespace Sample

/-- The client `L1` logs in, logs in again, and its first connection is closed. -/
def reconnecting : List Event :=
  [.accept 1 peer (.ok "L1"), .accept 2 peer (.ok "L1"), .close 1]

end Sample

theorem noForgery_iff_reconnecting : ∃ σ,
    Runs.run (Server.step Sample.loop) (Server.startup Sample.loop Sample.boot)
        Sample.reconnecting = some σ ∧
      (Runs.Meets (Server.step Sample.loop) (Server.NoForgery Sample.loop)
          (Server.startup Sample.loop Sample.boot) Sample.reconnecting ↔
        Runs.Meets (Server.step Sample.loop) Server.FreshIdentity
          (Server.startup Sample.loop Sample.boot) Sample.reconnecting) := by
  obtain ⟨σ, h⟩ := Option.isSome_iff_exists.mp (by decide :
    (Runs.run (Server.step Sample.loop) (Server.startup Sample.loop Sample.boot)
      Sample.reconnecting).isSome)
  exact ⟨σ, h, Server.noForgery_iff_freshIdentity Sample.loop Sample.boot Sample.reconnecting σ h⟩

/-- Whoever connects next at the address of the closed socket and fails to log in is taken
for `L1`. -/
theorem reconnecting_forges : ∃ σ,
    Runs.run (Server.step Sample.loop) (Server.startup Sample.loop Sample.boot)
        Sample.reconnecting = some σ ∧
      (Server.step Sample.loop σ (.accept 1 Sample.peer .failed)).isSome ∧
      Server.getClientID 1 σ = some "L1" ∧
      ¬ Server.NoForgery Sample.loop σ (.accept 1 Sample.peer .failed) := by
  have hrun : ((Runs.run (Server.step Sample.loop) (Server.startup Sample.loop Sample.boot)
      Sample.reconnecting).any fun σ =>
        (Server.step Sample.loop σ (.accept 1 Sample.peer .failed)).isSome ∧
        Server.getClientID 1 σ = some "L1" ∧
        (Server.accept Sample.loop 1 Sample.peer .failed σ).authOK.lookup 1 = some "L1") = true := by
    decide
  obtain ⟨σ, hσ, hall⟩ := (Option.any_eq_true _ _).mp hrun
  obtain ⟨hstep, hget, hauth⟩ := of_decide_eq_true hall
  refine ⟨σ, hσ, hstep, hget, fun h => ?_⟩
  cases h.2.1 "L1" hauth

end VleoNotebook.Mess
