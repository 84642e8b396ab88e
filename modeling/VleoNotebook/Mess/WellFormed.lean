import VleoNotebook.Mess.Message

/-! Which messages the constructor lets through.

A well formed message has all its parts, and it either starts an exchange or answers a
message, whose UUID it names, with what became of it. `new` checks both. But it takes any
status it knows from a reply, also that of an original message, and a part that is `0` for an
empty one. Apart from these it lets through what is well formed and nothing else
(`admits_iff`). -/
namespace VleoNotebook.Mess

/-- What `new` is called with. -/
structure NewArgs where
  type : String
  srcsub : String
  src : String
  dstsub : String
  dst : String
  method : String
  argval : Option Hash
  status : String
  uuidorig : String

/-- A message of which both ends can make something. -/
structure Message.WellFormed (m : Message) : Prop where
  src : m.src ≠ ""
  srcsub : m.srcsub ≠ ""
  dst : m.dst ≠ ""
  dstsub : m.dstsub ≠ ""
  method : m.method ≠ ""
  original : m.type.originates = true → m.uuidorig = "" ∧ m.status = .orig
  reply : m.type.originates = false → m.uuidorig.length = 36 ∧ m.status ≠ .orig

namespace NewArgs
variable (a : NewArgs)

def new (uuid : String) : Except String Message :=
  Message.new uuid a.type a.srcsub a.src a.dstsub a.dst a.method a.argval a.status a.uuidorig

/-- The parts that must not be empty. -/
def parts : List String := [a.src, a.srcsub, a.dst, a.dstsub, a.method]

/-- The type is known and the UUID of the message answered goes with it. -/
def Fits (t : MsgType) : Prop := MsgType.ofText a.type = some t ∧ UuidorigFits t a.uuidorig

/-- The arguments of a well formed message; what starts an exchange is given any status. -/
structure Shaped : Prop where
  parts : ∀ s ∈ a.parts, s ≠ ""
  fits : ∃ t, a.Fits t ∧
    (t.originates = false → ∃ st, st ≠ .orig ∧ Status.ofText a.status = some st)

/-- All that is well formed is let through, and nothing else. -/
def Admits (uuid : String) : Prop :=
  (∀ m, a.new uuid = .ok m → m.WellFormed) ∧ (a.Shaped → ∃ m, a.new uuid = .ok m)

/-- A reply that has all its parts but calls itself original. -/
def OriginalReply : Prop :=
  (∀ s ∈ a.parts, Truthy s) ∧ (∃ t, a.Fits t ∧ t.originates = false) ∧
    a.status = Status.orig.text

theorem new_eq_ok {uuid : String} {m : Message} : a.new uuid = .ok m ↔
    ∃ t st, a.Fits t ∧
      Status.ofText (if t.originates then Status.orig.text else a.status) = some st ∧
      (∀ s ∈ a.parts, Truthy s) ∧
      ⟨t, a.src, a.srcsub, a.dst, a.dstsub, uuid, a.uuidorig, a.method, a.argval, st⟩ = m := by
  rw [new, Message.new_eq_ok]
  refine exists₂_congr fun t st => ?_
  simp only [Fits, parts, List.forall_mem_cons, List.not_mem_nil, false_imp_iff, implies_true,
    and_true]
  tauto

theorem status_ofText_orig : Status.ofText Status.orig.text = some .orig := rfl

/-- Only its own text is read as a status. -/
theorem text_of_ofText {s : String} {st : Status} (h : Status.ofText s = some st) :
    s = st.text := by
  simpa using List.find?_some h

/-- What is let through is well formed unless it is a reply with the status of an original. -/
theorem wellFormed_iff (uuid : String) :
    (∀ m, a.new uuid = .ok m → m.WellFormed) ↔ ¬ a.OriginalReply := by
  constructor
  · rintro h ⟨hparts, ⟨t, hfits, ht⟩, hstatus⟩
    have hread : Status.ofText (if t.originates then Status.orig.text else a.status) =
        some .orig := by
      rw [ht, if_neg (by decide), hstatus, status_ofText_orig]
    exact ((h _ (a.new_eq_ok.mpr ⟨t, .orig, hfits, hread, hparts, rfl⟩)).reply ht).2 rfl
  · intro h m hm
    obtain ⟨t, st, hfits, hread, hparts, rfl⟩ := a.new_eq_ok.mp hm
    have hne : ∀ s ∈ a.parts, s ≠ "" := fun s hs => (hparts s hs).1
    simp only [parts, List.forall_mem_cons] at hne
    obtain ⟨hsrc, hsrcsub, hdst, hdstsub, hmethod, -⟩ := hne
    refine ⟨hsrc, hsrcsub, hdst, hdstsub, hmethod, fun ht => ?_, fun ht => ?_⟩
    · have ht : t.originates = true := ht
      rw [ht, if_pos rfl, status_ofText_orig] at hread
      rcases hfits.2 with ⟨hlen, -⟩ | ⟨-, hreply⟩
      · exact ⟨String.length_eq_zero_iff.mp hlen, (Option.some.inj hread).symm⟩
      · rw [ht] at hreply
        cases hreply
    · have ht : t.originates = false := ht
      rw [ht, if_neg (by decide)] at hread
      rcases hfits.2 with ⟨-, horiginates⟩ | ⟨hlen, -⟩
      · rw [ht] at horiginates
        cases horiginates
      · refine ⟨hlen, ?_⟩
        rintro rfl
        exact h ⟨hparts, ⟨t, hfits, ht⟩, text_of_ofText hread⟩

/-- What is well formed is let through unless a part of it is `0`. -/
theorem accepted_iff (uuid : String) :
    (a.Shaped → ∃ m, a.new uuid = .ok m) ↔ ¬ (a.Shaped ∧ "0" ∈ a.parts) := by
  constructor
  · rintro h ⟨hshaped, hzero⟩
    obtain ⟨m, hm⟩ := h hshaped
    obtain ⟨t, st, -, -, hparts, -⟩ := a.new_eq_ok.mp hm
    exact (hparts "0" hzero).2 rfl
  · intro h hshaped
    obtain ⟨t, hfits, hreply⟩ := hshaped.fits
    have hparts : ∀ s ∈ a.parts, Truthy s := fun s hs =>
      ⟨hshaped.parts s hs, fun hzero => h ⟨hshaped, hzero ▸ hs⟩⟩
    cases ht : t.originates with
    | true =>
      refine ⟨_, a.new_eq_ok.mpr ⟨t, .orig, hfits, ?_, hparts, rfl⟩⟩
      rw [ht, if_pos rfl, status_ofText_orig]
    | false =>
      obtain ⟨st, -, hread⟩ := hreply ht
      refine ⟨_, a.new_eq_ok.mpr ⟨t, st, hfits, ?_, hparts, rfl⟩⟩
      rwa [ht, if_neg (by decide)]

/-- **The constructor lets through all that is well formed and nothing else** if and only if
it is not called for a reply with the status of an original, nor for something well formed
with a part that is `0`. -/
theorem admits_iff (uuid : String) :
    a.Admits uuid ↔ ¬ a.OriginalReply ∧ ¬ (a.Shaped ∧ "0" ∈ a.parts) :=
  and_congr (a.wellFormed_iff uuid) (a.accepted_iff uuid)

/-- A return value with the status of a call. -/
def originalReturn : NewArgs :=
  { type := MsgType.ret.text
    srcsub := subaddrSelf
    src := "M1"
    dstsub := subaddrSelf
    dst := "M2"
    method := "ping"
    argval := none
    status := Status.orig.text
    uuidorig := "6ba7b810-9dad-11d1-80b4-00c04fd430c8" }

/-- An event of the server `0`. -/
def eventOfZero : NewArgs :=
  { type := MsgType.event.text
    srcsub := subaddrSelf
    src := "0"
    dstsub := subaddrSelf
    dst := dstBcast
    method := "ping"
    argval := none
    status := ""
    uuidorig := "" }

/-- The first is let through, the second is not. -/
theorem originalReturn_let_through :
    ¬ originalReturn.Admits "f47ac10b-58cc-4372-a567-0e02b2c3d479" ∧
      ¬ eventOfZero.Admits "f47ac10b-58cc-4372-a567-0e02b2c3d479" := by
  have hreturn : originalReturn.OriginalReply :=
    ⟨by decide, ⟨.ret, ⟨rfl, by decide⟩, rfl⟩, rfl⟩
  have hshaped : eventOfZero.Shaped :=
    ⟨by decide, .event, ⟨rfl, by decide⟩, fun h => Bool.noConfusion h⟩
  exact ⟨fun h => (originalReturn.wellFormed_iff _).mp h.1 hreturn,
    fun h => (eventOfZero.accepted_iff _).mp h.2 ⟨hshaped, by decide⟩⟩

end NewArgs

end VleoNotebook.Mess
