import VleoNotebook.Lib.Runs
import VleoNotebook.Mess.RoundTrip

/-! One authenticated connection of `MessSrv`, and how its bytes arrive.

After `blocking(0)` a `read` takes from the private buffer of the handle, and only
when that holds too little from the kernel, of which it then empties the buffer.
The main loop looks at the kernel buffer alone and receives one message for each
time it finds bytes there. `receiveData` checks hardly any of its reads, so a frame
comes through when every read finds the bytes it asks for; and the loop has kept up
with the client, when the kernel buffer is empty, if also no whole frame stays
behind in the private buffer (`faithful_of_found`). -/
namespace VleoNotebook.Mess.MessageTransport

/-! ### The connection -/

/-- Where the main loop stands. `died` is an exception out of `thaw`. -/
inductive Point where
  | select
  | receiving (scan : Scan)
  | died
deriving DecidableEq

/-- A connection: what the client sent and the network still holds, the kernel
buffer, the private buffer of the handle, and the messages given to `floodRoute`. -/
structure Conn (M : Type) where
  wire : Bytes
  kernel : Bytes
  handle : Bytes
  point : Point
  passed : List M
  isOpen : Bool
deriving DecidableEq

/-- The client sends these frozen forms, at its own pace, on a fresh connection. -/
def Conn.start {M : Type} (frames : List Bytes) : Conn M where
  wire := frames.flatMap sendData
  kernel := []
  handle := []
  point := .select
  passed := []
  isOpen := true

/-- `read($sock, ..., n)` on the non-blocking handle: undef where there is nothing. -/
def Conn.read {M : Type} (c : Conn M) (n : Nat) : Option Bytes × Conn M :=
  if n ≤ c.handle.length then
    (some (c.handle.take n), {c with handle := c.handle.drop n})
  else
    let found := c.handle ++ c.kernel
    (if found = [] then none else some (found.take n),
      {c with handle := found.drop n, kernel := []})

/-- `arrive n` brings `n` bytes into the kernel buffer; `ready` is the answer of
`select`; `read` is one read of `receiveData`, and `finish` its return. -/
inductive Event where
  | arrive (n : Nat)
  | ready
  | read
  | finish
deriving DecidableEq

section
variable {M : Type} (thaw : Bytes → Option M)

/-- One step of the connection; `thaw` is the module's, `none` where it dies. What
`floodRoute` makes of a message is not looked at here. -/
def Conn.step (c : Conn M) : Event → Option (Conn M)
  | .arrive n => some {c with wire := c.wire.drop n, kernel := c.kernel ++ c.wire.take n}
  | .ready =>
    match c.point with
    | .select =>
      if c.isOpen ∧ c.kernel ≠ [] then some {c with point := .receiving .noZero} else none
    | _ => none
  | .read =>
    match c.point with
    | .receiving (.done _) => none
    | .receiving q =>
      let (answer, c') := c.read q.want
      some {c' with point := .receiving (q.feed answer)}
    | _ => none
  | .finish =>
    match c.point with
    -- `goto CLOSE`
    | .receiving (.done .failed) => some {c with point := .select, isOpen := false}
    | .receiving (.done (.frozen body)) =>
      match thaw body with
      | some msg => some {c with point := .select, passed := c.passed ++ [msg]}
      | none => some {c with point := .died}
    | _ => none

/-! ### What is asked of it -/

/-- The frames that lie whole in the first `n` bytes. -/
def complete : List Bytes → Nat → List Bytes
  | [], _ => []
  | x :: xs, n =>
    if (sendData x).length ≤ n then x :: complete xs (n - (sendData x).length) else []

/-- How many bytes have arrived of these frames. -/
def Conn.arrived (c : Conn M) (frames : List Bytes) : Nat :=
  (frames.flatMap sendData).length - c.wire.length

/-- The message that comes of a frame on a blocking stream of its own. -/
def alone (x : Bytes) : Option M :=
  match (receiveData (sendData x)).1 with
  | .done (.frozen body) => thaw body
  | _ => none

/-- When the loop is idle and the kernel has nothing for it, the frames received so
far have been passed on, in order, and the connection stands. -/
def Conn.Faithful (frames : List Bytes) (c : Conn M) : Prop :=
  c.point = .select → c.kernel = [] →
    c.isOpen ∧ c.passed.map some = (complete frames (c.arrived frames)).map (alone thaw)

instance [DecidableEq M] (frames : List Bytes) (c : Conn M) : Decidable (c.Faithful thaw frames) :=
  inferInstanceAs (Decidable (_ → _ → _ ∧ _))

end

/-- The length of the frame in front, as far as its header is there to tell. -/
def frameLength (p : Bytes) : Nat := 9 + (unpackN (p.drop 4)).getD 0

/-- Every read finds the bytes it asks for; and when the body has been read and the
kernel has nothing more, the private buffer holds the `\003` behind the body and,
behind that, less than a frame. -/
def Conn.Found {M : Type} (c : Conn M) : Event → Prop
  | .read =>
    match c.point with
    | .receiving q => q.want ≤ c.handle.length + c.kernel.length
    | _ => True
  | .finish =>
    c.kernel = [] →
      c.handle.head? = some 3 ∧ c.handle.tail.length < frameLength c.handle.tail
  | _ => True

instance {M : Type} (c : Conn M) : (e : Event) → Decidable (c.Found e)
  | .read =>
    match h : c.point with
    | .receiving q =>
      decidable_of_iff (q.want ≤ c.handle.length + c.kernel.length) (by simp [Conn.Found, h])
    | .select | .died => isTrue (by simp [Conn.Found, h])
  | .finish => inferInstanceAs (Decidable (_ → _ ∧ _))
  | .arrive _ | .ready => isTrue trivial

/-! ### Frames and prefixes -/

theorem sendData_length (x : Bytes) : (sendData x).length = 9 + (escape x).length := by
  simp only [sendData, List.length_append, List.length_cons, List.length_nil, packN_length]
  omega

theorem frameLength_frame {x : Bytes} (h : (escape x).length < 2 ^ 32) (rest : Bytes) :
    frameLength (sendData x ++ rest) = (sendData x).length := by
  have hdrop : (sendData x ++ rest).drop 4 =
      packN (escape x).length ++ (escape x ++ 3 :: rest) := by
    simp [sendData]
  have hunpack (s : Bytes) : unpackN (packN (escape x).length ++ s) = some (escape x).length :=
    unpackN_packN h
  rw [frameLength, hdrop, hunpack, sendData_length, Option.getD_some]

theorem alone_frame {M : Type} (thaw : Bytes → Option M) {x : Bytes}
    (h : (escape x).length < 2 ^ 32) : alone thaw x = thaw (decode (escape x)) := by
  have hframe := receiveData_frame x [] h
  rw [List.append_nil] at hframe
  rw [alone, hframe]

theorem complete_append (before after : List Bytes) (n : Nat) :
    complete (before ++ after) ((before.flatMap sendData).length + n) =
      before ++ complete after n := by
  induction before with
  | nil => simp
  | cons x xs ih =>
    have hle : (sendData x).length ≤ ((x :: xs).flatMap sendData).length + n := by
      simp only [List.flatMap_cons, List.length_append]
      omega
    have hsub : ((x :: xs).flatMap sendData).length + n - (sendData x).length =
        (xs.flatMap sendData).length + n := by
      simp only [List.flatMap_cons, List.length_append]
      omega
    rw [List.cons_append, complete, if_pos hle, hsub, ih, List.cons_append]

/-- Less than a frame in front means no frame among these bytes. -/
theorem complete_eq_nil {frames : List Bytes} (hsize : ∀ x ∈ frames, (escape x).length < 2 ^ 32)
    {p w : Bytes} (h : p ++ w = frames.flatMap sendData) (hp : p.length < frameLength p) :
    complete frames p.length = [] := by
  cases frames with
  | nil => rfl
  | cons x xs =>
    refine if_neg fun hle => ?_
    rw [List.flatMap_cons] at h
    obtain ⟨r, hr⟩ := List.prefix_of_prefix_length_le
      (List.prefix_append (sendData x) (xs.flatMap sendData)) (h ▸ List.prefix_append p w) hle
    rw [← hr, frameLength_frame (hsize x List.mem_cons_self)] at hp
    rw [← hr] at hle
    exact Nat.not_lt.mpr hle hp

/-! ### What a step can do -/

section
variable {M : Type} {thaw : Bytes → Option M} {c c' : Conn M}

theorem Conn.step_ready (h : c.step thaw .ready = some c') :
    c.point = .select ∧ c' = {c with point := .receiving .noZero} := by
  cases hpoint : c.point with
  | select =>
    simp only [Conn.step, hpoint, Option.ite_none_right_eq_some, Option.some.injEq] at h
    exact ⟨rfl, h.2.symm⟩
  | _ => simp [Conn.step, hpoint] at h

theorem Conn.step_read (h : c.step thaw .read = some c') :
    ∃ q, c.point = .receiving q ∧ (∀ r, q ≠ .done r) ∧
      c' = {(c.read q.want).2 with point := .receiving (q.feed (c.read q.want).1)} := by
  cases hpoint : c.point with
  | receiving q =>
    cases q with
    | done r => simp [Conn.step, hpoint] at h
    | _ =>
      simp only [Conn.step, hpoint, Option.some.injEq] at h
      exact ⟨_, rfl, nofun, h.symm⟩
  | _ => simp [Conn.step, hpoint] at h

theorem Conn.step_finish (h : c.step thaw .finish = some c') :
    c.point = .receiving (.done .failed) ∨
      ∃ body, c.point = .receiving (.done (.frozen body)) ∧
        (thaw body = none ∧ c'.point = .died ∨
          ∃ msg, thaw body = some msg ∧
            c' = {c with point := .select, passed := c.passed ++ [msg]}) := by
  cases hpoint : c.point with
  | receiving q =>
    cases q with
    | done r =>
      cases r with
      | failed => exact .inl rfl
      | frozen body =>
        refine .inr ⟨body, rfl, ?_⟩
        cases hthaw : thaw body with
        | none =>
          simp only [Conn.step, hpoint, hthaw, Option.some.injEq] at h
          exact .inl ⟨rfl, by rw [← h]⟩
        | some msg =>
          simp only [Conn.step, hpoint, hthaw, Option.some.injEq] at h
          exact .inr ⟨msg, rfl, h.symm⟩
    | _ => simp [Conn.step, hpoint] at h
  | _ => simp [Conn.step, hpoint] at h

end

/-! ### Reading towards the end of a frame -/

/-- What the handle answers when it and the kernel hold enough. -/
theorem Conn.read_found {M : Type} {c : Conn M} {n : Nat}
    (h : n ≤ c.handle.length + c.kernel.length) :
    ∃ a k, c.read n = (some ((c.handle ++ c.kernel).take n), {c with handle := a, kernel := k}) ∧
      a ++ k = (c.handle ++ c.kernel).drop n := by
  by_cases hn : n ≤ c.handle.length
  · refine ⟨c.handle.drop n, c.kernel, ?_, (List.drop_append_of_le_length hn).symm⟩
    rw [Conn.read, if_pos hn, List.take_append_of_le_length hn]
  · refine ⟨(c.handle ++ c.kernel).drop n, [], ?_, List.append_nil _⟩
    have hfound : c.handle ++ c.kernel ≠ [] := by
      intro hnil
      have hlen := congrArg List.length hnil
      simp only [List.length_append, List.length_nil] at hlen
      omega
    simp only [Conn.read, if_neg hn, if_neg hfound]

/-- The machine is on its way through the first of the frames `after`, `s` being
all that is left to read; or it skips the last `\003` with no frame to come. -/
def Heading (q : Scan) (s : Bytes) (after : List Bytes) : Prop :=
  (after = [] ∧ q = .noZero ∧ (s = [] ∨ s = [3])) ∨
    ∃ x xs, after = x :: xs ∧ ∃ fuel,
      Scan.drive fuel q s = (.done (.frozen (decode (escape x))), 3 :: xs.flatMap sendData)

/-- A `\003` in front of a frame is passed over. -/
theorem Scan.drive_etx (fuel : Nat) (s : Bytes) :
    Scan.drive (fuel + 1) .noZero (3 :: s) = Scan.drive fuel .noZero s := rfl

theorem heading_start {s : Bytes} {after : List Bytes}
    (hsize : ∀ x ∈ after, (escape x).length < 2 ^ 32)
    (h : s = after.flatMap sendData ∨ s = 3 :: after.flatMap sendData) :
    Heading .noZero s after := by
  cases after with
  | nil => exact .inl ⟨rfl, rfl, h⟩
  | cons x xs =>
    refine .inr ⟨x, xs, rfl, ?_⟩
    have hframe := receiveData_frame x (xs.flatMap sendData) (hsize x List.mem_cons_self)
    rw [receiveData, ← List.flatMap_cons] at hframe
    rcases h with rfl | rfl
    · exact ⟨_, hframe⟩
    · exact ⟨_, (Scan.drive_etx _ _).trans hframe⟩

theorem Heading.read {q : Scan} {s : Bytes} {after : List Bytes} (h : Heading q s after)
    (hq : ∀ r, q ≠ .done r) (hs : q.want ≤ s.length) :
    Heading (q.feed (some (s.take q.want))) (s.drop q.want) after := by
  rcases h with ⟨rfl, rfl, rfl | rfl⟩ | ⟨x, xs, rfl, fuel, hdrive⟩
  · exact absurd hs (Nat.not_succ_le_zero 0)
  · exact .inl ⟨rfl, rfl, .inl rfl⟩
  · cases fuel with
    | zero => exact absurd (congrArg Prod.fst hdrive) (hq _)
    | succ fuel => exact .inr ⟨x, xs, rfl, fuel, hdrive⟩

theorem Heading.finished {r : Received} {s : Bytes} {after : List Bytes}
    (h : Heading (.done r) s after) :
    ∃ x xs, after = x :: xs ∧ r = .frozen (decode (escape x)) ∧ s = 3 :: xs.flatMap sendData := by
  rcases h with ⟨-, h, -⟩ | ⟨x, xs, rfl, fuel, hdrive⟩
  · cases h
  · rw [Scan.drive_done] at hdrive
    obtain ⟨hr, hs⟩ := Prod.mk.inj hdrive
    exact ⟨x, xs, rfl, Scan.done.inj hr, hs⟩

/-! ### The run -/

section
variable {M : Type} {thaw : Bytes → Option M} {frames : List Bytes}

/-- What is left to read, wherever it is held. -/
def Conn.left (c : Conn M) : Bytes := c.handle ++ c.kernel ++ c.wire

variable (thaw frames) in
/-- `before` have been passed on, and the loop stands in front of `after`. -/
structure Conn.Between (c : Conn M) (before after : List Bytes) : Prop where
  sent : frames = before ++ after
  isOpen : c.isOpen
  passed : c.passed.map some = before.map (alone thaw)
  select : c.point = .select →
    (c.left = after.flatMap sendData ∨ c.left = 3 :: after.flatMap sendData) ∧
      (c.kernel = [] → complete frames (c.arrived frames) = before)
  receiving : ∀ q, c.point = .receiving q → Heading q c.left after

variable (thaw frames) in
/-- What every run keeps whose steps find what they ask for. -/
def Conn.Kept (c : Conn M) : Prop := c.point = .died ∨ ∃ before after, c.Between thaw frames before after

theorem Conn.Kept.faithful {c : Conn M} (h : c.Kept thaw frames) : c.Faithful thaw frames := by
  intro hselect hkernel
  rcases h with hdied | ⟨before, after, h⟩
  · rw [hselect] at hdied
    cases hdied
  · rw [(h.select hselect).2 hkernel]
    exact ⟨h.isOpen, h.passed⟩

theorem kept_arrive {c : Conn M} {n : Nat} {before after : List Bytes}
    (h : c.Between thaw frames before after) :
    Conn.Between thaw frames
      {c with wire := c.wire.drop n, kernel := c.kernel ++ c.wire.take n} before after := by
  have hleft : c.handle ++ (c.kernel ++ c.wire.take n) ++ c.wire.drop n = c.left := by
    rw [Conn.left, List.append_assoc, List.append_assoc, List.take_append_drop,
      ← List.append_assoc]
  refine ⟨h.sent, h.isOpen, h.passed, fun hselect => ⟨?_, fun hkernel => ?_⟩, fun q hq => ?_⟩
  · rw [Conn.left, hleft]
    exact (h.select hselect).1
  · -- nothing is there only if nothing has come
    obtain ⟨hold, htake⟩ := List.append_eq_nil_iff.mp hkernel
    rw [← (h.select hselect).2 hold, Conn.arrived, Conn.arrived]
    rcases List.take_eq_nil_iff.mp htake with rfl | hwire
    · rfl
    · rw [hwire, List.drop_nil]
  · rw [Conn.left, hleft]
    exact h.receiving q hq

theorem kept_read {c : Conn M} {q : Scan} {before after : List Bytes}
    (hq : c.point = .receiving q) (hdone : ∀ r, q ≠ .done r)
    (hfound : q.want ≤ c.handle.length + c.kernel.length) (h : c.Between thaw frames before after) :
    Conn.Between thaw frames
      {(c.read q.want).2 with point := .receiving (q.feed (c.read q.want).1)} before after := by
  obtain ⟨a, k, hread, hrest⟩ := c.read_found hfound
  rw [hread]
  refine ⟨h.sent, h.isOpen, h.passed, (by rintro ⟨⟩), ?_⟩
  rintro q' ⟨⟩
  have hlen : q.want ≤ (c.handle ++ c.kernel).length := by rwa [List.length_append]
  have hheading := (h.receiving q hq).read hdone (by
    rw [Conn.left, List.length_append]
    omega)
  rwa [Conn.left, List.take_append_of_le_length hlen, List.drop_append_of_le_length hlen,
    ← hrest] at hheading

variable (hsize : ∀ x ∈ frames, (escape x).length < 2 ^ 32)
include hsize

theorem kept_ready {c : Conn M} {before after : List Bytes} (hselect : c.point = .select)
    (h : c.Between thaw frames before after) :
    Conn.Between thaw frames {c with point := .receiving .noZero} before after := by
  refine ⟨h.sent, h.isOpen, h.passed, (by rintro ⟨⟩), ?_⟩
  rintro q ⟨⟩
  exact heading_start (fun x hx => hsize x (h.sent ▸ List.mem_append_right before hx))
    (h.select hselect).1

theorem kept_finish {c : Conn M} {r : Received} {before after : List Bytes}
    (hr : c.point = .receiving (.done r)) (hfound : c.Found .finish)
    (h : c.Between thaw frames before after) :
    ∃ x xs, r = .frozen (decode (escape x)) ∧ ∀ msg, thaw (decode (escape x)) = some msg →
      Conn.Between thaw frames {c with point := .select, passed := c.passed ++ [msg]}
        (before ++ [x]) xs := by
  obtain ⟨x, xs, rfl, rfl, hleft⟩ := (h.receiving _ hr).finished
  have hsent : frames = before ++ [x] ++ xs := by
    rw [h.sent, List.append_assoc, List.singleton_append]
  refine ⟨x, xs, rfl,
    fun msg hmsg => ⟨hsent, h.isOpen, ?_, fun _ => ⟨.inr hleft, fun hkernel => ?_⟩,
    (by rintro q ⟨⟩)⟩⟩
  · have hx : alone thaw x = some msg := by
      rw [alone_frame thaw
        (hsize x (h.sent ▸ List.mem_append_right before List.mem_cons_self)), hmsg]
    rw [List.map_append, List.map_append, h.passed, List.map_singleton, List.map_singleton, hx]
  · obtain ⟨hetx, hless⟩ := hfound hkernel
    obtain ⟨p, hp⟩ : ∃ p, c.handle = 3 :: p := by
      cases hc : c.handle with
      | nil => rw [hc] at hetx; cases hetx
      | cons b p => rw [hc] at hetx; exact ⟨p, by rw [Option.some.inj hetx]⟩
    rw [hp, List.tail_cons] at hless
    -- behind the frames passed on lies the part of the next one that has arrived
    have hrest : p ++ c.wire = xs.flatMap sendData := by
      rw [Conn.left, hkernel, hp, List.append_nil] at hleft
      exact List.cons.inj hleft |>.2
    have harrived : c.arrived frames = ((before ++ [x]).flatMap sendData).length + p.length := by
      have hlen := congrArg List.length hrest
      rw [List.length_append] at hlen
      rw [Conn.arrived, hsent, List.flatMap_append, List.length_append, ← hlen]
      omega
    have hnone : complete xs p.length = [] :=
      complete_eq_nil (fun y hy => hsize y (hsent ▸ List.mem_append_right _ hy)) hrest hless
    change complete frames (c.arrived frames) = before ++ [x]
    rw [harrived, hsent, complete_append, hnone, List.append_nil]

theorem kept_step (c : Conn M) (e : Event) (c' : Conn M) (h : c.Kept thaw frames)
    (hfound : c.Found e) (hstep : c.step thaw e = some c') : c'.Kept thaw frames := by
  obtain hdied | ⟨before, after, h⟩ := h
  · -- nothing but bytes arriving happens after an exception
    cases e with
    | arrive n => cases hstep; exact .inl hdied
    | _ => simp [Conn.step, hdied] at hstep
  cases e with
  | arrive n =>
    cases hstep
    exact .inr ⟨before, after, kept_arrive h⟩
  | ready =>
    obtain ⟨hselect, rfl⟩ := Conn.step_ready hstep
    exact .inr ⟨before, after, kept_ready hsize hselect h⟩
  | read =>
    obtain ⟨q, hq, hdone, rfl⟩ := Conn.step_read hstep
    have hwant : q.want ≤ c.handle.length + c.kernel.length := by
      simpa only [Conn.Found, hq] using hfound
    exact .inr ⟨before, after, kept_read hq hdone hwant h⟩
  | finish =>
    rcases Conn.step_finish hstep with hfailed | ⟨body, hbody, hthaw⟩
    · obtain ⟨x, xs, hr, -⟩ := kept_finish hsize hfailed hfound h
      cases hr
    · obtain ⟨x, xs, hr, hpass⟩ := kept_finish hsize hbody hfound h
      cases hr
      rcases hthaw with ⟨-, hdied⟩ | ⟨msg, hmsg, rfl⟩
      · exact .inl hdied
      · exact .inr ⟨_, xs, hpass msg hmsg⟩

theorem kept_start : (Conn.start frames : Conn M).Kept thaw frames := by
  refine .inr ⟨[], frames, rfl, rfl, rfl, fun _ => ⟨.inl rfl, fun _ => ?_⟩, (by rintro q ⟨⟩)⟩
  have hnone : (Conn.start frames : Conn M).arrived frames = ([] : Bytes).length := Nat.sub_self _
  rw [hnone]
  exact complete_eq_nil hsize rfl (by decide)

end

/-- **No segmentation shows while every read finds its bytes.** For any sequence of
frames and any order of arrivals, readiness and reads: if every read finds the
bytes it asks for, and the private buffer holds the end of the frame and less than
another one whenever the kernel has nothing more behind a body, then in every state
reached in which the loop is idle and the kernel buffer empty the frames received
so far have been passed on, in order, and the connection is open. -/
theorem faithful_of_found {M : Type} (thaw : Bytes → Option M) {frames : List Bytes}
    (hsize : ∀ x ∈ frames, (escape x).length < 2 ^ 32) {events : List Event}
    (hfound : Runs.Meets (Conn.step thaw) Conn.Found (Conn.start frames) events) {c : Conn M}
    (hrun : Runs.run (Conn.step thaw) (Conn.start frames) events = some c) :
    c.Faithful thaw frames :=
  (Runs.meets_invariant (kept_step hsize) (kept_start hsize) hfound hrun).faithful

namespace Sample

/-- `FrT;@1|$1|` and the byte: the frozen form of a string of one character. -/
def frozen (b : UInt8) : Bytes := [70, 114, 84, 59, 64, 49, 124, 36, 49, 124, b]

/-- `thaw` of such a form. -/
def thaw (x : Bytes) : Option UInt8 :=
  match x.drop 10 with
  | [b] => if x = frozen b then some b else none
  | _ => none

def frames : List Bytes := [frozen 97, frozen 98]

/-- `receiveData` with this many reads, from the answer of `select` to its return. -/
def receive (reads : Nat) : List Event := .ready :: (List.replicate reads .read ++ [.finish])

def inTime : List Event :=
  .arrive 20 :: receive 6 ++ .arrive 7 :: .arrive 13 :: receive 7

end Sample

/-- Two frames, the second one in two segments, both there when the loop reads. -/
theorem faithful_of_found_frames : ∃ c,
    Runs.run (Conn.step Sample.thaw) (.start Sample.frames) Sample.inTime = some c ∧
      c.Faithful Sample.thaw Sample.frames := by
  obtain ⟨c, h⟩ := Option.isSome_iff_exists.mp (by decide :
    (Runs.run (Conn.step Sample.thaw) (.start Sample.frames) Sample.inTime).isSome)
  exact ⟨c, h, faithful_of_found Sample.thaw (by decide) (by decide) h⟩

/-- Of two frames in one segment the second one stays in the private buffer, where
`select` does not see it. A frame whose last byte comes in a segment of its own
closes the connection. -/
theorem segments_show :
    (∃ c, Runs.run (Conn.step Sample.thaw) (.start Sample.frames)
        (.arrive 40 :: Sample.receive 6) = some c ∧ c.point = .select ∧ c.kernel = [] ∧
      complete Sample.frames (c.arrived Sample.frames) = Sample.frames ∧ c.passed = [97] ∧
      ¬ c.Faithful Sample.thaw Sample.frames) ∧
    (∃ c, Runs.run (Conn.step Sample.thaw) (.start Sample.frames)
        (.arrive 19 :: Sample.receive 6 ++ .arrive 1 :: Sample.receive 2) = some c ∧
      c.point = .select ∧ c.kernel = [] ∧ c.isOpen = false ∧
      ¬ c.Faithful Sample.thaw Sample.frames) := by
  refine ⟨⟨_, rfl, by decide⟩, ⟨_, rfl, by decide⟩⟩

end VleoNotebook.Mess.MessageTransport
