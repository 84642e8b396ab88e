import VleoNotebook.Mess.Emulation
import VleoNotebook.Mess.RoundTrip

/-! Reading on, and reading from the middle.

A call of `receiveData` is a scan for the start code, the length and the body; where
the scan stops and what the body is are read off the machine on its way (`runTo`). The
scan stops behind the first `00 00 01` there is (`runTo_hunt`). From a boundary the
calls therefore read one escaped form after the other and then `-1`
(`receives_frames`). From any other place what looks like a start code may be part of
anything: the length is not escaped at all, and the body not everywhere
(`resyncs_iff`). -/
namespace VleoNotebook.Mess.MessageTransport

/-! ### On the way through a call -/

/-- `fuel` reads on a blocking stream, or as many as lead to a state of this kind. -/
def Scan.runTo (stop : Scan → Bool) : Nat → Scan → Bytes → Scan × Bytes
  | 0, q, s => (q, s)
  | fuel + 1, q, s =>
    if stop q then (q, s) else runTo stop fuel (q.feed (some (s.take q.want))) (s.drop q.want)

/-- The state is the one in front of the length field. -/
def Scan.atLength : Scan → Bool
  | .gotNALstart => true
  | _ => false

/-- The state is the one in front of the body. -/
def Scan.atBody : Scan → Bool
  | .body _ => true
  | _ => false

/-- The start-code scan of a call: where it stops, and what is left to read. -/
def startCode (stream : Bytes) : Scan × Bytes :=
  Scan.runTo Scan.atLength (3 * stream.length + 1) .noZero stream

/-- The `$body` a call reads, before anything is taken out of it, and what is left;
`none` where it returns `-1`. -/
def receiveBody (stream : Bytes) : Option Bytes × Bytes :=
  match Scan.runTo Scan.atBody (3 * stream.length + 1) .noZero stream with
  | (.body packLen, s) => (some (s.take packLen), s.drop packLen)
  | (_, s) => (none, s)

/-- `n` calls one after the other: the bodies, and what is left. -/
def receives : Nat → Bytes → List (Option Bytes) × Bytes
  | 0, s => ([], s)
  | n + 1, s => ((receiveBody s).1 :: (receives n (receiveBody s).2).1,
      (receives n (receiveBody s).2).2)

theorem Scan.drive_eq_runTo (fuel : Nat) (q : Scan) (s : Bytes) :
    drive fuel q s = runTo (fun _ => false) fuel q s := by
  induction fuel generalizing q s with
  | zero => rfl
  | succ fuel ih => exact ih _ _

theorem Scan.runTo_done {stop : Scan → Bool} (fuel : Nat) (r : Received) (s : Bytes) :
    runTo stop fuel (.done r) s = (.done r, s) := by
  induction fuel with
  | zero => rfl
  | succ fuel ih =>
    rw [runTo]
    split
    · rfl
    · exact ih

/-! ### The scan -/

/-- What lies behind the first `00 00 01`, when `zeros` zeros lie in front of the text. -/
def hunt : Nat → Bytes → Option Bytes
  | _, [] => none
  | zeros, b :: s =>
    if b = 0 then hunt (min (zeros + 1) 2) s
    else if b = 1 ∧ zeros = 2 then some s
    else hunt 0 s

/-- How many zeros the scan has read last, at most two. -/
def Scan.zeros : Scan → Option Nat
  | .noZero => some 0
  | .second => some 1
  | .third _ | .leadingZeros => some 2
  | .gotNALstart | .body _ | .done _ => none

/-- One more byte: the scan is over, or goes on with the zeros it has now. -/
theorem Scan.feed_cons {q : Scan} {z : Nat} (hq : q.zeros = some z) (b : UInt8) :
    q.want = 1 ∧ 1 ≤ q.rank ∧
      if b = 1 ∧ z = 2 then q.feed (some [b]) = .gotNALstart
      else (q.feed (some [b])).zeros = some (if b = 0 then min (z + 1) 2 else 0) := by
  cases q with
  | noZero | second | third o | leadingZeros =>
    obtain rfl := Option.some.inj hq
    refine ⟨rfl, by simp [rank], ?_⟩
    by_cases hb : b = 0
    · subst hb
      rw [if_neg fun h => absurd h.1 (by decide), if_pos rfl]
      rfl
    · by_cases hb' : b = 1
      · subst hb'
        rfl
      · rw [if_neg fun h => hb' h.1, if_neg hb]
        simp only [feed, unpackC, List.head?_cons, if_neg hb, if_neg hb', zeros]
  | _ => cases hq

theorem Scan.rank_le (q : Scan) : q.rank ≤ 3 := by
  cases q <;> simp [rank]

/-- At the end of the stream the scan fails, after a read or two. -/
theorem Scan.runTo_end {stop : Scan → Bool}
    (hstop : ∀ q : Scan, q.zeros.isSome → stop q = false)
    {q : Scan} {z fuel : Nat} (hq : q.zeros = some z) (hfuel : q.rank ≤ fuel) :
    runTo stop fuel q [] = (.done .failed, []) := by
  have hone {q : Scan} {fuel : Nat} (hq : q.zeros.isSome) :
      runTo stop (fuel + 1) q [] = runTo stop fuel (q.feed (some [])) [] := by
    rw [runTo, hstop q hq]
    simp
  cases q with
  | noZero | leadingZeros =>
    obtain ⟨fuel, rfl⟩ := Nat.exists_eq_add_of_le' hfuel
    simp only [rank, hone (q := .noZero) rfl, hone (q := .leadingZeros) rfl, feed, runTo_done]
  | second =>
    obtain ⟨fuel, rfl⟩ := Nat.exists_eq_add_of_le' hfuel
    simp only [rank, hone (q := .second) rfl, hone (q := .third none) rfl,
      hone (q := .leadingZeros) rfl, feed, unpackC, List.head?_nil, runTo_done]
  | third o =>
    obtain ⟨fuel, rfl⟩ := Nat.exists_eq_add_of_le' hfuel
    simp only [rank, hone (q := .third o) rfl, hone (q := .leadingZeros) rfl, feed, unpackC,
      List.head?_nil, runTo_done]
  | _ => cases hq

/-- **The scan stops behind the first start code.** Each byte up to there is one read. -/
theorem Scan.runTo_hunt {stop : Scan → Bool}
    (hstop : ∀ q : Scan, q.zeros.isSome → stop q = false)
    {q : Scan} {z fuel : Nat} {s : Bytes} (hq : q.zeros = some z)
    (hfuel : 3 * s.length + q.rank ≤ fuel) :
    match hunt z s with
    | some rest => ∃ n, fuel + rest.length = n + s.length ∧
        runTo stop fuel q s = runTo stop n .gotNALstart rest
    | none => runTo stop fuel q s = (.done .failed, []) := by
  induction s generalizing q z fuel with
  | nil => exact runTo_end hstop hq (by simpa using hfuel)
  | cons b s ih =>
    obtain ⟨hwant, hpos, hfeed⟩ := feed_cons hq b
    obtain ⟨fuel, rfl⟩ : ∃ n, fuel = n + 1 := ⟨fuel - 1, by simp at hfuel; omega⟩
    have hstep : runTo stop (fuel + 1) q (b :: s) = runTo stop fuel (q.feed (some [b])) s := by
      rw [runTo, hstop q (by rw [hq]; rfl), hwant]
      rfl
    rw [hunt, hstep]
    by_cases hb : b = 1 ∧ z = 2
    · rw [if_pos hb] at hfeed
      rw [if_neg (by rw [hb.1]; decide), if_pos hb, hfeed]
      exact ⟨fuel, by simp; omega, rfl⟩
    · rw [if_neg hb] at hfeed
      have hrank := (q.feed (some [b])).rank_le
      have hbound : 3 * s.length + (q.feed (some [b])).rank ≤ fuel := by
        simp at hfuel
        omega
      have hrest := ih hfeed hbound
      have hhunt : (if b = 0 then hunt (min (z + 1) 2) s
          else if b = 1 ∧ z = 2 then some s else hunt 0 s) =
          hunt (if b = 0 then min (z + 1) 2 else 0) s := by
        rw [if_neg hb, apply_ite (hunt · s)]
      rw [hhunt]
      cases h : hunt (if b = 0 then min (z + 1) 2 else 0) s with
      | none =>
        rw [h] at hrest
        exact hrest
      | some rest =>
        rw [h] at hrest
        obtain ⟨n, hn, hrun⟩ := hrest
        exact ⟨n, by simp; omega, hrun⟩

theorem Scan.zeros_not_atLength (q : Scan) (h : q.zeros.isSome) : q.atLength = false := by
  cases q <;> first | rfl | cases h

theorem Scan.zeros_not_atBody (q : Scan) (h : q.zeros.isSome) : q.atBody = false := by
  cases q <;> first | rfl | cases h

theorem startCode_hunt (s : Bytes) :
    startCode s = match hunt 0 s with
      | some rest => (.gotNALstart, rest)
      | none => (.done .failed, []) := by
  have hscan := Scan.runTo_hunt Scan.zeros_not_atLength (q := .noZero) rfl
    (Nat.le_refl (3 * s.length + 1))
  unfold startCode
  cases h : hunt 0 s with
  | none =>
    rw [h] at hscan
    exact hscan
  | some rest =>
    rw [h] at hscan
    obtain ⟨n, -, hrun⟩ := hscan
    rw [hrun]
    cases n <;> rfl

/-- Behind the start code come the length and as many bytes. -/
theorem receiveBody_hunt (s : Bytes) :
    receiveBody s = match hunt 0 s with
      | some rest =>
        let packLen := (unpackN (rest.take 4)).getD 0
        (some ((rest.drop 4).take packLen), (rest.drop 4).drop packLen)
      | none => (none, []) := by
  have hscan := Scan.runTo_hunt Scan.zeros_not_atBody (q := .noZero) rfl
    (Nat.le_refl (3 * s.length + 1))
  unfold receiveBody
  cases h : hunt 0 s with
  | none =>
    rw [h] at hscan
    rw [hscan]
  | some rest =>
    rw [h] at hscan
    obtain ⟨n, hn, hrun⟩ := hscan
    obtain ⟨n, rfl⟩ : ∃ m, n = m + 1 := ⟨n - 1, by omega⟩
    have hbody : Scan.runTo Scan.atBody (n + 1) .gotNALstart rest =
        (.body ((unpackN (rest.take 4)).getD 0), rest.drop 4) := by
      cases n <;> rfl
    rw [hrun, hbody]

/-- What a call does with the body it reads. -/
theorem receiveData_body (s : Bytes) :
    receiveData s = match receiveBody s with
      | (some body, rest) => (.done (.frozen (decode body)), rest)
      | (none, rest) => (.done .failed, rest) := by
  have hscan := Scan.runTo_hunt (fun _ _ => rfl) (q := .noZero) rfl
    (Nat.le_refl (3 * s.length + 1))
  rw [receiveBody_hunt, receiveData, Scan.drive_eq_runTo]
  cases h : hunt 0 s with
  | none =>
    rw [h] at hscan
    exact hscan
  | some rest =>
    rw [h] at hscan
    obtain ⟨n, hn, hrun⟩ := hscan
    have hpos : 0 < s.length := List.length_pos_iff.mpr fun hs => by
      rw [hs] at h
      cases h
    obtain ⟨n, rfl⟩ : ∃ m, n = m + 2 := ⟨n - 2, by omega⟩
    rw [hrun]
    exact Scan.runTo_done n _ _

/-! ### From a boundary -/

theorem hunt_frame (x rest : Bytes) :
    hunt 0 (sendData x ++ rest) = some (packN (escape x).length ++ (escape x ++ 3 :: rest)) := by
  have hframe : sendData x ++ rest =
      0 :: 0 :: 0 :: 1 :: (packN (escape x).length ++ (escape x ++ 3 :: rest)) := by
    simp [sendData]
  rw [hframe]
  rfl

/-- A `\003` that is left in front changes nothing. -/
theorem receiveBody_etx (s : Bytes) : receiveBody (3 :: s) = receiveBody s := by
  rw [receiveBody_hunt, receiveBody_hunt]
  rfl

theorem receiveBody_frame (x rest : Bytes) (h : (escape x).length < 2 ^ 32) :
    receiveBody (sendData x ++ rest) = (some (escape x), 3 :: rest) := by
  have htake (s : Bytes) : (packN (escape x).length ++ s).take 4 = packN (escape x).length :=
    List.take_left' (packN_length _)
  have hdrop (s : Bytes) : (packN (escape x).length ++ s).drop 4 = s :=
    List.drop_left' (packN_length _)
  rw [receiveBody_hunt, hunt_frame]
  simp only [htake, hdrop, unpackN_packN h, Option.getD_some, List.take_left, List.drop_left]

theorem receives_end (n : Nat) : receives n [] = (List.replicate n none, []) := by
  induction n with
  | zero => rfl
  | succ n ih =>
    have hnone : receiveBody [] = (none, []) := rfl
    rw [receives, hnone, ih]
    rfl

/-- **From a boundary every body is read, and nothing else.** The calls of `receiveData`
on the frames of a list of messages read their escaped forms, in order; every call after
that returns `-1`. -/
theorem receives_frames (xs : List Bytes) (h : ∀ x ∈ xs, (escape x).length < 2 ^ 32) (n : Nat) :
    receives (xs.length + (n + 1)) (xs.flatMap sendData) =
      (xs.map (fun x => some (escape x)) ++ List.replicate (n + 1) none, []) := by
  -- each call but the first finds the `\003` of the frame before
  suffices hfrom : ∀ s, (s = xs.flatMap sendData ∨ s = 3 :: xs.flatMap sendData) →
      receives (xs.length + (n + 1)) s =
        (xs.map (fun x => some (escape x)) ++ List.replicate (n + 1) none, []) from
    hfrom _ (.inl rfl)
  induction xs with
  | nil =>
    have hnone : receiveBody [3] = (none, []) := rfl
    rintro s (rfl | rfl)
    · rw [List.length_nil, Nat.zero_add]
      exact receives_end (n + 1)
    · rw [List.length_nil, Nat.zero_add, List.flatMap_nil, receives, hnone, receives_end]
      rfl
  | cons x xs ih =>
    have hrest := ih (fun y hy => h y (List.mem_cons_of_mem x hy)) _ (.inr rfl)
    have hbody : ∀ s, (s = (x :: xs).flatMap sendData ∨ s = 3 :: (x :: xs).flatMap sendData) →
        receiveBody s = (some (escape x), 3 :: xs.flatMap sendData) := by
      rintro s (rfl | rfl)
      · exact receiveBody_frame x _ (h x List.mem_cons_self)
      · rw [receiveBody_etx]
        exact receiveBody_frame x _ (h x List.mem_cons_self)
    intro s hs
    have hlen : (x :: xs).length + (n + 1) = xs.length + (n + 1) + 1 := by
      rw [List.length_cons]
      omega
    rw [hlen, receives, hbody s hs, hrest]
    rfl

/-- The frames of two strings, the first with a start code in it, and two calls more. -/
theorem receives_frames_two :
    receives 4 ([[70, 0, 0, 1], [71]].flatMap sendData) =
      ([some (escape [70, 0, 0, 1]), some (escape [71]), none, none], []) :=
  receives_frames [[70, 0, 0, 1], [71]] (by decide) 1

/-! ### From the middle -/

/-- The end of a stream that begins with the length field of a frame. -/
def AtLengthField (xs : List Bytes) (rest : Bytes) : Prop :=
  ∃ front x back, xs = front ++ x :: back ∧
    rest = packN (escape x).length ++ (escape x ++ 3 :: back.flatMap sendData)

/-- Wherever the scan starts, it reaches the end of the stream or stops in front of the
length field of a frame. -/
def Resyncs (xs : List Bytes) : Prop :=
  ∀ k, startCode ((xs.flatMap sendData).drop k) = (.done .failed, []) ∨
    ∃ rest, AtLengthField xs rest ∧
      startCode ((xs.flatMap sendData).drop k) = (.gotNALstart, rest)

theorem suffix_of_hunt {z : Nat} {s rest : Bytes} (h : hunt z s = some rest) :
    0 :: 0 :: 1 :: rest <:+ List.replicate z 0 ++ s := by
  induction s generalizing z with
  | nil => cases h
  | cons b s ih =>
    rw [hunt] at h
    split_ifs at h with hb hstart
    · subst hb
      have hle : min (z + 1) 2 ≤ z + 1 := Nat.min_le_left _ _
      have hzeros : List.replicate z 0 ++ 0 :: s =
          List.replicate (z + 1 - min (z + 1) 2) (0 : UInt8) ++
            (List.replicate (min (z + 1) 2) 0 ++ s) := by
        rw [← List.append_assoc, List.replicate_append_replicate, Nat.sub_add_cancel hle,
          List.replicate_succ', List.append_assoc, List.singleton_append]
      rw [hzeros]
      exact (ih h).trans (List.suffix_append _ _)
    · obtain ⟨rfl, rfl⟩ := hstart
      rw [Option.some.inj h]
      exact List.suffix_rfl
    · exact (ih h).trans ((List.suffix_cons b s).trans (List.suffix_append _ _))

theorem resyncs_iff_suffix (xs : List Bytes) :
    Resyncs xs ↔ ∀ rest, 0 :: 0 :: 1 :: rest <:+ xs.flatMap sendData → AtLengthField xs rest := by
  constructor
  · rintro h rest ⟨front, hfront⟩
    have hhere : startCode ((xs.flatMap sendData).drop front.length) = (.gotNALstart, rest) := by
      rw [← hfront, List.drop_left, startCode_hunt]
      rfl
    rcases h front.length with hend | ⟨rest', hat, hstop⟩
    · rw [hhere] at hend
      cases hend
    · rw [hhere] at hstop
      rwa [(Prod.mk.inj hstop).2]
  · intro h k
    rw [startCode_hunt]
    cases hhunt : hunt 0 ((xs.flatMap sendData).drop k) with
    | none => exact .inl rfl
    | some rest =>
      refine .inr ⟨rest, h rest ?_, rfl⟩
      exact (suffix_of_hunt hhunt).trans (List.drop_suffix k _)

/-! ### One frame -/

/-- A start code in a frame lies in front of the `\003` or behind it. -/
theorem suffix_etx_iff (a s rest : Bytes) :
    0 :: 0 :: 1 :: rest <:+ a ++ 3 :: s ↔
      (∃ r, 0 :: 0 :: 1 :: r <:+ a ∧ rest = r ++ 3 :: s) ∨ 0 :: 0 :: 1 :: rest <:+ s := by
  induction a with
  | nil => simp [List.suffix_cons_iff]
  | cons b a ih =>
    rw [List.cons_append, List.suffix_cons_iff, ih, ← or_assoc]
    refine or_congr_left ?_
    constructor
    · rintro (h | ⟨r, hr, rfl⟩)
      · -- the three bytes are the first of the frame's part
        match a with
        | [] => simp at h
        | [c] => simp at h
        | c :: d :: a =>
          simp only [List.cons_append, List.cons.injEq] at h
          obtain ⟨rfl, rfl, rfl, rfl⟩ := h
          exact ⟨a, List.suffix_rfl, rfl⟩
      · exact ⟨r, hr.trans (List.suffix_cons b a), rfl⟩
    · rintro ⟨r, hr, rfl⟩
      rcases List.suffix_cons_iff.mp hr with h | h
      · obtain ⟨rfl, rfl⟩ := List.cons.inj h
        exact .inl rfl
      · exact .inr ⟨r, h, rfl⟩

theorem atLengthField_cons (x : Bytes) (xs : List Bytes) (rest : Bytes) :
    AtLengthField (x :: xs) rest ↔
      rest = packN (escape x).length ++ escape x ++ 3 :: xs.flatMap sendData ∨
        AtLengthField xs rest := by
  constructor
  · rintro ⟨front, y, back, hxs, rfl⟩
    cases front with
    | nil =>
      obtain ⟨rfl, rfl⟩ := List.cons.inj hxs
      exact .inl (List.append_assoc _ _ _).symm
    | cons z front => exact .inr ⟨front, y, back, (List.cons.inj hxs).2, rfl⟩
  · rintro (rfl | ⟨front, y, back, rfl, rfl⟩)
    · exact ⟨[], x, xs, rfl, List.append_assoc _ _ _⟩
    · exact ⟨x :: front, y, back, rfl, rfl⟩

theorem AtLengthField.length_lt {xs : List Bytes} {rest : Bytes} (h : AtLengthField xs rest) :
    rest.length < (xs.flatMap sendData).length := by
  obtain ⟨front, x, back, rfl, rfl⟩ := h
  simp only [List.flatMap_append, List.flatMap_cons, List.length_append, sendData, List.length_cons,
    List.length_nil]
  omega

/-- The length and the body of a frame, and those of the frames behind it. -/
theorem atLengthField_frame_iff (x : Bytes) (xs : List Bytes) :
    (∀ rest, 0 :: 0 :: 1 :: rest <:+ (x :: xs).flatMap sendData → AtLengthField (x :: xs) rest) ↔
      ¬ [0, 0, 1] <:+: packN (escape x).length ++ escape x ∧
        ∀ rest, 0 :: 0 :: 1 :: rest <:+ xs.flatMap sendData → AtLengthField xs rest := by
  have hstream : (x :: xs).flatMap sendData =
      0 :: 0 :: 0 :: 1 :: (packN (escape x).length ++ escape x ++ 3 :: xs.flatMap sendData) := by
    simp [sendData]
  rw [hstream]
  simp only [atLengthField_cons]
  constructor
  · intro h
    have hlater (rest : Bytes)
        (hrest : 0 :: 0 :: 1 :: rest <:+ packN (escape x).length ++ escape x ++
          3 :: xs.flatMap sendData) :
        rest = packN (escape x).length ++ escape x ++ 3 :: xs.flatMap sendData ∨
          AtLengthField xs rest :=
      h rest (hrest.trans ⟨[0, 0, 0, 1], rfl⟩)
    refine ⟨?_, fun rest hrest => ?_⟩
    · rintro ⟨front, r, hr⟩
      have hsuffix : 0 :: 0 :: 1 :: r <:+ packN (escape x).length ++ escape x :=
        ⟨front, by rw [← hr, List.append_assoc]; rfl⟩
      have hshort := hsuffix.length_le
      -- too late for the length field of this frame, too early for the next one's
      rcases hlater _ ((suffix_etx_iff _ _ _).mpr (.inl ⟨r, hsuffix, rfl⟩)) with heq | hat
      · have hlen := congrArg List.length heq
        simp only [List.length_append, List.length_cons] at hlen hshort
        omega
      · have hlen := hat.length_lt
        simp only [List.length_append, List.length_cons] at hlen
        omega
    · rcases hlater rest ((suffix_etx_iff _ _ _).mpr (.inr hrest)) with heq | hat
      · have hlen := congrArg List.length heq
        have hshort := hrest.length_le
        simp only [List.length_append, List.length_cons] at hlen hshort
        omega
      · exact hat
  · rintro ⟨hclean, hrest⟩ rest h
    simp only [List.suffix_cons_iff, List.cons.injEq] at h
    rcases h with ⟨-, -, h, -⟩ | ⟨-, -, -, rfl⟩ | ⟨-, h, -⟩ | ⟨h, -⟩ | h
    · cases h
    · exact .inl rfl
    · cases h
    · cases h
    · rcases (suffix_etx_iff _ _ _).mp h with ⟨r, hr, -⟩ | h
      · exact absurd (List.IsInfix.trans ⟨[], r, rfl⟩ hr.isInfix) hclean
      · exact .inr (hrest rest h)

theorem resyncs_iff_clean (xs : List Bytes) :
    Resyncs xs ↔ ∀ x ∈ xs, ¬ [0, 0, 1] <:+: packN (escape x).length ++ escape x := by
  rw [resyncs_iff_suffix]
  induction xs with
  | nil => exact iff_of_true (fun rest h => by simp at h) nofun
  | cons x xs ih => rw [atLengthField_frame_iff, ih, List.forall_mem_cons]

/-- A message whose frame holds no start code behind its own: not in the length field, not
across its border to the body, not in the body. -/
structure NoStartCode (x : Bytes) : Prop where
  high : codedLength x / 2 ^ 8 % 2 ^ 24 ≠ 1
  low : codedLength x % 2 ^ 24 ≠ 1
  border_one : codedLength x % 2 ^ 16 = 0 → ¬ [1] <+: x
  border_two : codedLength x % 2 ^ 8 = 0 → ¬ [0, 1] <+: x
  body : ¬ LeftOver 1 x

theorem frame_clean_iff (x : Bytes) :
    ¬ [0, 0, 1] <:+: packN (escape x).length ++ escape x ↔ NoStartCode x := by
  have hone : [1] <+: escape x ↔ [1] <+: x := by
    have htake := congrArg (List.take 1) (take_two_escape x)
    rw [List.take_take, List.take_take] at htake
    rw [List.prefix_iff_eq_take, List.prefix_iff_eq_take]
    exact Eq.congr_right htake
  have hzero (n : Nat) : UInt8.ofNat n = 0 ↔ n % 2 ^ 8 = 0 := by
    rw [← UInt8.toNat_inj, UInt8.toNat_ofNat']
    rfl
  have hunit (n : Nat) : UInt8.ofNat n = 1 ↔ n % 2 ^ 8 = 1 := by
    rw [← UInt8.toNat_inj, UInt8.toNat_ofNat']
    rfl
  have hhigh (n : Nat) : n / 2 ^ 24 % 2 ^ 8 = 0 ∧ n / 2 ^ 16 % 2 ^ 8 = 0 ∧ n / 2 ^ 8 % 2 ^ 8 = 1 ↔
      n / 2 ^ 8 % 2 ^ 24 = 1 := by omega
  have hlow (n : Nat) : n / 2 ^ 16 % 2 ^ 8 = 0 ∧ n / 2 ^ 8 % 2 ^ 8 = 0 ∧ n % 2 ^ 8 = 1 ↔
      n % 2 ^ 24 = 1 := by omega
  have hborder (n : Nat) : n / 2 ^ 8 % 2 ^ 8 = 0 ∧ n % 2 ^ 8 = 0 ↔ n % 2 ^ 16 = 0 := by omega
  rw [length_escape]
  simp only [packN, List.cons_append, List.nil_append, List.infix_cons_iff, List.cons_prefix_cons,
    List.nil_prefix, and_true, startCode_escape_iff, prefix_escape_iff, hone,
    eq_comm (a := (0 : UInt8)), eq_comm (a := (1 : UInt8)), hzero, hunit, hhigh, hlow, not_or]
  rw [← and_assoc (a := codedLength x / 2 ^ 8 % 2 ^ 8 = 0), hborder, not_and, not_and]
  constructor
  · rintro ⟨h1, h2, h3, h4, h5⟩
    exact ⟨h1, h2, h3, h4, h5⟩
  · rintro ⟨h1, h2, h3, h4, h5⟩
    exact ⟨h1, h2, h3, h4, h5⟩

/-- **Exactly the messages whose frames hold no other start code can be joined anywhere.**
From every offset of a stream of frames the scan reaches its end or stops in front of a
length field if and only if the escaped length of each message is not from 256 to 511
and not 1 (in the bytes of the field that count), its beginning does not complete the zeros
the length ends in, and no run of 4, 7, 10, ... zeros in it lies in front of a `01`. -/
theorem resyncs_iff (xs : List Bytes) : Resyncs xs ↔ ∀ x ∈ xs, NoStartCode x := by
  rw [resyncs_iff_clean]
  exact forall₂_congr fun x _ => frame_clean_iff x

/-! ### A long message -/

theorem escape_eq_self {x : Bytes} (h : 0 ∉ x) : escape x = x := by
  induction x with
  | nil => rfl
  | cons a x ih =>
    rw [List.mem_cons, not_or] at h
    rw [escape_copy a x (by rintro ⟨c, r, -, hx⟩; exact h.1 (List.cons.inj hx).1.symm), ih h.2]

/-- The frozen form of a string of 244 letters has 256 bytes: the scan finds the start code
in its length field. -/
theorem long_message_misread :
    let x : Bytes := [70, 114, 84, 59, 64, 49, 124, 36, 50, 52, 52, 124] ++ List.replicate 244 97
    ¬ Resyncs [x] ∧ startCode ((sendData x).drop 4) = (.gotNALstart, 0 :: (x ++ [3])) := by
  intro x
  have hzero : 0 ∉ x := by
    simp only [x, List.mem_append, List.mem_replicate]
    decide
  have hlength : x.length = 256 := by
    rw [List.length_append, List.length_replicate]
    rfl
  clear_value x
  have hframe : (sendData x).drop 4 = 0 :: 0 :: 1 :: 0 :: (x ++ [3]) := by
    have hpack : packN 256 = [0, 0, 1, 0] := rfl
    simp [sendData, escape_eq_self hzero, hlength, hpack]
  have hstop : startCode ((sendData x).drop 4) = (.gotNALstart, 0 :: (x ++ [3])) := by
    rw [hframe, startCode_hunt]
    rfl
  refine ⟨fun h => ?_, hstop⟩
  rw [← List.flatMap_singleton sendData x] at hstop
  rcases h 4 with hend | ⟨rest, hat, hhere⟩
  · rw [hstop] at hend
    cases hend
  · -- three bytes of the length field are gone
    rw [hstop] at hhere
    obtain ⟨-, rfl⟩ := Prod.mk.inj hhere
    rcases (atLengthField_cons _ _ _).mp hat with heq | ⟨front, y, back, hxs, -⟩
    · have hlen := congrArg List.length heq
      simp only [List.length_append, List.length_cons, List.length_nil, escape_eq_self hzero,
        List.flatMap_nil, packN_length] at hlen
      omega
    · simp at hxs

end VleoNotebook.Mess.MessageTransport
