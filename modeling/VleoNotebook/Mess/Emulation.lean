import VleoNotebook.Mess.Escaping

/-! Which triples the escaped form is free of.

The comments in `sendData` promise that `00 00 00`, `00 00 01` and `00 00 02` do not
stay in the text, and that what was put in can be taken out again. The substitution
goes on behind the byte it has copied, so a zero it has just written may begin another
triple: after four zeros in front of a byte up to `03`, and nowhere else
(`emulation_prevented_iff`). The start code `00 00 01` stays in the escaped form only
behind a run of zeros of which the scan leaves one over (`startCode_escape_iff`). -/
namespace VleoNotebook.Mess.MessageTransport

/-! ### Where a triple can lie -/

/-- The first two bytes are never changed. -/
theorem take_two_escape (x : Bytes) : (escape x).take 2 = x.take 2 := by
  by_cases h : Hit x
  · obtain ⟨c, r, hc, rfl⟩ := h
    rw [escape_hit c r hc]
    rfl
  · cases x with
    | nil => rfl
    | cons a r =>
      rw [escape_copy a r h]
      by_cases hr : Hit r
      · obtain ⟨c, t, hc, rfl⟩ := hr
        rw [escape_hit c t hc]
        rfl
      · cases r with
        | nil => rfl
        | cons b t =>
          rw [escape_copy b t hr]
          rfl

theorem prefix_escape_iff (c : UInt8) (x : Bytes) : [0, c] <+: escape x ↔ [0, c] <+: x := by
  rw [List.prefix_iff_eq_take, List.prefix_iff_eq_take, List.length_cons, List.length_singleton,
    take_two_escape]

/-- A triple in the escaped form of a hit begins with the zero that is copied, or behind it. -/
theorem triple_hit {c : UInt8} (hc : c ≠ 3) {b : UInt8} (hb : b ≤ 3) (r : Bytes) :
    [0, 0, c] <:+: escape (0 :: 0 :: b :: r) ↔
      (b = 0 ∧ [0, c] <+: r) ∨ [0, 0, c] <:+: escape r := by
  rw [escape_hit b r hb]
  simp only [List.infix_cons_iff, List.cons_prefix_cons, prefix_escape_iff]
  simp [hc, eq_comm]

theorem triple_copy {c : UInt8} (hc : c ≤ 3) {a : UInt8} {r : Bytes} (h : ¬ Hit (a :: r)) :
    [0, 0, c] <:+: escape (a :: r) ↔ [0, 0, c] <:+: escape r := by
  rw [escape_copy a r h, List.infix_cons_iff, List.cons_prefix_cons, prefix_escape_iff]
  refine or_iff_right ?_
  rintro ⟨rfl, t, rfl⟩
  exact h ⟨c, t, hc, rfl⟩

/-! ### The promise -/

/-- None of the triples the comments name is left. -/
def TripleFree (coded : Bytes) : Prop := ∀ c ∈ [(0 : UInt8), 1, 2], ¬ [0, 0, c] <:+: coded

/-- Four zeros in front of a byte up to `03`. -/
def FourZeros (x : Bytes) : Prop := ∃ c ≤ 3, [0, 0, 0, 0, c] <:+: x

/-- What goes wrong: a triple stays, or a byte is swallowed. -/
def Emulated (x : Bytes) : Prop := (∃ c < 3, [0, 0, c] <:+: escape x) ∨ Swallowed x

theorem tripleFree_iff (coded : Bytes) : TripleFree coded ↔ ¬ ∃ c < 3, [0, 0, c] <:+: coded := by
  have hlt (c : UInt8) : c < 3 ↔ c ∈ [(0 : UInt8), 1, 2] := by
    simp only [UInt8.lt_iff_toNat_lt, List.mem_cons, List.not_mem_nil, or_false, ← UInt8.toNat_inj]
    simp only [UInt8.reduceToNat]
    omega
  simp only [TripleFree, hlt, not_exists, not_and]

theorem emulated_hit {b : UInt8} (hb : b ≤ 3) (r : Bytes) :
    Emulated (0 :: 0 :: b :: r) ↔ (b = 0 ∧ ∃ c ≤ 3, [0, c] <+: r) ∨ Emulated r := by
  have hsplit : (∃ c ≤ 3, [0, c] <+: r) ↔ (∃ c < 3, [0, c] <+: r) ∨ [0, 3] <+: r := by
    simp only [UInt8.le_iff_lt_or_eq, or_and_right, exists_or, exists_eq_left]
  have htriple : (∃ c < 3, [0, 0, c] <:+: escape (0 :: 0 :: b :: r)) ↔
      (b = 0 ∧ ∃ c < 3, [0, c] <+: r) ∨ ∃ c < 3, [0, 0, c] <:+: escape r := by
    have hc (c : UInt8) (h : c < 3) := triple_hit (UInt8.ne_of_lt h) hb r
    constructor
    · rintro ⟨c, h, hin⟩
      exact ((hc c h).mp hin).imp (fun h' => ⟨h'.1, c, h, h'.2⟩) fun h' => ⟨c, h, h'⟩
    · rintro (⟨h0, c, h, hin⟩ | ⟨c, h, hin⟩)
      · exact ⟨c, h, (hc c h).mpr (.inl ⟨h0, hin⟩)⟩
      · exact ⟨c, h, (hc c h).mpr (.inr hin)⟩
  have hswallowed : Swallowed (0 :: 0 :: b :: r) ↔ (b = 0 ∧ [0, 3] <+: r) ∨ Swallowed r := by
    by_cases h0 : b = 0
    · subst h0
      have hprefix : (∃ t, r = 0 :: 3 :: t) ↔ [0, 3] <+: r :=
        exists_congr fun t => eq_comm
      rw [and_iff_right rfl, ← hprefix]
      exact leftOver_hit_zero r
    · rw [or_iff_right fun h => h0 h.1]
      exact leftOver_hit_of_ne h0 r
  rw [Emulated, htriple, hswallowed, or_or_or_comm, ← and_or_left, ← hsplit, Emulated]

theorem emulated_copy {a : UInt8} {r : Bytes} (h : ¬ Hit (a :: r)) :
    Emulated (a :: r) ↔ Emulated r := by
  have hswallowed : Swallowed (a :: r) ↔ Swallowed r := leftOver_copy a r h
  rw [Emulated, Emulated, hswallowed]
  refine or_congr_left (exists_congr fun c => and_congr_right fun hc => ?_)
  exact triple_copy (UInt8.le_of_lt hc) h

theorem fourZeros_hit {b : UInt8} (r : Bytes) :
    FourZeros (0 :: 0 :: b :: r) ↔ (b = 0 ∧ ∃ c ≤ 3, [0, c] <+: r) ∨ FourZeros r := by
  constructor
  · rintro ⟨c, hc, h⟩
    simp only [List.infix_cons_iff, List.cons_prefix_cons] at h
    rcases h with ⟨-, -, rfl, h⟩ | ⟨-, rfl, h⟩ | ⟨rfl, h⟩ | h
    · exact .inl ⟨rfl, c, hc, h⟩
    · -- one zero further on, a zero stands where `c` does
      exact .inl ⟨rfl, 0, by decide, List.IsPrefix.trans ⟨[c], rfl⟩ h⟩
    · exact .inl ⟨rfl, 0, by decide, List.IsPrefix.trans ⟨[0, c], rfl⟩ h⟩
    · exact .inr ⟨c, hc, h⟩
  · rintro (⟨rfl, c, hc, t, rfl⟩ | ⟨c, hc, h⟩)
    · exact ⟨c, hc, [], t, rfl⟩
    · exact ⟨c, hc, h.trans ⟨[0, 0, b], [], by simp⟩⟩

theorem fourZeros_copy {a : UInt8} {r : Bytes} (h : ¬ Hit (a :: r)) :
    FourZeros (a :: r) ↔ FourZeros r := by
  refine exists_congr fun c => and_congr_right fun _ => ?_
  rw [List.infix_cons_iff]
  refine or_iff_right ?_
  rintro ⟨t, ht⟩
  exact h ⟨0, 0 :: c :: t, by decide, ht.symm⟩

theorem emulated_iff (x : Bytes) : Emulated x ↔ FourZeros x := by
  induction x using scan_induction with
  | nil =>
    refine iff_of_false ?_ ?_
    · rintro (⟨c, -, h⟩ | ⟨front, k, rest, -, h, -⟩)
      · simp [escape_nil] at h
      · simp at h
    · rintro ⟨c, -, h⟩
      simp at h
  | hit c r hc ih => rw [emulated_hit hc, fourZeros_hit, ih]
  | copy a r h ih => rw [emulated_copy h, fourZeros_copy h, ih]

/-- **The promise of the comments holds exactly without four zeros in front of a byte up
to `03`.** Then the escaped form has none of the three triples and un-escaping gives the
text back. -/
theorem emulation_prevented_iff (x : Bytes) :
    TripleFree (escape x) ∧ unescape (escape x) = x ↔ ¬ FourZeros x := by
  rw [tripleFree_iff, unescape_escape_iff, ← not_or]
  exact not_congr (emulated_iff x)

/-- Five zeros keep a triple of them; four zeros and a `03` lose the `03`. -/
theorem zeros_emulated :
    let x : Bytes := [70, 114, 84, 59, 64, 49, 124, 36, 53, 124, 0, 0, 0, 0, 0]
    let y : Bytes := [70, 114, 84, 59, 64, 49, 124, 36, 53, 124, 0, 0, 0, 0, 3]
    ¬ (TripleFree (escape x) ∧ unescape (escape x) = x) ∧ [0, 0, 0] <:+: escape x ∧
      unescape (escape y) ≠ y := by
  have hx : [0, 0, 0] <:+:
      escape [70, 114, 84, 59, 64, 49, 124, 36, 53, 124, 0, 0, 0, 0, 0] := by decide
  exact ⟨fun h => h.1 0 (by decide) hx, hx, by decide⟩

/-! ### The start code in the escaped form -/

/-- The escaped form holds a start code where the plain text has a run of `4`, `7`, `10`,
... zeros in front of a `01`. -/
theorem startCode_escape_iff (x : Bytes) : [0, 0, 1] <:+: escape x ↔ LeftOver 1 x := by
  induction x using scan_induction with
  | nil =>
    refine iff_of_false (by simp [escape_nil]) ?_
    rintro ⟨front, k, rest, -, h, -⟩
    simp at h
  | hit c r hc ih =>
    rw [triple_hit (by decide) hc, ih]
    by_cases h0 : c = 0
    · subst h0
      have hprefix : [0, 1] <+: r ↔ ∃ t, r = 0 :: 1 :: t := exists_congr fun t => eq_comm
      rw [and_iff_right rfl, hprefix, leftOver_hit_zero]
    · rw [or_iff_right fun h => h0 h.1, leftOver_hit_of_ne h0]
  | copy a r h ih => rw [triple_copy (by decide) h, ih, leftOver_copy a r h]

/-! ### How long the escaped form is -/

/-- How many triples the escape scan finds. -/
def triples : Bytes → Nat
  | a :: b :: c :: r => if a = 0 ∧ b = 0 ∧ c ≤ 3 then triples r + 1 else triples (b :: c :: r)
  | _ => 0

theorem triples_hit {c : UInt8} (hc : c ≤ 3) (r : Bytes) :
    triples (0 :: 0 :: c :: r) = triples r + 1 := by
  rw [triples, if_pos ⟨rfl, rfl, hc⟩]

theorem triples_copy {a : UInt8} {r : Bytes} (h : ¬ Hit (a :: r)) :
    triples (a :: r) = triples r := by
  match r with
  | [] => rfl
  | [b] => rfl
  | b :: c :: r =>
    rw [triples, if_neg]
    rintro ⟨rfl, rfl, hc⟩
    exact h ⟨c, r, hc, rfl⟩

/-- The length of the escaped form. -/
def codedLength (x : Bytes) : Nat := x.length + triples x

theorem length_escape (x : Bytes) : (escape x).length = codedLength x := by
  induction x using scan_induction with
  | nil => rfl
  | hit c r hc ih =>
    rw [escape_hit c r hc, codedLength, triples_hit hc]
    simp only [List.length_cons, ih, codedLength]
    omega
  | copy a r h ih =>
    rw [escape_copy a r h, codedLength, triples_copy h]
    simp only [List.length_cons, ih, codedLength]
    omega

end VleoNotebook.Mess.MessageTransport
