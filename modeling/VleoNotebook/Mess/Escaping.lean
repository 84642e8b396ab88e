import VleoNotebook.Mess.Frame

/-! Escaping and un-escaping, and the frame's round trip.

The escape scan takes `00 00 c` with `c ≤ 3` at a time (`escape_hit`,
`escape_copy`, `scan_induction`). Un-escaping restores everything except a byte
`03` that follows a run of zeros of which the scan leaves one over, a run of
length 4, 7, 10, ...: there the escaped form reads `00 00 03 00 00 03` and both
`03` are taken out (`Swallowed`). `receiveData` then also drops a final `03`. -/
namespace VleoNotebook.Mess.MessageTransport

open Perl (Regex Cursor)

/-! ### The scan -/

/-- The escape pattern matches in front of `x`. -/
def Hit (x : Bytes) : Prop := ∃ c r, c ≤ 3 ∧ x = 0 :: 0 :: c :: r

theorem first_escape_hit (b : Bool) (c : UInt8) (r : Bytes) (hc : c ≤ 3) :
    Regex.first escapePattern b (0 :: 0 :: c :: r) = some ⟨false, r, [(1, [c])]⟩ := by
  have hc' : c = 0 ∨ c = 1 ∨ c = 2 ∨ c = 3 := by
    have := UInt8.le_iff_toNat_le.mp hc
    simp only [← UInt8.toNat_inj]
    simp only [UInt8.reduceToNat] at this ⊢
    omega
  rcases hc' with rfl | rfl | rfl | rfl <;>
    simp [Regex.first, escapePattern]

theorem first_escape_miss (b : Bool) (x : Bytes) (h : ¬ Hit x) :
    Regex.first escapePattern b x = none := by
  match x with
  | [] => simp [Regex.first, escapePattern]
  | [a] =>
    by_cases ha : a = 0 <;>
      simp [Regex.first, escapePattern, ha]
  | [a, a'] =>
    by_cases ha : a = 0 <;> by_cases ha' : a' = 0 <;>
      simp [Regex.first, escapePattern, ha, ha']
  | a :: a' :: c :: r =>
    by_cases ha : a = 0
    · by_cases ha' : a' = 0
      · subst ha ha'
        have hc : ¬ c ≤ 3 := fun hc => h ⟨c, r, hc, rfl⟩
        have h0 : c ≠ 0 := by rintro rfl; exact hc (by decide)
        have h1 : c ≠ 1 := by rintro rfl; exact hc (by decide)
        have h2 : c ≠ 2 := by rintro rfl; exact hc (by decide)
        have h3 : c ≠ 3 := by rintro rfl; exact hc (by decide)
        simp [Regex.first, escapePattern, h0, h1, h2, h3]
      · simp [Regex.first, escapePattern, ha, ha']
    · simp [Regex.first, escapePattern, ha]

theorem first_escape_start (x : Bytes) :
    Regex.first escapePattern true x = Regex.first escapePattern false x := by
  by_cases h : Hit x
  · obtain ⟨c, r, hc, rfl⟩ := h
    rw [first_escape_hit _ _ _ hc, first_escape_hit _ _ _ hc]
  · rw [first_escape_miss _ _ h, first_escape_miss _ _ h]

theorem escape_nil : escape [] = [] := rfl

theorem escape_hit (c : UInt8) (r : Bytes) (hc : c ≤ 3) :
    escape (0 :: 0 :: c :: r) = 0 :: 0 :: 3 :: c :: escape r := by
  unfold escape Regex.gsub
  rw [Regex.gsubFrom_match _ _ (first_escape_hit true c r hc) (by simp; omega),
    Regex.gsubFrom_start _ _ first_escape_start]
  rfl

theorem escape_copy (a : UInt8) (r : Bytes) (h : ¬ Hit (a :: r)) :
    escape (a :: r) = a :: escape r := by
  unfold escape Regex.gsub
  rw [Regex.gsubFrom_skip _ _ (first_escape_miss true _ h),
    Regex.gsubFrom_start _ _ first_escape_start]
  rfl

/-- Induction along the escape scan. -/
theorem scan_induction {P : Bytes → Prop} (nil : P [])
    (hit : ∀ c r, c ≤ 3 → P r → P (0 :: 0 :: c :: r))
    (copy : ∀ a r, ¬ Hit (a :: r) → P r → P (a :: r)) (x : Bytes) : P x := by
  induction hn : x.length using Nat.strongRecOn generalizing x with
  | _ n ih =>
    by_cases h : Hit x
    · obtain ⟨c, r, hc, rfl⟩ := h
      exact hit c r hc (ih r.length (by rw [← hn]; simp; omega) r rfl)
    · cases x with
      | nil => exact nil
      | cons a r => exact copy a r h (ih r.length (by rw [← hn]; simp) r rfl)

/-- The escaped form is longer by a third at most, so never twice as long. -/
theorem escape_length_le (x : Bytes) : (escape x).length ≤ 2 * x.length := by
  induction x using scan_induction with
  | nil => exact Nat.le_refl 0
  | hit c r hc ih =>
    rw [escape_hit c r hc]
    simp only [List.length_cons]
    omega
  | copy a r h ih =>
    rw [escape_copy a r h]
    simp only [List.length_cons]
    omega

/-! ### Un-escaping -/

theorem first_unescape (b : Bool) (x : Bytes) :
    Regex.first (.lit [0, 0, 3]) b x =
      match x with
      | a :: a' :: c :: r => if a = 0 ∧ a' = 0 ∧ c = 3 then some ⟨false, r, []⟩ else none
      | _ => none := by
  match x with
  | [] => simp [Regex.first]
  | [a] => by_cases ha : a = 0 <;> simp [Regex.first, ha]
  | [a, a'] =>
    by_cases ha : a = 0 <;> by_cases ha' : a' = 0 <;> simp [Regex.first, ha, ha']
  | a :: a' :: c :: r =>
    by_cases ha : a = 0 <;> by_cases ha' : a' = 0 <;> by_cases hc : c = 3 <;>
      simp [Regex.first, ha, ha', hc]

theorem first_unescape_start (x : Bytes) :
    Regex.first (.lit [0, 0, 3]) true x = Regex.first (.lit [(0 : UInt8), 0, 3]) false x := by
  rw [first_unescape, first_unescape]

theorem unescape_hit (r : Bytes) : unescape (0 :: 0 :: 3 :: r) = 0 :: 0 :: unescape r := by
  unfold unescape Regex.gsub
  rw [Regex.gsubFrom_match _ _ (d := ⟨false, r, []⟩)
    (by simp only [first_unescape, and_self, if_true])
      (by simp; omega),
    Regex.gsubFrom_start _ _ first_unescape_start]
  rfl

theorem unescape_copy (a : UInt8) (r : Bytes) (h : ¬ ∃ t, a :: r = 0 :: 0 :: 3 :: t) :
    unescape (a :: r) = a :: unescape r := by
  have hfirst : Regex.first (.lit [0, 0, 3]) true (a :: r) = none := by
    rw [first_unescape]
    match r with
    | [] | [_] => rfl
    | a' :: c :: t =>
      refine if_neg ?_
      rintro ⟨rfl, rfl, rfl⟩
      exact h ⟨t, rfl⟩
  unfold unescape Regex.gsub
  rw [Regex.gsubFrom_skip _ _ hfirst, Regex.gsubFrom_start _ _ first_unescape_start]
  rfl

theorem unescape_copy_of_ne {a : UInt8} (ha : a ≠ 0) (r : Bytes) :
    unescape (a :: r) = a :: unescape r :=
  unescape_copy a r fun ⟨_, h⟩ => ha (List.cons.inj h).1

/-! ### What the round trip through both substitutions loses -/

/-- A run of `3 k + 1` zeros, `k ≥ 1`, with no zero in front of it and the byte
`03` behind it. -/
def Swallowed (x : Bytes) : Prop :=
  ∃ front k rest, 1 ≤ k ∧ x = front ++ List.replicate (3 * k + 1) 0 ++ 3 :: rest ∧
    front.getLast? ≠ some 0

/-- The same with any byte `e` behind it: the escape scan leaves one zero over in front
of `e`. -/
def LeftOver (e : UInt8) (x : Bytes) : Prop :=
  ∃ front k rest, 1 ≤ k ∧ x = front ++ List.replicate (3 * k + 1) 0 ++ e :: rest ∧
    front.getLast? ≠ some 0

section LeftOver
variable {e : UInt8}

theorem leftOver_hit_zero (r : Bytes) :
    LeftOver e (0 :: 0 :: 0 :: r) ↔ (∃ t, r = 0 :: e :: t) ∨ LeftOver e r := by
  constructor
  · rintro ⟨front, k, rest, hk, hx, hlast⟩
    match front with
    | [] =>
      obtain ⟨k, rfl⟩ := Nat.exists_eq_add_of_le' hk
      have hr : r = List.replicate (3 * k + 1) 0 ++ e :: rest := by
        simpa [Nat.mul_add, List.replicate_succ] using hx
      cases k with
      | zero => exact .inl ⟨rest, by simpa using hr⟩
      | succ k => exact .inr ⟨[], k + 1, rest, by omega, by simpa using hr, by simp⟩
    | [a] =>
      simp at hx hlast
      exact absurd hx.1.symm hlast
    | [a, b] =>
      simp at hx hlast
      exact absurd hx.2.1.symm hlast
    | [a, b, c] =>
      simp at hx hlast
      exact absurd hx.2.2.1.symm hlast
    | a :: b :: c :: d :: front =>
      simp only [List.cons_append, List.cons.injEq] at hx
      obtain ⟨rfl, rfl, rfl, rfl⟩ := hx
      exact .inr ⟨d :: front, k, rest, hk, by simp, by simpa using hlast⟩
  · rintro (⟨t, rfl⟩ | ⟨front, k, rest, hk, rfl, hlast⟩)
    · exact ⟨[], 1, t, Nat.le_refl 1, rfl, by simp⟩
    · cases front with
      | nil =>
        refine ⟨[], k + 1, rest, by omega, ?_, by simp⟩
        simp [Nat.mul_add, List.replicate_succ]
      | cons d front =>
        exact ⟨0 :: 0 :: 0 :: d :: front, k, rest, hk, by simp, by simpa using hlast⟩

theorem leftOver_cons_of_ne {c : UInt8} (hc : c ≠ 0) (r : Bytes) :
    LeftOver e (c :: r) ↔ LeftOver e r := by
  constructor
  · rintro ⟨front, k, rest, hk, hx, hlast⟩
    cases front with
    | nil =>
      simp only [List.nil_append, List.replicate_succ, List.cons_append, List.cons.injEq] at hx
      exact absurd hx.1 hc
    | cons a front =>
      simp only [List.cons_append, List.cons.injEq] at hx
      refine ⟨front, k, rest, hk, hx.2, ?_⟩
      cases front with
      | nil => simp
      | cons b front => simpa using hlast
  · rintro ⟨front, k, rest, hk, rfl, hlast⟩
    refine ⟨c :: front, k, rest, hk, by simp, ?_⟩
    cases front with
    | nil => simpa using hc
    | cons b front => simpa using hlast

/-- A zero the scan copies starts no such run. -/
theorem leftOver_zero_cons (r : Bytes) (h : ¬ Hit (0 :: r)) :
    LeftOver e (0 :: r) ↔ LeftOver e r := by
  constructor
  · rintro ⟨front, k, rest, hk, hx, hlast⟩
    match front with
    | [] =>
      obtain ⟨k, rfl⟩ := Nat.exists_eq_add_of_le' hk
      refine absurd ⟨0, List.replicate (3 * k + 1) 0 ++ e :: rest, by decide, ?_⟩ h
      rw [hx]
      simp [Nat.mul_add, List.replicate_succ]
    | [a] => simp_all
    | a :: b :: front =>
      simp only [List.cons_append, List.cons.injEq] at hx
      exact ⟨b :: front, k, rest, hk, by simpa using hx.2, by simpa using hlast⟩
  · rintro ⟨front, k, rest, hk, rfl, hlast⟩
    cases front with
    | nil =>
      obtain ⟨k, rfl⟩ := Nat.exists_eq_add_of_le' hk
      refine absurd ⟨0, 0 :: List.replicate (3 * k + 1) 0 ++ e :: rest, by decide, ?_⟩ h
      simp [Nat.mul_add, List.replicate_succ]
    | cons b front => exact ⟨0 :: b :: front, k, rest, hk, by simp, by simpa using hlast⟩

theorem leftOver_copy (a : UInt8) (r : Bytes) (h : ¬ Hit (a :: r)) :
    LeftOver e (a :: r) ↔ LeftOver e r := by
  by_cases ha : a = 0
  · subst ha
    exact leftOver_zero_cons r h
  · exact leftOver_cons_of_ne ha r

theorem leftOver_hit_of_ne {c : UInt8} (hc : c ≠ 0) (r : Bytes) :
    LeftOver e (0 :: 0 :: c :: r) ↔ LeftOver e r := by
  constructor
  · rintro ⟨front, k, rest, hk, hx, hlast⟩
    match front with
    | [] =>
      obtain ⟨k, rfl⟩ := Nat.exists_eq_add_of_le' hk
      simp [Nat.mul_add, List.replicate_succ] at hx
      exact absurd hx.1 hc
    | [a] =>
      simp at hx hlast
      exact absurd hx.1.symm hlast
    | [a, b] =>
      simp at hx hlast
      exact absurd hx.2.1.symm hlast
    | a :: b :: d :: front =>
      simp only [List.cons_append, List.cons.injEq] at hx
      obtain ⟨rfl, rfl, rfl, hx⟩ := hx
      exact (leftOver_cons_of_ne hc r).mp
        ⟨c :: front, k, rest, hk, by simp [hx], by simpa using hlast⟩
  · intro h
    obtain ⟨front, k, rest, hk, hx, hlast⟩ := (leftOver_cons_of_ne hc r).mpr h
    cases front with
    | nil =>
      simp only [List.nil_append, List.replicate_succ, List.cons_append, List.cons.injEq] at hx
      exact absurd hx.1 hc
    | cons a front => exact ⟨0 :: 0 :: a :: front, k, rest, hk, by simp [hx], by simpa using hlast⟩

end LeftOver

/-- A first copied `0` reads on as `03` behind it only where the plain text does. -/
theorem escape_eq_zero_etx {r t : Bytes} (h : escape r = 0 :: 3 :: t) :
    ∃ r', r = 0 :: 3 :: r' ∧ t = escape r' := by
  by_cases hr : Hit r
  · obtain ⟨c, r', hc, rfl⟩ := hr
    rw [escape_hit c r' hc] at h
    simp at h
  · cases r with
    | nil => simp [escape_nil] at h
    | cons a r' =>
      rw [escape_copy a r' hr] at h
      obtain ⟨ha, htail⟩ := List.cons.inj h
      by_cases hr' : Hit r'
      · obtain ⟨c, r'', hc, rfl⟩ := hr'
        rw [escape_hit c r'' hc] at h
        simp at h
      · cases r' with
        | nil => simp [escape_nil] at htail
        | cons b r'' =>
          rw [escape_copy b r'' hr'] at htail
          obtain ⟨hb, hrest⟩ := List.cons.inj htail
          exact ⟨r'', by rw [ha, hb], hrest.symm⟩

theorem escape_zero_etx (r : Bytes) : escape (0 :: 3 :: r) = 0 :: 3 :: escape r := by
  rw [escape_copy 0 (3 :: r) (by rintro ⟨c, t, -, h⟩; simp at h),
    escape_copy 3 r (by rintro ⟨c, t, -, h⟩; simp at h)]

theorem unescape_zero_etx (r : Bytes) : unescape (0 :: 3 :: r) = 0 :: 3 :: unescape r := by
  rw [unescape_copy 0 (3 :: r) (by rintro ⟨t, h⟩; simp at h),
    unescape_copy_of_ne (by decide)]

/-- What un-escaping the escaped form gives: the text itself, or less of it. -/
def Restores (x : Bytes) : Prop :=
  (¬ Swallowed x → unescape (escape x) = x) ∧
    (Swallowed x → (unescape (escape x)).length < x.length)

theorem Restores.length_le {x : Bytes} (h : Restores x) :
    (unescape (escape x)).length ≤ x.length := by
  by_cases hx : Swallowed x
  · exact Nat.le_of_lt (h.2 hx)
  · exact Nat.le_of_eq (congrArg List.length (h.1 hx))

theorem restores_hit {c : UInt8} {r : Bytes} (hc : c ≤ 3) (ih : Restores r) :
    Restores (0 :: 0 :: c :: r) := by
  by_cases h0 : c = 0
  · subst h0
    by_cases hr : ∃ t, r = 0 :: 3 :: t
    · -- the last zero of the triple and the next two bytes look escaped
      obtain ⟨t, rfl⟩ := hr
      have hU : unescape (escape (0 :: 0 :: 0 :: 0 :: 3 :: t)) =
          0 :: 0 :: 0 :: 0 :: unescape (escape t) := by
        rw [escape_hit 0 _ hc, unescape_hit, escape_zero_etx, unescape_hit]
      have hlen := ih.length_le
      rw [escape_zero_etx, unescape_zero_etx] at hlen
      simp only [List.length_cons] at hlen
      refine ⟨fun h => absurd ((leftOver_hit_zero _).mpr (.inl ⟨t, rfl⟩)) h, fun _ => ?_⟩
      rw [hU]
      simp only [List.length_cons]
      omega
    · have hU : unescape (escape (0 :: 0 :: 0 :: r)) = 0 :: 0 :: 0 :: unescape (escape r) := by
        rw [escape_hit 0 _ hc, unescape_hit, unescape_copy]
        rintro ⟨t, ht⟩
        obtain ⟨r', rfl, -⟩ := escape_eq_zero_etx (List.cons.inj ht).2
        exact hr ⟨r', rfl⟩
      have hs : Swallowed (0 :: 0 :: 0 :: r) ↔ Swallowed r :=
        (leftOver_hit_zero r).trans (or_iff_right hr)
      rw [Restores, hU, hs]
      simpa [Restores] using ih
  · have hU : unescape (escape (0 :: 0 :: c :: r)) = 0 :: 0 :: c :: unescape (escape r) := by
      rw [escape_hit c _ hc, unescape_hit, unescape_copy_of_ne h0]
    have hs : Swallowed (0 :: 0 :: c :: r) ↔ Swallowed r := leftOver_hit_of_ne h0 r
    rw [Restores, hU, hs]
    simpa [Restores] using ih

theorem restores_copy {a : UInt8} {r : Bytes} (h : ¬ Hit (a :: r)) (ih : Restores r) :
    Restores (a :: r) := by
  have hU : unescape (escape (a :: r)) = a :: unescape (escape r) := by
    rw [escape_copy a r h, unescape_copy]
    rintro ⟨t, ht⟩
    obtain ⟨ha, htail⟩ := List.cons.inj ht
    obtain ⟨r', rfl, -⟩ := escape_eq_zero_etx htail
    exact h ⟨3, r', by decide, by rw [ha]⟩
  have hs : Swallowed (a :: r) ↔ Swallowed r := leftOver_copy a r h
  rw [Restores, hU, hs]
  simpa [Restores] using ih

theorem restores (x : Bytes) : Restores x := by
  induction x using scan_induction with
  | nil =>
    refine ⟨fun _ => rfl, ?_⟩
    rintro ⟨front, k, rest, -, hx, -⟩
    simp at hx
  | hit c r hc ih => exact restores_hit hc ih
  | copy a r h ih => exact restores_copy h ih

/-- **Un-escaping undoes escaping exactly where no run of zeros swallows a `03`.** -/
theorem unescape_escape_iff (x : Bytes) : unescape (escape x) = x ↔ ¬ Swallowed x := by
  constructor
  · intro h hx
    have hlt := (restores x).2 hx
    rw [h] at hlt
    exact Nat.lt_irrefl _ hlt
  · exact (restores x).1

/-! ### The final `03` -/

/-- The text ends in `03`, or in `03` and a newline. -/
def EndsInEtx (x : Bytes) : Prop := [3] <:+ x ∨ [3, 10] <:+ x

theorem first_final (b : Bool) (x : Bytes) :
    Regex.first (.seq [.lit [3], .eos (· = 10)]) b x =
      match x with
      | [a] => if a = 3 then some ⟨false, [], []⟩ else none
      | [a, a'] => if a = 3 ∧ a' = 10 then some ⟨false, [10], []⟩ else none
      | _ => none := by
  match x with
  | [] => simp [Regex.first]
  | [a] => by_cases ha : a = 3 <;> simp [Regex.first, ha]
  | [a, a'] =>
    by_cases ha : a = 3 <;> by_cases ha' : a' = 10 <;>
      simp [Regex.first, ha, ha']
  | a :: a' :: c :: r =>
    by_cases ha : a = 3 <;> simp [Regex.first, ha]

theorem first_final_start (x : Bytes) :
    Regex.first (.seq [.lit [3], .eos (· = 10)]) true x =
      Regex.first (.seq [.lit [(3 : UInt8)], .eos (· = 10)]) false x := by
  rw [first_final, first_final]

theorem stripFinal_cons {a : UInt8} {x : Bytes} (h : a :: x ≠ [3]) (h' : a :: x ≠ [3, 10]) :
    stripFinal (a :: x) = a :: stripFinal x := by
  refine Regex.sub_skip _ first_final_start ?_
  rw [first_final]
  match x with
  | [] => exact if_neg fun ha => h (by rw [ha])
  | [b] => exact if_neg fun ⟨ha, hb⟩ => h' (by rw [ha, hb])
  | b :: c :: r => rfl

theorem endsInEtx_cons {a : UInt8} {x : Bytes} (h : a :: x ≠ [3]) (h' : a :: x ≠ [3, 10]) :
    EndsInEtx (a :: x) ↔ EndsInEtx x := by
  simp only [EndsInEtx, List.suffix_cons_iff]
  rw [or_iff_right h.symm, or_iff_right h'.symm]

theorem stripFinal_length_le (x : Bytes) : (stripFinal x).length ≤ x.length := by
  induction x with
  | nil => exact Nat.le_refl 0
  | cons a x ih =>
    by_cases h : a :: x = [3]
    · rw [h]
      decide
    · by_cases h' : a :: x = [3, 10]
      · rw [h']
        decide
      · rw [stripFinal_cons h h']
        exact Nat.succ_le_succ ih

theorem stripFinal_eq_iff (x : Bytes) : stripFinal x = x ↔ ¬ EndsInEtx x := by
  induction x with
  | nil => exact ⟨fun _ h => by simp [EndsInEtx] at h, fun _ => rfl⟩
  | cons a x ih =>
    by_cases h : a :: x = [3]
    · rw [h]
      exact ⟨fun h => absurd h (by decide), fun h => absurd (.inl (List.suffix_refl _)) h⟩
    · by_cases h' : a :: x = [3, 10]
      · rw [h']
        exact ⟨fun h => absurd h (by decide), fun h => absurd (.inr (List.suffix_refl _)) h⟩
      · rw [stripFinal_cons h h', endsInEtx_cons h h', ← ih]
        exact ⟨fun h => (List.cons.inj h).2, fun h => by rw [h]⟩

/-- What `receiveData` makes of the escaped form is the text itself exactly where
neither substitution loses a byte. -/
theorem decode_escape_iff (x : Bytes) :
    stripFinal (unescape (escape x)) = x ↔ ¬ Swallowed x ∧ ¬ EndsInEtx x := by
  constructor
  · intro h
    have hle := stripFinal_length_le (unescape (escape x))
    rw [h] at hle
    have hx : ¬ Swallowed x := fun hx => Nat.not_lt_of_ge hle ((restores x).2 hx)
    rw [(restores x).1 hx] at h
    exact ⟨hx, (stripFinal_eq_iff x).mp h⟩
  · rintro ⟨hx, he⟩
    rw [(restores x).1 hx, (stripFinal_eq_iff x).mpr he]

end VleoNotebook.Mess.MessageTransport
