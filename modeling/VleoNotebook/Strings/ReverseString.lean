import VleoNotebook.Lib.Text

/-! Three ways to reverse a string (`reverse_string.pl`).

`reverse1` reverses the list of characters and `reverse2` reads them from the last to the first.
`reverse3` takes them off with a pattern until nothing is left: its dots do not match a newline,
and its test also takes the text `0` for nothing. So it does what the others do if and only if
there is no newline in the text and no `0` at its end (`reverses_iff`). -/
namespace VleoNotebook.Strings

open Perl (Text Regex Cursor)

/-- A value that is a text or undef. -/
abbrev Scalar := Option Text

/-- The text it is read as. -/
def str (v : Scalar) : Text := v.getD []

/-- `if($s)` -/
def truthy (v : Scalar) : Bool := str v != [] && str v != ['0']

/-- `join("",reverse split //,shift)` -/
def reverse1 (s : Text) : Scalar := some (s.map fun c => [c]).reverse.flatten

/-- `substr($s,$offset,1)`, within the text. -/
def substr (s : Text) (offset : Nat) : Text := (s.drop offset).take 1

/-- `for(my $i=0;$i<$l;$i++) { $r .= substr($s,$l-$i-1,1); }` -/
def reverse2 (s : Text) : Scalar :=
  let l := s.length
  (List.range l).foldl (fun r i => some (str r ++ substr s (l - i - 1))) none

/-- What `.` matches. -/
def dot : Regex Char := .sym (· ≠ '\n')

/-- `/(.)(.*)/` -/
def peelPattern : Regex Char := .cat (.group 1 dot) (.group 2 (.star dot))

/-- `($c,$s) = $s =~ /(.)(.*)/`, both undef without a match. -/
def peel (s : Text) : Scalar × Scalar :=
  match (Regex.search peelPattern s).map (·.stop) with
  | some d => (d.cap 1, d.cap 2)
  | none => (none, none)

/-- `reverse3`, for as many calls as there is fuel. -/
def reverse3Aux : Nat → Scalar → Scalar → Option Scalar
  | 0, _, _ => none
  | fuel + 1, s, r =>
    if truthy s then
      let (c, s) := peel (str s)
      reverse3Aux fuel s (some (str c ++ str r))
    else
      some r

/-- `reverse3($s)`: a call for every character and one more are enough (`reverse3_returns`). -/
def reverse3 (s : Text) : Option Scalar := reverse3Aux (s.length + 1) (some s) none

/-! ### The list and the index -/

theorem reverse1_eq (s : Text) : str (reverse1 s) = s.reverse := by
  rw [reverse1, ← List.map_reverse]
  exact List.flatMap_singleton' s.reverse

/-- After `k` turns the last `k` characters are read. -/
theorem reverse2_turns (s : Text) (k : Nat) (hk : k ≤ s.length) :
    str ((List.range k).foldl (fun r i => some (str r ++ substr s (s.length - i - 1))) none) =
      (s.drop (s.length - k)).reverse := by
  induction k with
  | zero =>
    rw [Nat.sub_zero, List.drop_length]
    rfl
  | succ k ih =>
    have hlt : s.length - k - 1 < s.length := by omega
    have hnext : s.length - k - 1 + 1 = s.length - k := by omega
    have hdrop : s.drop (s.length - (k + 1)) = s[s.length - k - 1] :: s.drop (s.length - k) := by
      rw [Nat.sub_add_eq, List.drop_eq_getElem_cons hlt, hnext]
    rw [List.range_succ, List.foldl_append, List.foldl_cons, List.foldl_nil, str, Option.getD_some,
      ih (by omega), hdrop, List.reverse_cons, substr, List.drop_eq_getElem_cons hlt]
    rfl

theorem reverse2_eq (s : Text) : str (reverse2 s) = s.reverse := by
  rw [reverse2, reverse2_turns s s.length (Nat.le_refl _), Nat.sub_self]
  rfl

/-! ### The recursion -/

/-- The run of characters that `.*` takes. -/
def line (s : Text) : Text := s.takeWhile fun c => decide (c ≠ '\n')

theorem line_eq {s : Text} (h : '\n' ∉ s) : line s = s :=
  List.takeWhile_eq_self_iff.mpr fun c hc => by simpa using fun heq : c = '\n' => h (heq ▸ hc)

theorem first_peel {c : Char} (hc : c ≠ '\n') (b : Bool) (s : Text) :
    Regex.first peelPattern b (c :: s) =
      some ⟨false, s.dropWhile fun c => decide (c ≠ '\n'), [(2, line s), (1, [c])]⟩ := by
  have hsym : (Regex.outcomes dot ⟨b, c :: s, []⟩).head? = some ⟨false, s, []⟩ := by
    simp [dot, hc]
  have hone := Regex.head?_outcomes_group 1 hsym
  have hstar :=
    Regex.outcomes_group_star_sym (fun c => decide (c ≠ '\n')) 2 ⟨false, s, [(1, [c])]⟩
  have hlen : (c :: s).take ((c :: s).length - s.length) = [c] := by
    rw [List.length_cons, Nat.add_sub_cancel_left]
    rfl
  rw [hlen] at hone
  exact Regex.head?_outcomes_cat hone hstar

theorem peel_cons {c : Char} (hc : c ≠ '\n') (s : Text) :
    peel (c :: s) = (some [c], some (line s)) := by
  rw [peel, Regex.search_first (first_peel hc true s)]
  rfl

/-- A newline in front is passed over. -/
theorem peel_newline (s : Text) : peel ('\n' :: s) = peel s := by
  have hnone : Regex.first peelPattern true ('\n' :: s) = none := by
    simp [Regex.first, peelPattern, dot]
  have hstart (xs : Text) : Regex.first peelPattern true xs = Regex.first peelPattern false xs := by
    cases xs with
    | nil => rfl
    | cons c xs =>
      by_cases hc : c = '\n'
      · simp [Regex.first, peelPattern, dot, hc]
      · rw [first_peel hc, first_peel hc]
  rw [peel, peel, Regex.search, Regex.stop_searchFrom_skip hnone,
    Regex.searchFrom_start hstart false s]

/-- What is taken off a text is one character of it or none, and not a newline. -/
theorem peel_cases (s : Text) :
    peel s = (none, none) ∨ ∃ c t, c ≠ '\n' ∧ t.length < s.length ∧
      peel s = (some [c], some t) := by
  induction s with
  | nil => exact Or.inl rfl
  | cons c s ih =>
    by_cases hc : c = '\n'
    · rw [hc, peel_newline]
      refine ih.imp_right ?_
      intro ⟨d, t, hd, ht, hpeel⟩
      exact ⟨d, t, hd, Nat.lt_succ_of_lt ht, hpeel⟩
    · refine Or.inr ⟨c, line s, hc, Nat.lt_succ_of_le ?_, peel_cons hc s⟩
      exact (List.takeWhile_sublist _).length_le

/-- `reverse3` returns, with a text that has no newline in it. -/
theorem reverse3_returns (fuel : Nat) (s r : Scalar) (hfuel : (str s).length < fuel)
    (hr : '\n' ∉ str r) : ∃ v, reverse3Aux fuel s r = some v ∧ '\n' ∉ str v := by
  induction fuel generalizing s r with
  | zero => exact absurd hfuel (Nat.not_lt_zero _)
  | succ fuel ih =>
    rw [reverse3Aux]
    split
    next htruthy =>
      obtain hpeel | ⟨c, t, hc, ht, hpeel⟩ := peel_cases (str s)
      · rw [hpeel]
        have hpos : 0 < (str s).length := by
          refine List.length_pos_of_ne_nil fun hnil => ?_
          rw [truthy, hnil] at htruthy
          cases htruthy
        exact ih none (some ([] ++ str r)) (by show 0 < fuel; omega) hr
      · rw [hpeel]
        refine ih (some t) _ ?_ ?_
        · show t.length < fuel
          omega
        · show '\n' ∉ c :: str r
          simpa [hr] using hc.symm
    next => exact ⟨r, rfl, hr⟩

/-- What `reverse3` comes to see of a text. -/
def seen (s : Text) : Text := if s.getLast? = some '0' then s.dropLast else s

theorem seen_cons {c : Char} {s : Text} (h : truthy (some (c :: s)) = true) :
    seen (c :: s) = c :: seen s := by
  cases s with
  | nil =>
    have hc : c ≠ '0' := by
      rintro rfl
      cases h
    rw [seen, List.getLast?_singleton, if_neg (by simpa using hc)]
    rfl
  | cons d s =>
    rw [seen, seen, List.getLast?_cons_cons]
    split <;> rfl

/-- Without a newline `reverse3` reverses all but a `0` at the end. -/
theorem reverse3Aux_eq (fuel : Nat) (s : Text) (r : Scalar) (hfuel : s.length < fuel)
    (hs : '\n' ∉ s) :
    ∃ v, reverse3Aux fuel (some s) r = some v ∧ str v = (seen s).reverse ++ str r := by
  induction fuel generalizing s r with
  | zero => exact absurd hfuel (Nat.not_lt_zero _)
  | succ fuel ih =>
    rw [reverse3Aux]
    split
    next htruthy =>
      cases s with
      | nil => cases htruthy
      | cons c s =>
        have hc : c ≠ '\n' := fun h => hs (h ▸ List.mem_cons_self)
        have hs' : '\n' ∉ s := fun h => hs (List.mem_cons_of_mem c h)
        obtain ⟨v, hv, hstr⟩ := ih s (some ([c] ++ str r)) (Nat.lt_of_succ_lt_succ hfuel) hs'
        refine ⟨v, ?_, ?_⟩
        · rw [← hv, str, Option.getD_some, peel_cons hc, line_eq hs']
          rfl
        · rw [hstr, seen_cons htruthy, List.reverse_cons, List.append_assoc]
          rfl
    next hfalsy =>
      refine ⟨r, rfl, ?_⟩
      have hempty : s = [] ∨ s = ['0'] := by
        by_contra h
        exact hfalsy (by simpa [truthy, str, not_or] using h)
      obtain rfl | rfl := hempty <;> rfl

/-- As texts the three results are the reversal if and only if there is no newline and no `0` at
the end. -/
theorem texts_iff (s : Text) :
    (str (reverse1 s) = s.reverse ∧ str (reverse2 s) = s.reverse ∧
      ∃ v, reverse3 s = some v ∧ str v = s.reverse) ↔ '\n' ∉ s ∧ s.getLast? ≠ some '0' := by
  constructor
  · intro h
    obtain ⟨-, -, v, hv, hstr⟩ := h
    have hnewline : '\n' ∉ s := by
      obtain ⟨v', hv', hnot⟩ := reverse3_returns (s.length + 1) (some s) none (Nat.lt_succ_self _)
        List.not_mem_nil
      obtain rfl := Option.some.inj (hv.symm.trans hv')
      rwa [hstr, List.mem_reverse] at hnot
    refine ⟨hnewline, fun hlast => ?_⟩
    obtain ⟨v', hv', hseen⟩ := reverse3Aux_eq (s.length + 1) s none (Nat.lt_succ_self _) hnewline
    obtain rfl := Option.some.inj (hv.symm.trans hv')
    -- the text that came out is shorter
    rw [hstr, seen, if_pos hlast] at hseen
    have hlen := congrArg List.length hseen
    have hpos : 0 < s.length := List.length_pos_of_ne_nil (by rintro rfl; cases hlast)
    simp only [List.length_reverse, List.length_append, List.length_dropLast, str,
      Option.getD_none, List.length_nil] at hlen
    omega
  · intro ⟨hnewline, hlast⟩
    obtain ⟨v, hv, hstr⟩ := reverse3Aux_eq (s.length + 1) s none (Nat.lt_succ_self _) hnewline
    refine ⟨reverse1_eq s, reverse2_eq s, v, hv, ?_⟩
    rw [hstr, seen, if_neg hlast]
    exact List.append_nil _

theorem eq_some_of_str {v : Scalar} {t : Text} (h : str v = t) (ht : t ≠ []) : v = some t := by
  cases v with
  | none => exact absurd h.symm ht
  | some u => exact congrArg some h

/-- **All three reverse a text** if and only if it has no newline in it and no `0` at its end.
Of the empty text `reverse2` and `reverse3` make undef, which reads as the empty text. -/
theorem reverses_iff (s : Text) :
    ((str (reverse1 s) = s.reverse ∧ str (reverse2 s) = s.reverse ∧
      ∃ v, reverse3 s = some v ∧ str v = s.reverse) ↔ '\n' ∉ s ∧ s.getLast? ≠ some '0') ∧
    ((reverse1 s = some s.reverse ∧ reverse2 s = some s.reverse ∧
      reverse3 s = some (some s.reverse)) ↔ s ≠ [] ∧ '\n' ∉ s ∧ s.getLast? ≠ some '0') := by
  refine ⟨texts_iff s, ?_⟩
  rw [← texts_iff s]
  constructor
  · intro ⟨h₁, h₂, h₃⟩
    refine ⟨?_, by rw [h₁]; rfl, by rw [h₂]; rfl, _, h₃, rfl⟩
    rintro rfl
    cases h₂
  · intro ⟨hne, h₁, h₂, v, hv, h₃⟩
    have hreverse : s.reverse ≠ [] := by simpa using hne
    rw [hv, eq_some_of_str h₃ hreverse]
    exact ⟨eq_some_of_str h₁ hreverse, eq_some_of_str h₂ hreverse, rfl⟩

/-- A `0` at the end is lost, and so is what stands behind a newline. -/
theorem reverse3_loses :
    (reverse3 "AB0".toList = some (some "BA".toList) ∧ "BA".toList ≠ "AB0".toList.reverse) ∧
      reverse3 "A\nB".toList = some (some "A".toList) ∧ "A".toList ≠ "A\nB".toList.reverse := by
  decide

end VleoNotebook.Strings
