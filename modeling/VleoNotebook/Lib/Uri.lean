import Mathlib.Data.List.GetD
import VleoNotebook.Lib.Text

/-! Percent-encoding, and the queries made with it.

What is encoded is decoded to what it was (`unescape_escaped`), and a text is its own
decoding exactly when there is no escape in it (`unescape_eq_self_iff`). A query is split
at `&` and `=`; its first piece goes up to the first `&` (`splitOn_eq`). -/
namespace Uri

open Perl (Text)

/-! ### Escapes -/

/-- What is not escaped: letters, digits and `-_.~!*'()`. -/
def Unreserved (c : Char) : Prop := c.isAlphanum ∨ c ∈ "-_.~!*'()".toList

instance (c : Char) : Decidable (Unreserved c) := inferInstanceAs (Decidable (_ ∨ _))

/-- A digit of `%02X`. -/
def hexDigit (n : Nat) : Char := "0123456789ABCDEF".toList.getD n '0'

/-- The value of a hexadecimal digit of either case. -/
def hexValue (c : Char) : Option Nat :=
  if c.isDigit then some (c.toNat - '0'.toNat)
  else if 'A' ≤ c ∧ c ≤ 'F' then some (c.toNat - 'A'.toNat + 10)
  else if 'a' ≤ c ∧ c ≤ 'f' then some (c.toNat - 'a'.toNat + 10)
  else none

/-- A byte, escaped if need be. -/
def escape (c : Char) : Text :=
  if Unreserved c then [c] else ['%', hexDigit (c.toNat / 16), hexDigit (c.toNat % 16)]

def escaped (s : Text) : Text := s.flatMap escape

/-- The byte an escape stands for. -/
def byte (c h l : Char) : Option Char :=
  if c = '%' then
    match hexValue h, hexValue l with
    | some a, some b => some (Char.ofNat (16 * a + b))
    | _, _ => none
  else none

/-- `s/%([0-9A-Fa-f]{2})/chr(hex($1))/eg` -/
def unescape : Text → Text
  | c :: h :: l :: s =>
    match byte c h l with
    | some d => d :: unescape s
    | none => c :: unescape (h :: l :: s)
  | c :: s => c :: unescape s
  | [] => []

theorem byte_of_ne {c : Char} (h : c ≠ '%') (a b : Char) : byte c a b = none := if_neg h

theorem unescape_of_byte {c h l d : Char} (hbyte : byte c h l = some d) (s : Text) :
    unescape (c :: h :: l :: s) = d :: unescape s := by
  rw [unescape, hbyte]

theorem unescape_of_none {c h l : Char} (hbyte : byte c h l = none) (s : Text) :
    unescape (c :: h :: l :: s) = c :: unescape (h :: l :: s) := by
  rw [unescape, hbyte]

theorem unescape_cons {c : Char} (h : c ≠ '%') (s : Text) :
    unescape (c :: s) = c :: unescape s := by
  match s with
  | [] => rfl
  | [d] => rfl
  | d :: e :: s => exact unescape_of_none (byte_of_ne h d e) s

theorem hexValue_hexDigit {n : Nat} (h : n < 16) : hexValue (hexDigit n) = some n := by
  have hall : ∀ n : Fin 16, hexValue (hexDigit n) = some n.val := by decide
  exact hall ⟨n, h⟩

theorem unescape_escape {c : Char} (h : c.toNat < 256) (s : Text) :
    unescape (escape c ++ s) = c :: unescape s := by
  unfold escape
  split
  · rename_i hc
    refine unescape_cons (fun heq => ?_) s
    rw [heq] at hc
    exact absurd hc (by decide)
  · refine unescape_of_byte ?_ s
    rw [byte, if_pos rfl, hexValue_hexDigit (by omega), hexValue_hexDigit (by omega)]
    simp only [Nat.div_add_mod, Char.ofNat_toNat]

theorem unescape_escaped {s : Text} (h : ∀ c ∈ s, c.toNat < 256) : unescape (escaped s) = s := by
  induction s with
  | nil => rfl
  | cons c s ih =>
    rw [escaped, List.flatMap_cons, ← escaped, unescape_escape (h c List.mem_cons_self),
      ih fun d hd => h d (List.mem_cons_of_mem c hd)]

theorem unreserved_hexDigit (n : Nat) : Unreserved (hexDigit n) := by
  have hall : ∀ n : Fin 16, Unreserved (hexDigit n) := by decide
  by_cases hn : n < 16
  · exact hall ⟨n, hn⟩
  · have hzero : hexDigit n = '0' := List.getD_eq_default _ _ (Nat.le_of_not_lt hn)
    rw [hzero]
    decide

theorem mem_escaped {s : Text} {c : Char} (h : c ∈ escaped s) : Unreserved c ∨ c = '%' := by
  obtain ⟨d, -, hc⟩ := List.mem_flatMap.mp h
  unfold escape at hc
  split at hc
  · rename_i hd
    rw [List.mem_singleton.mp hc]
    exact .inl hd
  · simp only [List.mem_cons, List.not_mem_nil, or_false] at hc
    rcases hc with rfl | rfl | rfl
    · exact .inr rfl
    · exact .inl (unreserved_hexDigit _)
    · exact .inl (unreserved_hexDigit _)

theorem not_mem_escaped {s : Text} {c : Char} (h : ¬ Unreserved c) (h' : c ≠ '%') :
    c ∉ escaped s := fun hmem => (mem_escaped hmem).elim h h'

/-! ### Texts without escapes -/

/-- An escape stands somewhere in the text. -/
def HasEscape (s : Text) : Prop := ∃ h l d, byte '%' h l = some d ∧ ['%', h, l] <:+: s

theorem length_unescape_le (s : Text) : (unescape s).length ≤ s.length := by
  fun_induction unescape s with
  | case1 c h l s d hbyte ih =>
    simp only [List.length_cons]
    omega
  | case2 c h l s hbyte ih => simpa using ih
  | case3 c s hshort ih => simpa using ih
  | case4 => exact Nat.le_refl 0

/-- An escape makes the text shorter. -/
theorem length_unescape_lt {s : Text} (h : HasEscape s) : (unescape s).length < s.length := by
  fun_induction unescape s with
  | case1 c a b s d hbyte ih =>
    have hle := length_unescape_le s
    simp only [List.length_cons]
    omega
  | case2 c a b s hbyte ih =>
    obtain ⟨x, y, d, hd, hpart⟩ := h
    rcases List.infix_cons_iff.mp hpart with hprefix | hpart
    · obtain ⟨rfl, hx⟩ := List.cons_prefix_cons.mp hprefix
      obtain ⟨rfl, hy⟩ := List.cons_prefix_cons.mp hx
      obtain ⟨rfl, -⟩ := List.cons_prefix_cons.mp hy
      rw [hbyte] at hd
      cases hd
    · simpa using ih ⟨x, y, d, hd, hpart⟩
  | case3 c s hshort ih =>
    obtain ⟨x, y, d, hd, hpart⟩ := h
    rcases List.infix_cons_iff.mp hpart with hprefix | hpart
    · obtain ⟨-, t, rfl⟩ := List.cons_prefix_cons.mp hprefix
      exact absurd rfl (hshort x y t)
    · simpa using ih ⟨x, y, d, hd, hpart⟩
  | case4 =>
    obtain ⟨x, y, d, -, hpart⟩ := h
    cases List.infix_nil.mp hpart

theorem HasEscape.cons {s : Text} (h : HasEscape s) (c : Char) : HasEscape (c :: s) := by
  obtain ⟨x, y, d, hd, hpart⟩ := h
  exact ⟨x, y, d, hd, List.infix_cons hpart⟩

theorem unescape_of_not_hasEscape {s : Text} (h : ¬ HasEscape s) : unescape s = s := by
  fun_induction unescape s with
  | case1 c a b s d hbyte ih =>
    by_cases hc : c = '%'
    · subst hc
      exact absurd ⟨a, b, d, hbyte, (List.prefix_append ['%', a, b] s).isInfix⟩ h
    · rw [byte_of_ne hc] at hbyte
      cases hbyte
  | case2 c a b s hbyte ih => rw [ih fun hesc => h (hesc.cons c)]
  | case3 c s hshort ih => rw [ih fun hesc => h (hesc.cons c)]
  | case4 => rfl

theorem unescape_eq_self_iff (s : Text) : unescape s = s ↔ ¬ HasEscape s := by
  refine ⟨fun h hesc => ?_, unescape_of_not_hasEscape⟩
  have hlt := length_unescape_lt hesc
  rw [h] at hlt
  exact Nat.lt_irrefl _ hlt

theorem not_hasEscape_of_not_mem {s : Text} (h : '%' ∉ s) : ¬ HasEscape s := by
  rintro ⟨x, y, d, -, hpart⟩
  exact h (hpart.subset List.mem_cons_self)

/-! ### Queries -/

/-- The keys and values of a query. -/
def query (s : Text) : List (List Text) :=
  (s.splitOn '&').map fun piece => (piece.splitOn '=').map unescape

/-- The first piece goes up to the first separator. -/
theorem splitOn_eq (sep : Char) (s : Text) :
    s.splitOn sep = s.takeWhile (· ≠ sep) ::
      match s.dropWhile (· ≠ sep) with
      | [] => []
      | _ :: rest => rest.splitOn sep := by
  induction s with
  | nil => rfl
  | cons c s ih =>
    rw [List.splitOn_cons_eq_if_modifyHead]
    by_cases hc : c = sep
    · simp [hc]
    · rw [if_neg (by simpa using hc), ih]
      simp [hc]

theorem splitOn_append_cons {sep : Char} {s : Text} (h : sep ∉ s) (t : Text) :
    (s ++ sep :: t).splitOn sep = s :: t.splitOn sep :=
  List.splitOn_append_cons_self_of_not_mem h t

section Pair
variable {key value : Text} (hkey : '&' ∉ key ∧ '=' ∉ key ∧ '%' ∉ key)

include hkey in
theorem splitOn_pair (h : '=' ∉ value) :
    ((key ++ '=' :: value).splitOn '=').map unescape = [key, unescape value] := by
  rw [splitOn_append_cons hkey.2.1, List.splitOn_eq_singleton h, List.map_cons, List.map_singleton,
    unescape_of_not_hasEscape (not_hasEscape_of_not_mem hkey.2.2)]

include hkey in
/-- A pair is read as it stands when there is nothing in its value to split or decode. -/
theorem splitOn_pair_iff : ((key ++ '=' :: value).splitOn '=').map unescape = [key, value] ↔
    '=' ∉ value ∧ ¬ HasEscape value := by
  constructor
  · intro h
    have hnot : '=' ∉ value := by
      intro hmem
      obtain ⟨u, v, rfl, hu⟩ := List.eq_append_cons_of_mem hmem
      rw [splitOn_append_cons hkey.2.1, splitOn_append_cons hu] at h
      have hlen := congrArg List.length h
      have hpos := List.length_pos_of_ne_nil (List.splitOn_ne_nil '=' v)
      simp only [List.map_cons, List.length_cons, List.length_map, List.length_nil] at hlen
      omega
    rw [splitOn_pair hkey hnot] at h
    exact ⟨hnot, (unescape_eq_self_iff value).mp (List.cons.inj (List.cons.inj h).2).1⟩
  · rintro ⟨hnot, hesc⟩
    rw [splitOn_pair hkey hnot, unescape_of_not_hasEscape hesc]

include hkey in
/-- A pair in front of a query. -/
theorem query_cons (h : '&' ∉ value) (s : Text) : query (key ++ '=' :: value ++ '&' :: s) =
    ((key ++ '=' :: value).splitOn '=').map unescape :: query s := by
  have hpair : '&' ∉ key ++ '=' :: value := by simp [hkey.1, h]
  rw [query, splitOn_append_cons hpair, List.map_cons, ← query]

include hkey in
theorem query_pair (h : '&' ∉ value) (h' : '=' ∉ value) :
    query (key ++ '=' :: value) = [[key, unescape value]] := by
  have hpair : '&' ∉ key ++ '=' :: value := by simp [hkey.1, h]
  rw [query, List.splitOn_eq_singleton hpair, List.map_singleton, splitOn_pair hkey h']

include hkey in
/-- A value that is read takes as many symbols at least in front of the next `&`. -/
theorem length_le_of_query {s : Text} {rest : List (List Text)}
    (h : query (key ++ '=' :: s) = [key, value] :: rest) :
    value.length ≤ (s.takeWhile (· ≠ '&')).length := by
  have hkeep : ∀ c ∈ key ++ ['='], (decide (c ≠ '&')) = true := by
    intro c hc
    simp only [List.mem_append, List.mem_singleton] at hc
    rcases hc with hc | rfl
    · exact decide_eq_true fun heq => hkey.1 (heq ▸ hc)
    · rfl
  have htake : (key ++ '=' :: s).takeWhile (· ≠ '&') = key ++ '=' :: s.takeWhile (· ≠ '&') := by
    have happend : (key ++ ['='] ++ s).takeWhile (· ≠ '&') =
        key ++ ['='] ++ s.takeWhile (· ≠ '&') :=
      List.takeWhile_append_of_pos hkeep
    simpa using happend
  rw [query, splitOn_eq, htake, List.map_cons, splitOn_append_cons hkey.2.1, List.map_cons] at h
  obtain ⟨hpair, -⟩ := List.cons.inj h
  obtain ⟨-, hvalue⟩ := List.cons.inj hpair
  rw [splitOn_eq, List.map_cons] at hvalue
  obtain ⟨hvalue, -⟩ := List.cons.inj hvalue
  rw [← hvalue]
  exact (length_unescape_le _).trans (List.takeWhile_sublist _).length_le

include hkey in
theorem not_mem_of_query {s : Text} {rest : List (List Text)}
    (h : query (key ++ '=' :: (value ++ s)) = [key, value] :: rest) : '&' ∉ value := by
  intro hmem
  have hle := length_le_of_query hkey h
  obtain ⟨u, v, rfl, hu⟩ := List.eq_append_cons_of_mem hmem
  have hkeep : ∀ c ∈ u, (decide (c ≠ '&')) = true := fun c hc =>
    decide_eq_true fun heq => hu (heq ▸ hc)
  have htake : (u ++ '&' :: (v ++ s)).takeWhile (· ≠ '&') = u := by
    have happend : (u ++ '&' :: (v ++ s)).takeWhile (· ≠ '&') =
        u ++ ('&' :: (v ++ s)).takeWhile (· ≠ '&') := List.takeWhile_append_of_pos hkeep
    rw [happend]
    simp
  rw [List.append_assoc, List.cons_append, htake, List.length_append, List.length_cons] at hle
  omega

end Pair

end Uri
