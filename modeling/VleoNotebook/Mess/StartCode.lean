import VleoNotebook.Mess.Sync

/-! The scan for the start code, read by read.

The scan of `receiveData` jumps between four reads, and only two of them look whether there was
a byte. What carries it is how many zeros it has read last, at most two (`Scan.zeros`): they
are what the bytes read so far end in (`lastZeros`). So it stops behind the first `00 00 01`,
or else reads everything and a few times more, with no byte to get, and fails
(`receiveData_scan`). -/
namespace VleoNotebook.Mess.MessageTransport

/-- The scan is over: in front of the length field, or with `return -1`. -/
def Scan.over : Scan → Bool
  | .gotNALstart | .done _ => true
  | _ => false

/-- What the reads of the scan answer, where it is over and what is left to read then; `none`
if the fuel does not see it to the end. -/
def Scan.scan : Nat → Scan → Bytes → Option (List Bytes × Scan × Bytes)
  | 0, _, _ => none
  | fuel + 1, q, s =>
    if q.over then some ([], q, s)
    else do
      let (answers, q', rest) ← scan fuel (q.feed (some (s.take q.want))) (s.drop q.want)
      return (s.take q.want :: answers, q', rest)

namespace Scan

theorem scan_over {q : Scan} (hq : q.over = true) (fuel : Nat) (s : Bytes) :
    scan (fuel + 1) q s = some ([], q, s) := by
  rw [scan, if_pos hq]

theorem scan_read {q q' : Scan} {s rest : Bytes} {answers : List Bytes} {fuel : Nat}
    (hq : q.over = false)
    (h : scan fuel (q.feed (some (s.take q.want))) (s.drop q.want) = some (answers, q', rest)) :
    scan (fuel + 1) q s = some (s.take q.want :: answers, q', rest) := by
  rw [scan, if_neg (by rw [hq]; exact Bool.false_ne_true), h]
  rfl

/-- A call is its scan and what follows it. -/
theorem drive_scan {fuel : Nat} {q q' : Scan} {s rest : Bytes} {answers : List Bytes}
    (h : scan fuel q s = some (answers, q', rest)) (k : Nat) :
    drive (answers.length + k) q s = drive k q' rest := by
  induction fuel generalizing q s answers with
  | zero => cases h
  | succ fuel ih =>
    cases hover : q.over with
    | true =>
      rw [scan_over hover] at h
      obtain ⟨rfl, heq⟩ := Prod.mk.inj (Option.some.inj h)
      obtain ⟨rfl, rfl⟩ := Prod.mk.inj heq
      rw [List.length_nil, Nat.zero_add]
    | false =>
      rw [scan, if_neg (by rw [hover]; exact Bool.false_ne_true)] at h
      obtain ⟨⟨answers', q'', rest'⟩, hrun, heq⟩ := Option.bind_eq_some_iff.mp h
      obtain ⟨rfl, hrest⟩ := Prod.mk.inj (Option.some.inj heq)
      obtain ⟨rfl, rfl⟩ := Prod.mk.inj hrest
      rw [List.length_cons, Nat.add_right_comm]
      exact ih hrun

/-- Two reads after the start code the call is over. -/
theorem drive_gotNALstart (fuel : Nat) (s : Bytes) :
    drive (fuel + 2) .gotNALstart s = drive 2 .gotNALstart s :=
  drive_done fuel _ _

theorem zeros_not_over (q : Scan) (h : q.zeros.isSome) : q.over = false := by
  cases q <;> first | rfl | cases h

end Scan

/-! ### The zeros read last -/

/-- How many zeros the bytes end in, at most two. -/
def lastZeros (c : Bytes) : Nat := if [0, 0] <:+ c then 2 else if [0] <:+ c then 1 else 0

theorem concat_suffix_concat (l c : Bytes) (x b : UInt8) :
    l ++ [x] <:+ c ++ [b] ↔ x = b ∧ l <:+ c := by
  rw [← List.reverse_prefix, List.reverse_concat, List.reverse_concat, List.cons_prefix_cons,
    List.reverse_prefix]

theorem lastZeros_concat (c : Bytes) (b : UInt8) :
    lastZeros (c ++ [b]) = if b = 0 then min (lastZeros c + 1) 2 else 0 := by
  have htwo : [0, 0] <:+ c ++ [b] ↔ 0 = b ∧ [0] <:+ c := concat_suffix_concat [0] c 0 b
  have hone : [0] <:+ c ++ [b] ↔ 0 = b ∧ [] <:+ c := concat_suffix_concat [] c 0 b
  have hmore : [0, 0] <:+ c → [0] <:+ c := (List.suffix_append [0] [0]).trans
  rw [lastZeros, lastZeros, if_congr htwo rfl rfl, if_congr hone rfl rfl]
  by_cases hb : b = 0
  · simp only [hb, List.nil_suffix, true_and]
    grind
  · simp [hb, Ne.symm hb]

/-- A byte completes the start code if it is a `01` behind two zeros. -/
theorem startCode_suffix_concat (c : Bytes) (b : UInt8) :
    [0, 0, 1] <:+ c ++ [b] ↔ b = 1 ∧ lastZeros c = 2 := by
  have hsuffix : [0, 0, 1] <:+ c ++ [b] ↔ 1 = b ∧ [0, 0] <:+ c := concat_suffix_concat [0, 0] c 1 b
  rw [hsuffix, eq_comm, lastZeros]
  grind

/-! ### The run -/

/-- The reads that find no byte, before the scan fails. -/
theorem Scan.scan_end {q : Scan} {z fuel : Nat} (hq : q.zeros = some z) (hfuel : q.rank < fuel) :
    ∃ n, 1 ≤ n ∧ n ≤ q.rank ∧ scan fuel q [] = some (List.replicate n [], .done .failed, []) := by
  have hdone (fuel : Nat) : scan (fuel + 1) (.done .failed) [] = some ([], .done .failed, []) :=
    scan_over rfl fuel []
  have hlast {q : Scan} (fuel : Nat) (hq : q = .noZero ∨ q = .leadingZeros) :
      scan (fuel + 2) q [] = some ([[]], .done .failed, []) := by
    obtain rfl | rfl := hq <;> exact scan_read rfl (hdone fuel)
  have hthird (fuel : Nat) (o : Option UInt8) :
      scan (fuel + 3) (.third o) [] = some ([[], []], .done .failed, []) :=
    scan_read rfl (hlast fuel (Or.inr rfl))
  obtain ⟨fuel, rfl⟩ := Nat.exists_eq_add_of_le' hfuel
  cases q with
  | noZero => exact ⟨1, Nat.le_refl 1, Nat.le_refl 1, hlast fuel (Or.inl rfl)⟩
  | leadingZeros => exact ⟨1, Nat.le_refl 1, Nat.le_refl 1, hlast fuel (Or.inr rfl)⟩
  | second => exact ⟨3, by decide, Nat.le_refl 3, scan_read rfl (hthird fuel none)⟩
  | third o => exact ⟨2, by decide, Nat.le_refl 2, hthird fuel o⟩
  | _ => cases hq

/-- Each byte is the answer of one read. -/
def single (s : Bytes) : List Bytes := s.map fun b => [b]

/-- Behind the bytes `c` the scan has read `s` up to the first start code. -/
def Found (c s : Bytes) (answers : List Bytes) (rest : Bytes) : Prop :=
  ∃ read, s = read ++ 1 :: rest ∧ [0, 0, 1] <:+ c ++ read ++ [1] ∧ ¬ [0, 0, 1] <:+: c ++ read ∧
    answers = single (read ++ [1])

/-- Behind the bytes `c` it has read all of `s`, and nothing a few times. -/
def NotFound (c s : Bytes) (answers : List Bytes) : Prop :=
  ¬ [0, 0, 1] <:+: c ++ s ∧ ∃ n, 1 ≤ n ∧ n ≤ 3 ∧ answers = single s ++ List.replicate n []

theorem found_here {c : Bytes} (s : Bytes) (hc : ¬ [0, 0, 1] <:+: c) (hzeros : lastZeros c = 2) :
    Found c (1 :: s) [[1]] s := by
  refine ⟨[], rfl, ?_, by rwa [List.append_nil], rfl⟩
  rw [List.append_nil, startCode_suffix_concat]
  exact ⟨rfl, hzeros⟩

theorem Found.cons {c s rest : Bytes} {b : UInt8} {answers : List Bytes}
    (h : Found (c ++ [b]) s answers rest) : Found c (b :: s) ([b] :: answers) rest := by
  obtain ⟨read, hs, hsuffix, hfirst, hanswers⟩ := h
  rw [← List.append_cons] at hsuffix hfirst
  exact ⟨b :: read, by rw [hs]; rfl, hsuffix, hfirst, by rw [hanswers]; rfl⟩

theorem NotFound.cons {c s : Bytes} {b : UInt8} {answers : List Bytes}
    (h : NotFound (c ++ [b]) s answers) : NotFound c (b :: s) ([b] :: answers) := by
  obtain ⟨hnone, n, hpos, hn, hanswers⟩ := h
  rw [← List.append_cons] at hnone
  exact ⟨hnone, n, hpos, hn, by rw [hanswers]; rfl⟩

/-- One byte is one read. -/
theorem Scan.scan_cons {q q' : Scan} {z fuel : Nat} {b : UInt8} {s rest : Bytes}
    {answers : List Bytes} (hq : q.zeros = some z)
    (h : scan fuel (q.feed (some [b])) s = some (answers, q', rest)) :
    scan (fuel + 1) q (b :: s) = some ([b] :: answers, q', rest) := by
  have hwant := (feed_cons hq b).1
  have hrun := scan_read (s := b :: s) (zeros_not_over q (by rw [hq]; rfl)) (by rw [hwant]; exact h)
  rwa [hwant] at hrun

/-- The scan goes on as the bytes before it have it. -/
theorem Scan.scan_from {q : Scan} {c s : Bytes} {fuel : Nat} (hq : q.zeros = some (lastZeros c))
    (hc : ¬ [0, 0, 1] <:+: c) (hfuel : 3 * s.length + q.rank < fuel) :
    ∃ answers, answers.length ≤ 3 * s.length + q.rank ∧
      ((∃ rest, scan fuel q s = some (answers, .gotNALstart, rest) ∧ Found c s answers rest) ∨
        scan fuel q s = some (answers, .done .failed, []) ∧ NotFound c s answers) := by
  induction s generalizing q c fuel with
  | nil =>
    obtain ⟨n, hpos, hn, hrun⟩ := scan_end hq (by simpa using hfuel)
    refine ⟨_, by simpa using hn, Or.inr ⟨hrun, by rwa [List.append_nil], n, hpos, ?_, rfl⟩⟩
    exact Nat.le_trans hn q.rank_le
  | cons b s ih =>
    obtain ⟨-, hpos, hfeed⟩ := feed_cons hq b
    rw [List.length_cons] at hfuel ⊢
    obtain ⟨fuel, rfl⟩ : ∃ n, fuel = n + 2 := ⟨fuel - 2, by omega⟩
    by_cases hstart : b = 1 ∧ lastZeros c = 2
    · obtain ⟨rfl, hzeros⟩ := hstart
      rw [if_pos ⟨rfl, hzeros⟩] at hfeed
      refine ⟨[[1]], by rw [List.length_singleton]; omega, Or.inl ⟨s, ?_, found_here s hc hzeros⟩⟩
      exact scan_cons hq (by rw [hfeed]; exact scan_over rfl fuel s)
    · rw [if_neg hstart, ← lastZeros_concat] at hfeed
      have hclean : ¬ [0, 0, 1] <:+: c ++ [b] := by
        rw [List.infix_concat_iff, startCode_suffix_concat]
        exact fun h => h.elim hstart hc
      have hrank := (q.feed (some [b])).rank_le
      have hbound : 3 * s.length + (q.feed (some [b])).rank < fuel + 1 := by omega
      obtain ⟨answers, hlen, hrun⟩ := ih hfeed hclean hbound
      refine ⟨[b] :: answers, by rw [List.length_cons]; omega, ?_⟩
      obtain ⟨rest, hrun, hfound⟩ | ⟨hrun, hnone⟩ := hrun
      · exact Or.inl ⟨rest, scan_cons hq hrun, hfound.cons⟩
      · exact Or.inr ⟨scan_cons hq hrun, hnone.cons⟩

/-- **The scan stops behind the first `00 00 01`**, with one read for each byte up to there, and
the call goes on to the length. Without one it reads every byte once, finds nothing at one to
three reads more, and the call returns `-1`. -/
theorem receiveData_scan (s : Bytes) :
    ∃ answers q rest, Scan.scan (3 * s.length + 2) .noZero s = some (answers, q, rest) ∧
      ((q = .gotNALstart ∧ receiveData s = Scan.drive 2 .gotNALstart rest ∧
          ∃ pre, s = pre ++ [0, 0, 1] ++ rest ∧ ¬ [0, 0, 1] <:+: pre ++ [0, 0] ∧
            answers = single (pre ++ [0, 0, 1])) ∨
        (q = .done .failed ∧ rest = [] ∧ receiveData s = (.done .failed, []) ∧
          ¬ [0, 0, 1] <:+: s ∧
            ∃ n, 1 ≤ n ∧ n ≤ 3 ∧ answers = single s ++ List.replicate n [])) := by
  have hclean : ¬ [0, 0, 1] <:+: ([] : Bytes) := by decide
  obtain ⟨answers, hlen, hrun⟩ := Scan.scan_from (q := .noZero) (s := s) rfl hclean
    (Nat.lt_succ_self _)
  have hcall {q : Scan} {rest : Bytes}
      (h : Scan.scan (3 * s.length + 2) .noZero s = some (answers, q, rest)) :
      receiveData s = Scan.drive (3 * s.length + 1 - answers.length) q rest := by
    have hle : answers.length ≤ 3 * s.length + 1 := hlen
    rw [receiveData, ← Scan.drive_scan h, Nat.add_sub_cancel' hle]
  obtain ⟨rest, hrun, read, hs, hsuffix, hfirst, hanswers⟩ | ⟨hrun, hnone, hreads⟩ := hrun
  · -- the bytes read end in the two zeros
    obtain ⟨-, pre, rfl⟩ := (concat_suffix_concat [0, 0] _ 1 1).mp hsuffix
    refine ⟨answers, _, rest, hrun, Or.inl ⟨rfl, ?_, pre, ?_, hfirst, ?_⟩⟩
    · have hlength : answers.length + rest.length = s.length := by
        simp [hanswers, single, hs]
        omega
      obtain ⟨k, hk⟩ : ∃ k, 3 * s.length + 1 - answers.length = k + 2 :=
        ⟨3 * s.length + 1 - answers.length - 2, by simp [hs] at hlength ⊢; omega⟩
      rw [hcall hrun, hk, Scan.drive_gotNALstart]
    · rw [hs]
      simp
    · rw [hanswers]
      simp
  · refine ⟨answers, _, [], hrun, Or.inr ⟨rfl, rfl, ?_, hnone, hreads⟩⟩
    rw [hcall hrun, Scan.drive_done]

end VleoNotebook.Mess.MessageTransport
