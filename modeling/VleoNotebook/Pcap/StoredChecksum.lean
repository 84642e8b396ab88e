import VleoNotebook.Pcap.Checksum

/-! A checksum stored in the buffer it was computed over.

`main` computes the checksum of a header whose checksum field is zero and stores it in that
field. Summed with the field, the header then folds to `0xffff` and its checksum is 0; a word
changed to one that differs from it modulo 65535 makes it something else (`cksum_stored`).

A byte counts once at an even offset and 256 times at an odd one, so a word counts 256 times
at an odd offset too, modulo 65535, and 256 has an inverse there. -/
namespace VleoNotebook.Pcap

open OnesComplement (fold fold_eq fold_lt rep rep_lt rep_modEq rep_eq_zero_iff rep_eq_max_iff)

/-- `*(uint16_t*)(addr + off)`, where a byte past the end counts as 0 as in `cksum`. -/
def wordAt (addr : Bytes) (off : Nat) : Nat := word (addr.getD off 0) (addr.getD (off + 1) 0)

/-- `*(uint16_t*)(addr + off) = w` -/
def storeWord (addr : Bytes) (off : Nat) (w : UInt16) : Bytes :=
  (addr.set off w.toUInt8).set (off + 1) (w >>> 8).toUInt8

/-- How often the byte at an offset counts in the sum. -/
def weight (off : Nat) : Nat := 256 ^ (off % 2)

theorem weight_zero : weight 0 = 1 := rfl

theorem weight_one : weight 1 = 256 := rfl

theorem weight_add_two (off : Nat) : weight (off + 2) = weight off := by
  rw [weight, weight, Nat.add_mod_right]

theorem weight_succ (off : Nat) : weight (off + 1) ≡ 256 * weight off [MOD 65535] := by
  unfold weight
  obtain h | h := Nat.mod_two_eq_zero_or_one off
  · rw [h, show (off + 1) % 2 = 1 by omega]
    rfl
  · rw [h, show (off + 1) % 2 = 0 by omega]
    rfl

theorem weight_coprime (off : Nat) : Nat.Coprime 65535 (weight off) :=
  Nat.Coprime.pow_right _ (by decide)

theorem word_storeWord (w : UInt16) : word w.toUInt8 (w >>> 8).toUInt8 = w.toNat := by
  have hlt := w.toNat_lt
  have hhigh : (w >>> 8).toNat = w.toNat / 256 := Nat.shiftRight_eq_div_pow w.toNat 8
  rw [word, UInt16.toNat_toUInt8, UInt16.toNat_toUInt8, hhigh]
  omega

theorem wordAt_storeWord {addr : Bytes} {off : Nat} (h : off + 1 < addr.length) (w : UInt16) :
    wordAt (storeWord addr off w) off = w.toNat := by
  have hoff : off < addr.length := by omega
  rw [wordAt, storeWord]
  simp only [List.getD_eq_getElem?_getD, List.getElem?_set, List.length_set]
  simp [h, hoff, word_storeWord]

/-! ### What is changed counts as often as it is weighed -/

theorem sumWords_set (addr : Bytes) (s off : Nat) (x : UInt8) :
    sumWords s (addr.set off x) + weight off * (addr.getD off 0).toNat =
      sumWords s addr + weight off * ((addr.set off x).getD off 0).toNat := by
  induction s, addr using sumWords.induct generalizing off with
  | case1 s a b addr ih =>
    have hsum (t : Nat) : sumWords (s + t) addr = s + t + sumWords 0 addr :=
      sumWords_eq addr (s + t)
    cases off with
    | zero =>
      simp only [List.set_cons_zero, List.getD_cons_zero, sumWords, hsum, word, weight_zero]
      omega
    | succ off =>
      cases off with
      | zero =>
        simp only [List.set_cons_zero, List.set_cons_succ, List.getD_cons_zero,
          List.getD_cons_succ, sumWords, hsum, word, Nat.zero_add, weight_one]
        omega
      | succ off =>
        simpa only [List.set_cons_succ, List.getD_cons_succ, sumWords, weight_add_two] using ih off
  | case2 s a =>
    cases off with
    | zero =>
      simp only [List.set_cons_zero, List.getD_cons_zero, sumWords, weight_zero]
      omega
    | succ off => rfl
  | case3 s => rfl

/-- What the two bytes of a word count together. -/
def weighed (addr : Bytes) (off : Nat) : Nat :=
  weight off * (addr.getD off 0).toNat + weight (off + 1) * (addr.getD (off + 1) 0).toNat

theorem weighed_modEq (addr : Bytes) (off : Nat) :
    weighed addr off ≡ weight off * wordAt addr off [MOD 65535] := by
  rw [wordAt, word, Nat.mul_add, ← Nat.mul_assoc, Nat.mul_comm (weight off) 256]
  exact Nat.ModEq.add_left _ (Nat.ModEq.mul_right _ (weight_succ off))

theorem weighed_even (addr : Bytes) {off : Nat} (h : off % 2 = 0) :
    weighed addr off = wordAt addr off := by
  rw [weighed, weight, weight, h, show (off + 1) % 2 = 1 by omega, wordAt, word]
  omega

/-- **A word stored counts in place of the word that was there.** -/
theorem sumWords_storeWord (addr : Bytes) (s off : Nat) (w : UInt16) :
    sumWords s (storeWord addr off w) + weighed addr off =
      sumWords s addr + weighed (storeWord addr off w) off := by
  have hlow := sumWords_set addr s off w.toUInt8
  have hhigh := sumWords_set (addr.set off w.toUInt8) s (off + 1) (w >>> 8).toUInt8
  -- neither byte is stored where the other is read
  have hkept : (addr.set off w.toUInt8).getD (off + 1) 0 = addr.getD (off + 1) 0 := by
    rw [List.getD_eq_getElem?_getD, List.getElem?_set_ne (by omega), List.getD_eq_getElem?_getD]
  have hstored : (storeWord addr off w).getD off 0 = (addr.set off w.toUInt8).getD off 0 := by
    rw [storeWord, List.getD_eq_getElem?_getD, List.getElem?_set_ne (by omega),
      List.getD_eq_getElem?_getD]
  rw [hkept] at hhigh
  rw [weighed, weighed, hstored, storeWord]
  omega

/-! ### The checksum that is 0 -/

theorem cksum_toNat (addr : Bytes) (s : UInt16) :
    (cksum addr s).toNat = 65535 - rep 16 (sumWords s.toNat addr) := by
  have hlt := fold_lt (w := 16) (by decide) (sumWords s.toNat addr)
  rw [cksum, invert, UInt16.toNat_not, UInt16.toNat_ofNat', Nat.mod_eq_of_lt hlt,
    fold_eq (by decide)]
  rfl

theorem cksum_eq_zero_iff (addr : Bytes) :
    cksum addr 0 = 0 ↔ sumWords 0 addr ≠ 0 ∧ sumWords 0 addr ≡ 0 [MOD 65535] := by
  have hmax : rep 16 (sumWords 0 addr) = 65535 ↔
      sumWords 0 addr ≠ 0 ∧ sumWords 0 addr ≡ 0 [MOD 65535] := rep_eq_max_iff (by decide)
  have hlt := rep_lt (w := 16) (by decide) (sumWords 0 addr)
  rw [← UInt16.toNat_inj, cksum_toNat, UInt16.toNat_zero]
  refine Iff.trans ?_ hmax
  omega

/-- The sum and the checksum of a buffer make a multiple of `0xffff`, and never 0. -/
theorem sumWords_add_cksum (addr : Bytes) :
    sumWords 0 addr + (cksum addr 0).toNat ≠ 0 ∧
      sumWords 0 addr + (cksum addr 0).toNat ≡ 0 [MOD 65535] := by
  have hzero : rep 16 (sumWords 0 addr) = 0 ↔ sumWords 0 addr = 0 := rep_eq_zero_iff
  have hlt := rep_lt (w := 16) (by decide) (sumWords 0 addr)
  rw [cksum_toNat, UInt16.toNat_zero]
  have hrep : sumWords 0 addr ≡ rep 16 (sumWords 0 addr) [MOD 65535] :=
    (rep_modEq (w := 16) (sumWords 0 addr)).symm
  refine ⟨by omega, ?_⟩
  calc sumWords 0 addr + (65535 - rep 16 (sumWords 0 addr))
    _ ≡ rep 16 (sumWords 0 addr) + (65535 - rep 16 (sumWords 0 addr)) [MOD 65535] :=
      Nat.ModEq.add_right _ hrep
    _ = 65535 := by omega
    _ ≡ 0 [MOD 65535] := rfl

/-- **A stored checksum verifies**, and no longer does once a word, the checksum itself or
another, is changed to one that differs from it modulo `0xffff`. -/
theorem cksum_stored (addr : Bytes) (k : Nat) (hk : k % 2 = 0) (hlen : k + 1 < addr.length)
    (hzero : wordAt addr k = 0) :
    let stored := storeWord addr k (cksum addr 0)
    cksum stored 0 = 0 ∧
      ∀ off w, ¬ wordAt (storeWord stored off w) off ≡ wordAt stored off [MOD 65535] →
        cksum (storeWord stored off w) 0 ≠ 0 := by
  intro stored
  have hverifies : cksum stored 0 = 0 := by
    have hsum := sumWords_storeWord addr 0 k (cksum addr 0)
    rw [weighed_even _ hk, weighed_even _ hk, hzero, Nat.add_zero, wordAt_storeWord hlen] at hsum
    rw [cksum_eq_zero_iff, hsum]
    exact sumWords_add_cksum addr
  refine ⟨hverifies, fun off w hword hchanged => hword ?_⟩
  obtain ⟨-, hstored⟩ := (cksum_eq_zero_iff stored).mp hverifies
  obtain ⟨-, hchanged⟩ := (cksum_eq_zero_iff _).mp hchanged
  have hsum := sumWords_storeWord stored 0 off w
  have hweighed : weighed (storeWord stored off w) off ≡ weighed stored off [MOD 65535] :=
    Nat.ModEq.add_left_cancel hstored <|
      calc sumWords 0 stored + weighed (storeWord stored off w) off
        _ = sumWords 0 (storeWord stored off w) + weighed stored off := hsum.symm
        _ ≡ 0 + weighed stored off [MOD 65535] := Nat.ModEq.add_right _ hchanged
  refine Nat.ModEq.cancel_left_of_coprime (weight_coprime off) ?_
  exact (weighed_modEq _ off).symm.trans (hweighed.trans (weighed_modEq _ off))

/-- A buffer of five bytes with its field in the second word; then the first word is changed. -/
theorem cksum_stored_five :
    let stored := storeWord [0x45, 0x1c, 0, 0, 0xff] 2 (cksum [0x45, 0x1c, 0, 0, 0xff] 0)
    cksum stored 0 = 0 ∧ cksum (storeWord stored 0 0x1c46) 0 ≠ 0 := by
  have h := cksum_stored [0x45, 0x1c, 0, 0, 0xff] 2 rfl (by decide) (by decide)
  exact ⟨h.1, h.2 0 0x1c46 (by decide)⟩

end VleoNotebook.Pcap
