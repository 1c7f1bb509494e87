import Mathlib

/-! Binary64 numbers as rationals.

    A pattern without its sign is a position on the line of magnitudes: positions are ordered like
    the magnitudes they stand for, from zero through the subnormals to the largest finite number.
    Rounding picks one of the two positions around a rational, the even one on a tie. -/

namespace Lib.Double

/-- The magnitude at a position, in units of `2^-1074`. -/
def sig (b : ℕ) : ℕ := (b - (b / 2 ^ 52 - 1) * 2 ^ 52) * 2 ^ (b / 2 ^ 52 - 1)

/-- The first position that is no finite number. -/
def infinity : ℕ := 2047 * 2 ^ 52

/-- The number a bit pattern stands for; none for the infinities and NaN. -/
def toRat? (bits : UInt64) : Option ℚ :=
  let b := bits.toNat % 2 ^ 63
  if infinity ≤ b then none
  else some (if bits.toNat < 2 ^ 63 then (sig b : ℚ) / 2 ^ 1074 else -((sig b : ℚ) / 2 ^ 1074))

/-- The last position whose magnitude is at most `n` units. -/
def floorAt (n : ℕ) : ℕ := (n.log2 - 52) * 2 ^ 52 + n / 2 ^ (n.log2 - 52)

/-- The position nearest to `x` units, the even one on a tie. -/
def nearest (x : ℚ) : ℕ :=
  let b := floorAt ⌊x⌋₊
  let middle : ℚ := sig b + sig (b + 1)
  if 2 * x < middle then b else if middle < 2 * x then b + 1 else b + b % 2

/-- The position a rational rounds to, its sign apart. -/
def magnitude (q : ℚ) : ℕ := nearest (|q| * 2 ^ 1074)

/-- The bit pattern a rational rounds to. -/
def ofRat (q : ℚ) : UInt64 :=
  let b := min infinity (magnitude q)
  if q < 0 then UInt64.ofNat (2 ^ 63 + b) else UInt64.ofNat b

/-- The rational is a finite binary64 number. -/
def IsDouble (q : ℚ) : Prop := ∃ bits, toRat? bits = some q

/-- The rational does not overflow when rounded. -/
def Finite (q : ℚ) : Prop := magnitude q < infinity

instance (q : ℚ) : Decidable (Finite q) := inferInstanceAs (Decidable (_ < _))

/-- The number a rational rounds to. -/
def round (q : ℚ) : ℚ := (toRat? (ofRat q)).getD 0

/-! ### Positions -/

/-- A position as exponent and mantissa. -/
theorem sig_pack {e m : ℕ} (h : e = 0 ∨ 2 ^ 52 ≤ m) (hm : m ≤ 2 ^ 53) :
    sig (e * 2 ^ 52 + m) = m * 2 ^ e := by
  have hdiv : (e * 2 ^ 52 + m) / 2 ^ 52 = e + m / 2 ^ 52 := by
    rw [add_comm, Nat.add_mul_div_right _ _ (by positivity), add_comm]
  unfold sig
  rw [hdiv]
  rcases hm.eq_or_lt with rfl | hlt
  · -- The carry: the mantissa overflows into the next exponent.
    have : e + 2 ^ 53 / 2 ^ 52 - 1 = e + 1 := by omega
    rw [this]
    have : e * 2 ^ 52 + 2 ^ 53 - (e + 1) * 2 ^ 52 = 2 ^ 52 := by omega
    rw [this]
    ring
  · have : e + m / 2 ^ 52 - 1 = e := by omega
    rw [this, Nat.add_sub_cancel_left]

theorem exists_pack (b : ℕ) :
    ∃ e m, b = e * 2 ^ 52 + m ∧ (e = 0 ∨ 2 ^ 52 ≤ m) ∧ m < 2 ^ 53 := by
  refine ⟨b / 2 ^ 52 - 1, b - (b / 2 ^ 52 - 1) * 2 ^ 52, ?_, ?_, ?_⟩ <;> omega

theorem sig_lt_succ (b : ℕ) : sig b < sig (b + 1) := by
  obtain ⟨e, m, rfl, h, hm⟩ := exists_pack b
  rw [sig_pack h hm.le, add_assoc, sig_pack (by omega) hm]
  exact Nat.mul_lt_mul_of_pos_right (Nat.lt_succ_self m) (by positivity)

theorem sig_strictMono : StrictMono sig := strictMono_nat_of_lt_succ sig_lt_succ

theorem floorAt_spec (n : ℕ) : sig (floorAt n) ≤ n ∧ n < sig (floorAt n + 1) := by
  unfold floorAt
  generalize he : n.log2 - 52 = e
  have hlog : n < 2 ^ (e + 53) := by
    have h := Nat.lt_log2_self (n := n)
    exact h.trans_le (Nat.pow_le_pow_right (by norm_num) (by omega))
  have hm : n / 2 ^ e < 2 ^ 53 := by
    rw [Nat.div_lt_iff_lt_mul (by positivity), ← pow_add, add_comm]
    exact hlog
  have hnormal : e = 0 ∨ 2 ^ 52 ≤ n / 2 ^ e := by
    rcases Nat.eq_zero_or_pos e with h0 | hpos
    · exact Or.inl h0
    · refine Or.inr ((Nat.le_div_iff_mul_le (by positivity)).mpr ?_)
      have hn : n ≠ 0 := by rintro rfl; simp at he; omega
      rw [← pow_add]
      exact (Nat.pow_le_pow_right (by norm_num) (by omega)).trans (Nat.log2_self_le hn)
  rw [add_assoc, sig_pack hnormal hm.le, sig_pack (by omega) hm]
  exact ⟨Nat.div_mul_le_self n _, Nat.lt_mul_of_div_lt (Nat.lt_succ_self _) (by positivity)⟩

/-! ### Rounding -/

/-- Rounding stays at or below every position above. -/
theorem nearest_le {x : ℚ} (hx : 0 ≤ x) {b : ℕ} (h : x ≤ sig b) : nearest x ≤ b := by
  obtain ⟨hlo, -⟩ := floorAt_spec ⌊x⌋₊
  have hlox : (sig (floorAt ⌊x⌋₊) : ℚ) ≤ x := (Nat.cast_le.mpr hlo).trans (Nat.floor_le hx)
  have hle : floorAt ⌊x⌋₊ ≤ b := sig_strictMono.le_iff_le.mp (by exact_mod_cast hlox.trans h)
  have hstep : (sig (floorAt ⌊x⌋₊) : ℚ) < sig (floorAt ⌊x⌋₊ + 1) := by
    exact_mod_cast sig_lt_succ _
  unfold nearest
  dsimp only
  rcases hle.eq_or_lt with heq | hlt
  · -- `x` is the position itself.
    rw [heq] at hlox hstep ⊢
    rw [if_pos (by linarith)]
  · split
    · exact hle
    · split
      · exact hlt
      · omega

/-- A position rounds to itself. -/
theorem nearest_sig (b : ℕ) : nearest (sig b : ℚ) = b := by
  have hfloor : floorAt (sig b) = b := by
    obtain ⟨hlo, hhi⟩ := floorAt_spec (sig b)
    exact le_antisymm (sig_strictMono.le_iff_le.mp hlo)
      (Nat.lt_succ_iff.mp (sig_strictMono.lt_iff_lt.mp hhi))
  unfold nearest
  rw [Nat.floor_natCast, hfloor]
  have : (sig b : ℚ) < sig (b + 1) := by exact_mod_cast sig_lt_succ b
  rw [if_pos (by linarith)]

theorem toRat?_ofRat (q : ℚ) : toRat? (ofRat q) =
    if Finite q then some (if q < 0 then -((sig (magnitude q) : ℚ) / 2 ^ 1074)
      else (sig (magnitude q) : ℚ) / 2 ^ 1074)
    else none := by
  have hinf : infinity < 2 ^ 63 := by decide
  by_cases hf : Finite q
  · have hb : magnitude q < infinity := hf
    rw [if_pos hf]
    unfold toRat? ofRat
    rw [min_eq_right hb.le]
    generalize magnitude q = b at hb
    by_cases hq : q < 0
    · have h1 : (UInt64.ofNat (2 ^ 63 + b)).toNat = 2 ^ 63 + b := by
        rw [UInt64.toNat_ofNat']; omega
      simp only [hq, if_true, h1]
      rw [Nat.add_mod_left, Nat.mod_eq_of_lt (by omega), if_neg (by omega), if_neg (by omega)]
    · have h1 : (UInt64.ofNat b).toNat = b := by rw [UInt64.toNat_ofNat']; omega
      simp only [hq, if_false, h1]
      rw [Nat.mod_eq_of_lt (by omega), if_neg (by omega), if_pos (by omega)]
  · rw [if_neg hf]
    unfold toRat? ofRat
    rw [min_eq_left (not_lt.mp hf)]
    by_cases hq : q < 0
    · have h1 : (UInt64.ofNat (2 ^ 63 + infinity)).toNat = 2 ^ 63 + infinity := by decide
      simp only [hq, if_true, h1]
      rw [Nat.add_mod_left, Nat.mod_eq_of_lt (by omega), if_pos (le_refl _)]
    · have h1 : (UInt64.ofNat infinity).toNat = infinity := by decide
      simp only [hq, if_false, h1]
      rw [Nat.mod_eq_of_lt (by omega), if_pos (le_refl _)]

theorem toRat?_of_finite {q : ℚ} (h : Finite q) : toRat? (ofRat q) = some (round q) := by
  rw [round, toRat?_ofRat, if_pos h, Option.getD_some]

theorem toRat?_of_not_finite {q : ℚ} (h : ¬ Finite q) : toRat? (ofRat q) = none := by
  rw [toRat?_ofRat, if_neg h]

/-- The magnitude of a double is that of a position. -/
theorem IsDouble.abs {q : ℚ} (h : IsDouble q) : ∃ b < infinity, |q| * 2 ^ 1074 = sig b := by
  obtain ⟨bits, h⟩ := h
  unfold toRat? at h
  dsimp only at h
  split at h
  · cases h
  · rename_i hb
    refine ⟨bits.toNat % 2 ^ 63, not_le.mp hb, ?_⟩
    have hpos : (0 : ℚ) ≤ (sig (bits.toNat % 2 ^ 63) : ℚ) / 2 ^ 1074 := by positivity
    rw [Option.some.injEq] at h
    have : |q| = (sig (bits.toNat % 2 ^ 63) : ℚ) / 2 ^ 1074 := by
      rw [← h]
      split
      · exact abs_of_nonneg hpos
      · rw [abs_neg, abs_of_nonneg hpos]
    rw [this, div_mul_cancel₀ _ (by positivity)]

theorem IsDouble.finite {q : ℚ} (h : IsDouble q) : Finite q := by
  obtain ⟨b, hb, he⟩ := h.abs
  rw [Finite, magnitude, he, nearest_sig]
  exact hb

/-- Rounding leaves doubles alone. -/
theorem IsDouble.round {q : ℚ} (h : IsDouble q) : round q = q := by
  have hf := h.finite
  obtain ⟨b, -, he⟩ := h.abs
  rw [Double.round, toRat?_ofRat, if_pos hf, Option.getD_some, magnitude, he, nearest_sig, ← he,
    mul_div_cancel_right₀ _ (by positivity)]
  split
  · rename_i hq; rw [abs_of_neg hq, neg_neg]
  · rename_i hq; exact abs_of_nonneg (not_lt.mp hq)

instance (q : ℚ) : Decidable (IsDouble q) :=
  decidable_of_iff (toRat? (ofRat q) = some q)
    ⟨fun h => ⟨ofRat q, h⟩, fun h => (toRat?_of_finite h.finite).trans (congrArg some h.round)⟩

/-- Rounding keeps a rational between zero and a double there. -/
theorem round_mem {q M : ℚ} (hM : IsDouble M) (h₀ : 0 ≤ q) (h₁ : q ≤ M) :
    Finite q ∧ 0 ≤ round q ∧ round q ≤ M := by
  obtain ⟨b, hb, he⟩ := hM.abs
  have hM₀ : 0 ≤ M := h₀.trans h₁
  rw [abs_of_nonneg hM₀] at he
  have hx : |q| * 2 ^ 1074 ≤ sig b := by
    rw [abs_of_nonneg h₀, ← he]
    exact mul_le_mul_of_nonneg_right h₁ (by positivity)
  have hn : magnitude q ≤ b := nearest_le (by positivity) hx
  have hf : Finite q := hn.trans_lt hb
  refine ⟨hf, ?_⟩
  rw [Double.round, toRat?_ofRat, if_pos hf, Option.getD_some, if_neg (not_lt.mpr h₀)]
  refine ⟨by positivity, ?_⟩
  rw [div_le_iff₀ (by positivity), he]
  exact_mod_cast sig_strictMono.monotone hn

example : ofRat (1 / 3) = 0x3FD5555555555555 := by decide +kernel

end Lib.Double
