/-
What rounding computes, in rationals. `nearestMagnitude` is the reference: the power of two of the
last place follows from the number's binary logarithm, and the number of units is rounded to the
nearest, a tie to the even one. The exact natural arithmetic of `roundRatio` agrees with it
(`roundRatio_eq`), so a numerator and denominator are rounded by their quotient alone, and decimals
of one value read as one binary64 number (`ofDecimal_eq_of_value_eq`). The value of a finite
magnitude is rounded to that magnitude (`nearestMagnitude_value`).
-/
import ScriptSyntax.Number.Shortest
import Mathlib.Algebra.Order.Field.Power
import Mathlib.Algebra.Order.Floor.Semifield
import Mathlib.Data.Int.Log
import Mathlib.Data.Rat.Floor
import Mathlib.Tactic.FieldSimp
import Mathlib.Tactic.Linarith
import Mathlib.Tactic.NormNum
import Mathlib.Tactic.Positivity
import Mathlib.Tactic.Ring

namespace ScriptSyntax

/-! ## Values -/

/-- The rational that a decimal writes. -/
def Decimal.value (d : Decimal) : ℚ := d.digits * 10 ^ d.exponent

theorem Decimal.value_eq_zero {d : Decimal} : d.value = 0 ↔ d.digits = 0 := by
  have h10 : (10 : ℚ) ^ d.exponent ≠ 0 := by positivity
  rw [value, mul_eq_zero, or_iff_left h10, Nat.cast_eq_zero]

theorem Decimal.ratio_spec (d : Decimal) :
    0 < d.ratio.2 ∧ (d.ratio.1 = 0 ↔ d.digits = 0) ∧ (d.ratio.1 : ℚ) / d.ratio.2 = d.value := by
  obtain ⟨n, e⟩ := d
  unfold ratio value
  simp only [Nat.pow_eq]
  by_cases he : 0 ≤ e
  · obtain ⟨k, rfl⟩ := Int.eq_ofNat_of_zero_le he
    rw [if_pos he]
    refine ⟨Nat.one_pos, by simp, ?_⟩
    simp
  · obtain ⟨k, rfl⟩ : ∃ k : Nat, e = -k := ⟨(-e).toNat, by omega⟩
    rw [if_neg he]
    refine ⟨by positivity, Iff.rfl, ?_⟩
    simp [div_eq_mul_inv]

namespace Binary64

/-- The absolute value of a finite magnitude. -/
def magnitudeValue (n : Nat) : ℚ := significand n * 2 ^ power n

theorem exactDecimal_value (n : Nat) : (exactDecimal n).value = magnitudeValue n := by
  unfold exactDecimal magnitudeValue Decimal.value
  simp only [Nat.pow_eq]
  generalize power n = p
  generalize significand n = m
  by_cases hp : 0 ≤ p
  · obtain ⟨k, rfl⟩ := Int.eq_ofNat_of_zero_le hp
    rw [if_pos hp]
    simp
  · obtain ⟨k, rfl⟩ : ∃ k : Nat, p = -k := ⟨(-p).toNat, by omega⟩
    have h : (10 : ℚ) ^ k = 2 ^ k * 5 ^ k := by rw [← mul_pow]; norm_num
    rw [if_neg hp]
    simp only [neg_neg, Int.toNat_natCast, Nat.cast_mul, Nat.cast_pow, Nat.cast_ofNat, zpow_neg,
      zpow_natCast, h]
    field_simp

/-! ## The reference -/

/-- The natural number nearest to a rational that is not negative, a tie to the even one. -/
def nearestEven (v : ℚ) : Nat :=
  if v - ⌊v⌋₊ < 1 / 2 then ⌊v⌋₊ else if 1 / 2 < v - ⌊v⌋₊ then ⌊v⌋₊ + 1 else ⌊v⌋₊ + ⌊v⌋₊ % 2

/-- The power of two of the last place of numbers near a positive rational. -/
def lastPlace (v : ℚ) : Int := max (Int.log 2 v - 52) (-1074)

/-- The magnitude nearest to a positive rational, possibly above infinity. -/
def nearestMagnitude (v : ℚ) : Nat :=
  (lastPlace v + 1074).toNat * 2 ^ 52 + nearestEven (v / 2 ^ lastPlace v)

/-! ## The computation agrees -/

theorem divNearest_eq (a : Nat) {b : Nat} (hb : 0 < b) : divNearest a b = nearestEven (a / b) := by
  have hbq : (0 : ℚ) < b := by exact_mod_cast hb
  have hfloor : ⌊(a : ℚ) / b⌋₊ = a / b := Nat.floor_div_eq_div a b
  have hrest : (a : ℚ) / b - (a / b : Nat) = (a % b : Nat) / b := by
    have hsplit : (a : ℚ) = b * (a / b : Nat) + (a % b : Nat) := by
      exact_mod_cast (Nat.div_add_mod a b).symm
    rw [eq_div_iff hbq.ne', sub_mul, div_mul_cancel₀ _ hbq.ne']
    linarith
  have hbelow : ((a % b : Nat) : ℚ) / b < 1 / 2 ↔ 2 * (a % b) < b := by
    rw [div_lt_div_iff₀ hbq two_pos, one_mul, mul_comm]
    exact_mod_cast Iff.rfl
  have habove : 1 / 2 < ((a % b : Nat) : ℚ) / b ↔ b < 2 * (a % b) := by
    rw [div_lt_div_iff₀ two_pos hbq, one_mul, mul_comm _ (2 : ℚ)]
    exact_mod_cast Iff.rfl
  unfold divNearest nearestEven
  simp only [hfloor, hrest, hbelow, habove]

theorem scaled_spec (num : Nat) {den : Nat} (hd : 0 < den) (q : Int) :
    0 < (scaled num den q).2 ∧
      ((scaled num den q).1 : ℚ) / (scaled num den q).2 = num / den / 2 ^ q := by
  have hdq : (0 : ℚ) < den := by exact_mod_cast hd
  unfold scaled
  simp only [Nat.pow_eq]
  by_cases hq : 0 ≤ q
  · obtain ⟨k, rfl⟩ := Int.eq_ofNat_of_zero_le hq
    rw [if_pos hq]
    refine ⟨by positivity, ?_⟩
    simp [div_div]
  · obtain ⟨k, rfl⟩ : ∃ k : Nat, q = -k := ⟨(-q).toNat, by omega⟩
    rw [if_neg hq]
    refine ⟨hd, ?_⟩
    simp only [neg_neg, Int.toNat_natCast, Nat.cast_mul, Nat.cast_pow, Nat.cast_ofNat, zpow_neg,
      zpow_natCast, div_inv_eq_mul]
    ring

section Quotient

variable {num den : Nat}

/-- The binary logarithms of numerator and denominator tell that of the quotient up to one. -/
theorem log_quotient (hn : 0 < num) (hd : 0 < den) :
    (num.log2 : Int) - den.log2 - 1 ≤ Int.log 2 ((num : ℚ) / den) ∧
      Int.log 2 ((num : ℚ) / den) ≤ (num.log2 : Int) - den.log2 := by
  have hdq : (0 : ℚ) < den := by exact_mod_cast hd
  have hv : (0 : ℚ) < num / den := by positivity
  have hn₁ : (2 : ℚ) ^ num.log2 ≤ num := by exact_mod_cast Nat.log2_self_le hn.ne'
  have hn₂ : (num : ℚ) < 2 ^ (num.log2 + 1) := by exact_mod_cast Nat.lt_log2_self
  have hd₁ : (2 : ℚ) ^ den.log2 ≤ den := by exact_mod_cast Nat.log2_self_le hd.ne'
  have hd₂ : (den : ℚ) < 2 ^ (den.log2 + 1) := by exact_mod_cast Nat.lt_log2_self
  have split : ∀ a b : Nat, (2 : ℚ) ^ ((a : Int) - b) = 2 ^ a / 2 ^ b := by
    intro a b
    rw [zpow_sub₀ two_ne_zero, zpow_natCast, zpow_natCast]
  constructor
  · have hle : ((2 : ℕ) : ℚ) ^ ((num.log2 : Int) - (den.log2 + 1 : Nat)) ≤ num / den := by
      rw [Nat.cast_ofNat, split, div_le_div_iff₀ (by positivity) hdq]
      exact mul_le_mul hn₁ hd₂.le hdq.le (by positivity)
    have := (Int.zpow_le_iff_le_log (by decide) hv).1 hle
    omega
  · have hlt : (num : ℚ) / den < ((2 : ℕ) : ℚ) ^ (((num.log2 + 1 : Nat) : Int) - den.log2) := by
      rw [Nat.cast_ofNat, split, div_lt_div_iff₀ hdq (by positivity)]
      exact mul_lt_mul hn₂ hd₁ (by positivity) (by positivity)
    have := (Int.lt_zpow_iff_log_lt (by decide) hv).1 hlt
    omega

theorem unitPower_eq (hn : 0 < num) (hd : 0 < den) :
    unitPower num den = lastPlace ((num : ℚ) / den) := by
  have hv : (0 : ℚ) < num / den := by
    have : (0 : ℚ) < den := by exact_mod_cast hd
    positivity
  obtain ⟨hlo, hhi⟩ := log_quotient hn hd
  -- the guess is right or one too low, and the quotient in its units tells which
  have htest : ∀ q, (scaled num den q).1 / (scaled num den q).2 < 2 ^ 53 ↔
      Int.log 2 ((num : ℚ) / den) < 53 + q := by
    intro q
    obtain ⟨hpos, hval⟩ := scaled_spec num hd q
    have hposq : (0 : ℚ) < (scaled num den q).2 := by exact_mod_cast hpos
    rw [Nat.div_lt_iff_lt_mul hpos, ← Int.lt_zpow_iff_log_lt (by decide) hv, Nat.cast_ofNat,
      zpow_add₀ two_ne_zero, ← div_lt_iff₀ (by positivity), ← hval, div_lt_iff₀ hposq]
    exact_mod_cast Iff.rfl
  unfold unitPower lastPlace
  simp only [Nat.pow_eq, htest]
  split <;> omega

/-- A numerator and a denominator are rounded by their quotient. -/
theorem roundRatio_eq (hn : 0 < num) (hd : 0 < den) :
    roundRatio num den = nearestMagnitude ((num : ℚ) / den) := by
  unfold roundRatio nearestMagnitude
  rw [unitPower_eq hn hd]
  obtain ⟨hpos, hval⟩ := scaled_spec num hd (lastPlace ((num : ℚ) / den))
  simp only [Nat.pow_eq, divNearest_eq _ hpos, hval]

end Quotient

theorem ofDecimal_eq (d : Decimal) : ofDecimal d =
    ofMagnitude false (if d.value = 0 then 0 else nearestMagnitude d.value) := by
  obtain ⟨hden, hzero, hval⟩ := d.ratio_spec
  unfold ofDecimal ofRatio
  simp only [Decimal.value_eq_zero, hzero]
  by_cases h0 : d.digits = 0
  · rw [if_pos h0, if_pos h0]
  · have hnum : 0 < d.ratio.1 := Nat.pos_of_ne_zero fun h => h0 (hzero.1 h)
    rw [if_neg h0, if_neg h0, roundRatio_eq hnum hden, hval]

/-- How a decimal is written does not matter, only its value. -/
theorem ofDecimal_eq_of_value_eq {d d' : Decimal} (h : d.value = d'.value) :
    ofDecimal d = ofDecimal d' := by
  rw [ofDecimal_eq, ofDecimal_eq, h]

/-! ## Values of magnitudes -/

theorem nearestEven_natCast (n : Nat) : nearestEven n = n := by
  unfold nearestEven
  rw [Nat.floor_natCast, sub_self, if_pos (by norm_num)]

theorem magnitudeValue_pos {n : Nat} (h : 0 < n) : 0 < magnitudeValue n := by
  have hs : 0 < significand n := by
    unfold significand
    simp only [Nat.pow_eq]
    split <;> omega
  have : (0 : ℚ) < significand n := by exact_mod_cast hs
  unfold magnitudeValue
  positivity

/-- The last place of a value is the one of its magnitude: a significand has 53 binary digits, or
fewer where no smaller place exists. -/
theorem lastPlace_magnitudeValue {n : Nat} (h : 0 < n) : lastPlace (magnitudeValue n) = power n := by
  have hv := magnitudeValue_pos h
  have hplace : (0 : ℚ) < 2 ^ power n := by positivity
  have hs : significand n < 2 ^ 53 := by
    unfold significand
    simp only [Nat.pow_eq]
    split <;> omega
  have hhi : Int.log 2 (magnitudeValue n) < 53 + power n := by
    rw [← Int.lt_zpow_iff_log_lt (by decide) hv, Nat.cast_ofNat, zpow_add₀ two_ne_zero,
      magnitudeValue]
    exact mul_lt_mul_of_pos_right (by exact_mod_cast hs) hplace
  by_cases hn : n < 2 ^ 52
  · have hp : power n = -1074 := if_pos hn
    unfold lastPlace
    omega
  · have hp : power n = (n / 2 ^ 52 : Nat) - 1075 := if_neg hn
    have hs' : 2 ^ 52 ≤ significand n := by
      rw [significand, Nat.pow_eq, if_neg hn]
      exact Nat.le_add_right ..
    have hlo : 52 + power n ≤ Int.log 2 (magnitudeValue n) := by
      rw [← Int.zpow_le_iff_le_log (by decide) hv, Nat.cast_ofNat, zpow_add₀ two_ne_zero,
        magnitudeValue]
      exact mul_le_mul_of_nonneg_right (by exact_mod_cast hs') hplace.le
    unfold lastPlace
    omega

/-- The value of a magnitude is rounded to it. -/
theorem nearestMagnitude_value {n : Nat} (h : 0 < n) : nearestMagnitude (magnitudeValue n) = n := by
  unfold nearestMagnitude
  rw [lastPlace_magnitudeValue h, magnitudeValue, mul_div_assoc, div_self (by positivity), mul_one,
    nearestEven_natCast]
  unfold power significand
  simp only [Nat.pow_eq]
  split <;> omega

/-! ## Numbers in range -/

theorem nearestEven_le (v : ℚ) : nearestEven v ≤ ⌊v⌋₊ + 1 := by
  unfold nearestEven
  split
  · exact Nat.le_succ _
  split <;> omega

/-- A number within the powers of two that are finite is not rounded to infinity. -/
theorem nearestMagnitude_lt {v : ℚ} {k : Nat} (hv : 0 < v) (hvk : v < 2 ^ k) (hk : k ≤ 1023) :
    nearestMagnitude v < infinityMagnitude := by
  have hlog : Int.log 2 v < k := by
    rw [← Int.lt_zpow_iff_log_lt (by decide) hv, zpow_natCast]
    exact_mod_cast hvk
  have hplace : Int.log 2 v - 52 ≤ lastPlace v := le_max_left ..
  -- there are fewer than `2 ^ 53` units of the last place
  have hunits : v / 2 ^ lastPlace v < (2 ^ 53 : Nat) := by
    rw [div_lt_iff₀ (by positivity)]
    have hlast : v < 2 ^ (lastPlace v + 53) := by
      have := Int.lt_zpow_succ_log_self (b := 2) (by decide) v
      refine lt_of_lt_of_le (by exact_mod_cast this) (zpow_le_zpow_right₀ one_le_two ?_)
      omega
    rw [zpow_add₀ two_ne_zero] at hlast
    push_cast
    rw [mul_comm]
    exact_mod_cast hlast
  have hfloor : ⌊v / 2 ^ lastPlace v⌋₊ < 2 ^ 53 := (Nat.floor_lt (by positivity)).2 hunits
  have hnear := nearestEven_le (v / 2 ^ lastPlace v)
  have hexp : (lastPlace v + 1074).toNat ≤ k + 1021 := by
    unfold lastPlace
    omega
  unfold nearestMagnitude infinityMagnitude
  simp only [Nat.pow_eq]
  omega

theorem isInfinite_ofDecimal {d : Decimal} {k : Nat} (hd : d.value < 2 ^ k) (hk : k ≤ 1023) :
    (ofDecimal d).isInfinite = false := by
  rw [ofDecimal_eq, isInfinite, decide_eq_false_iff_not, ofMagnitude]
  have hnonneg : 0 ≤ d.value := by
    unfold Decimal.value
    positivity
  split
  · show min 0 infinityMagnitude ≠ infinityMagnitude
    decide
  · have hpos : 0 < d.value := lt_of_le_of_ne hnonneg (Ne.symm ‹_›)
    have := nearestMagnitude_lt hpos hd hk
    simp only
    omega

/-- The exact decimal of a finite magnitude reads back. -/
theorem readsBack_exactDecimal {n : Nat} (h : n < infinityMagnitude) :
    readsBack n (exactDecimal n) = true := by
  rw [readsBack, ofDecimal_eq, exactDecimal_value]
  rcases Nat.eq_zero_or_pos n with rfl | hn
  · rw [if_pos (by simp [magnitudeValue, significand])]
    rfl
  · rw [if_neg (magnitudeValue_pos hn).ne', nearestMagnitude_value hn, ofMagnitude]
    simp only [Nat.min_eq_left h.le, decide_true]

end Binary64

end ScriptSyntax
