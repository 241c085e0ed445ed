import Mathlib.Algebra.Order.Field.Power
import Mathlib.Tactic.FieldSimp
import Mathlib.Tactic.Linarith
import Mathlib.Tactic.Positivity
import Mathlib.Tactic.Ring
import PairLisp.Decimal.Basic

/-! # The numbers that decimals denote

A decimal denotes a rational number, and trailing zeros make no difference to it: a decimal without
them has as few digits as any other for its number. The power of ten of the leading digit is a
property of the number alone.
-/

namespace PairLisp.Decimal

variable {c d : Decimal}

def value (d : Decimal) : ℚ := d.digits * 10 ^ d.exponent

def width (d : Decimal) : Nat := (Nat.toDigits 10 d.digits).length

/-- Zero is written with one digit, and any other number without trailing zeros. -/
def IsCanonical (d : Decimal) : Prop := d.digits % 10 ≠ 0 ∨ d = ⟨0, 0⟩

theorem value_zero : value ⟨0, 0⟩ = 0 := by
  rw [value, Nat.cast_zero, zero_mul]

theorem value_mono {m n : Nat} {e : Int} (h : m ≤ n) : value ⟨m, e⟩ ≤ value ⟨n, e⟩ := by
  simp only [value]
  gcongr

theorem value_inj {m n : Nat} {e : Int} : value ⟨m, e⟩ = value ⟨n, e⟩ ↔ m = n := by
  have hunit : (10 : ℚ) ^ e ≠ 0 := by positivity
  simp [value, hunit]

theorem value_mul_pow (n k : Nat) (e : Int) : value ⟨n * 10 ^ k, e⟩ = value ⟨n, e + k⟩ := by
  simp only [value]
  rw [zpow_add₀ (by norm_num), zpow_natCast]
  push_cast
  ring

/-! ## Digits -/

theorem width_pos (d : Decimal) : 0 < d.width := Nat.length_toDigits_pos

theorem width_le_iff {k : Nat} (hk : 0 < k) : d.width ≤ k ↔ d.digits < 10 ^ k :=
  Nat.length_toDigits_le_iff (by decide) hk

theorem digits_lt_pow_width (d : Decimal) : d.digits < 10 ^ d.width :=
  (width_le_iff d.width_pos).1 (Nat.le_refl _)

theorem pow_width_le (h : d.digits ≠ 0) : 10 ^ (d.width - 1) ≤ d.digits := by
  rcases Nat.eq_zero_or_pos (d.width - 1) with hone | hmore
  · rw [hone]
    exact Nat.one_le_iff_ne_zero.2 h
  · refine Nat.le_of_not_lt fun hlt => ?_
    have hle := (width_le_iff hmore).2 hlt
    omega

theorem width_le_width (h : c.digits ≤ d.digits) : c.width ≤ d.width :=
  (width_le_iff d.width_pos).2 (Nat.lt_of_le_of_lt h d.digits_lt_pow_width)

theorem leading_eq (d : Decimal) : d.leading = d.exponent + d.width - 1 := rfl

theorem pow_leading_le (h : d.digits ≠ 0) : 10 ^ d.leading ≤ d.value := by
  have hwidth := d.width_pos
  have hsum : d.leading = (d.width - 1 : Nat) + d.exponent := by
    rw [leading_eq]
    omega
  have hdigits : (10 : ℚ) ^ (d.width - 1) ≤ d.digits := by exact_mod_cast pow_width_le h
  rw [hsum, zpow_add₀ (by norm_num), zpow_natCast, value]
  exact mul_le_mul_of_nonneg_right hdigits (by positivity)

theorem value_lt_pow_leading (d : Decimal) : d.value < 10 ^ (d.leading + 1) := by
  have hsum : d.leading + 1 = (d.width : Int) + d.exponent := by
    rw [leading_eq]
    omega
  have hdigits : (d.digits : ℚ) < 10 ^ d.width := by exact_mod_cast d.digits_lt_pow_width
  rw [hsum, zpow_add₀ (by norm_num), zpow_natCast, value]
  exact mul_lt_mul_of_pos_right hdigits (by positivity)

/-- The power of ten of a number with one digit, other than zero, before the point. Zero has the
power zero. -/
def HasPower (q : ℚ) (p : Int) : Prop := 10 ^ p ≤ q ∧ q < 10 ^ (p + 1) ∨ q = 0 ∧ p = 0

theorem hasPower_iff (hd : d.IsCanonical) {p : Int} : HasPower d.value p ↔ p = d.leading := by
  have hten : (1 : ℚ) < 10 := by norm_num
  rcases hd with hd | rfl
  · have hdigits : d.digits ≠ 0 := fun hzero => hd (by rw [hzero])
    have hle := pow_leading_le hdigits
    have hlt := d.value_lt_pow_leading
    constructor
    · rintro (⟨hp, hp'⟩ | ⟨hzero, -⟩)
      · have hup := (zpow_lt_zpow_iff_right₀ hten).1 (hp.trans_lt hlt)
        have hdown := (zpow_lt_zpow_iff_right₀ hten).1 (hle.trans_lt hp')
        omega
      · have hpos : (0 : ℚ) < 10 ^ d.leading := by positivity
        linarith
    · rintro rfl
      exact .inl ⟨hle, hlt⟩
  · have hleading : leading ⟨0, 0⟩ = 0 := rfl
    rw [value_zero, hleading, HasPower]
    refine ⟨?_, fun hp => .inr ⟨rfl, hp⟩⟩
    rintro (⟨hp, -⟩ | ⟨-, hp⟩)
    · have hpos : (0 : ℚ) < 10 ^ p := by positivity
      linarith
    · exact hp

/-! ## Trailing zeros -/

theorem value_trimmed (d : Decimal) : d.trimmed.value = d.value := by
  fun_induction trimmed d with
  | case1 d h ih =>
    have hdigits : d.digits / 10 * 10 ^ 1 = d.digits := by omega
    calc (trimmed ⟨d.digits / 10, d.exponent + 1⟩).value
        = value ⟨d.digits / 10, d.exponent + (1 : Nat)⟩ := ih
      _ = d.value := by rw [← value_mul_pow, hdigits]
  | case2 => rfl

theorem digits_trimmed (h : d.digits ≠ 0) : d.trimmed.digits % 10 ≠ 0 := by
  fun_induction trimmed d with
  | case1 d hzero ih => exact ih (by simp only; omega)
  | case2 d hdigits => exact fun hzero => hdigits ⟨h, hzero⟩

/-- No decimal for the same number has a greater unit than one without trailing zeros. -/
theorem exists_digits_eq (hc : c.digits % 10 ≠ 0) (h : c.value = d.value) :
    ∃ k, d.digits = c.digits * 10 ^ k := by
  obtain ⟨m, e⟩ := c
  obtain ⟨n, f⟩ := d
  rcases Int.le_total f e with hle | hle
  · obtain ⟨k, rfl⟩ := Int.le.dest hle
    rw [← value_mul_pow, value_inj] at h
    exact ⟨k, h.symm⟩
  · obtain ⟨k, rfl⟩ := Int.le.dest hle
    rw [← value_mul_pow, value_inj] at h
    cases k with
    | zero => exact ⟨0, by simpa using h.symm⟩
    | succ k => exact absurd (by rw [h, Nat.pow_succ, ← Nat.mul_assoc, Nat.mul_mod_left]) hc

theorem width_le_of_value_eq (hc : c.digits % 10 ≠ 0) (h : c.value = d.value) :
    c.width ≤ d.width := by
  obtain ⟨k, hk⟩ := exists_digits_eq hc h
  refine width_le_width ?_
  rw [hk]
  exact Nat.le_mul_of_pos_right _ (by positivity)

end PairLisp.Decimal
