import PairLisp.Decimal.Shortest
import PairLisp.Proofs.Decimal.Values

/-! # The numbers that round to a value

The comparisons on integers say how a decimal lies to the ends of the interval of the numbers that
round to a binary64 value, and to the value itself. A decimal with a given number of digits never
lies strictly between the neighbours of the value on the grid that has so many digits.
-/

namespace PairLisp.Decimal

theorem zpow_mul_pow_toNat {b : ℚ} (hb : b ≠ 0) (z : Int) :
    b ^ z * b ^ (-z).toNat = b ^ z.toNat := by
  rw [← zpow_natCast, ← zpow_natCast, ← zpow_add₀ hb]
  congr 1
  omega

namespace Binary64

variable {x : Binary64} {d : Nat} {e p : Int} {n : Nat}

theorem compareScaled_eq : compareScaled d e n p = cmp ((d : ℚ) * 10 ^ e) (n * 2 ^ p) := by
  have hscale : (0 : ℚ) < 10 ^ (-e).toNat * 2 ^ (-p).toNat := by positivity
  have hten := zpow_mul_pow_toNat (b := 10) (by norm_num) e
  have htwo := zpow_mul_pow_toNat (b := 2) (by norm_num) p
  have hleft : ((d * 10 ^ e.toNat * 2 ^ (-p).toNat : Nat) : ℚ) =
      d * 10 ^ e * (10 ^ (-e).toNat * 2 ^ (-p).toNat) := by
    push_cast
    rw [← hten]
    ring
  have hright : ((n * 2 ^ p.toNat * 10 ^ (-e).toNat : Nat) : ℚ) =
      n * 2 ^ p * (10 ^ (-e).toNat * 2 ^ (-p).toNat) := by
    push_cast
    rw [← htwo]
    ring
  rw [compareScaled, ← cmp_eq_compare, ← (Nat.strictMono_cast (α := ℚ)).cmp_map_eq]
  exact (congrArg₂ cmp hleft hright).trans (cmp_mul_pos_right hscale _ _)

theorem compareScaled_eq_lt_iff :
    compareScaled d e n p = .lt ↔ (d : ℚ) * 10 ^ e < n * 2 ^ p := by
  rw [compareScaled_eq, cmp_eq_lt_iff]

theorem compareScaled_eq_eq_iff :
    compareScaled d e n p = .eq ↔ (d : ℚ) * 10 ^ e = n * 2 ^ p := by
  rw [compareScaled_eq, cmp_eq_eq_iff]

theorem compareScaled_eq_gt_iff :
    compareScaled d e n p = .gt ↔ (n : ℚ) * 2 ^ p < d * 10 ^ e := by
  rw [compareScaled_eq, cmp_eq_gt_iff]

/-! ## The interval -/

def magnitude (x : Binary64) : ℚ := x.significand * 2 ^ x.exponent

/-- Midway to the value below. -/
def low (x : Binary64) : ℚ :=
  (4 * x.significand - if x.narrowBelow then 1 else 2 : Nat) * 2 ^ (x.exponent - 2)

def high (x : Binary64) : ℚ := (4 * x.significand + 2 : Nat) * 2 ^ (x.exponent - 2)

/-- The number rounds to `x`, ties going to even. -/
def Rounds (x : Binary64) (q : ℚ) : Prop :=
  (x.low < q ∨ q = x.low ∧ x.significand % 2 = 0) ∧
    (q < x.high ∨ q = x.high ∧ x.significand % 2 = 0)

theorem roundsFrom_iff : x.roundsFrom d e = true ↔ x.Rounds (value ⟨d, e⟩) := by
  simp [roundsFrom, compareScaled_eq_lt_iff, compareScaled_eq_eq_iff, compareScaled_eq_gt_iff,
    Rounds, low, high, value]

theorem Rounds.convex {q r s : ℚ} (hq : x.Rounds q) (hs : x.Rounds s) (hqr : q ≤ r) (hrs : r ≤ s) :
    x.Rounds r := by
  obtain ⟨hlow, -⟩ := hq
  obtain ⟨-, hhigh⟩ := hs
  constructor
  · rcases hlow with hlt | ⟨heq, heven⟩
    · exact .inl (lt_of_lt_of_le hlt hqr)
    · exact (lt_or_eq_of_le (heq.symm.trans_le hqr)).imp_right fun h => ⟨h.symm, heven⟩
  · rcases hhigh with hlt | ⟨heq, heven⟩
    · exact .inl (lt_of_le_of_lt hrs hlt)
    · exact (lt_or_eq_of_le (hrs.trans_eq heq)).imp_right fun h => ⟨h, heven⟩

theorem magnitude_eq (x : Binary64) :
    x.magnitude = (4 * x.significand : Nat) * 2 ^ (x.exponent - 2) := by
  rw [magnitude, zpow_sub₀ (by norm_num)]
  push_cast
  ring

theorem magnitude_lt_high (x : Binary64) : x.magnitude < x.high := by
  rw [magnitude_eq, high]
  gcongr
  exact Nat.lt_add_of_pos_right (by decide)

theorem low_lt_magnitude (h : x.significand ≠ 0) : x.low < x.magnitude := by
  rw [magnitude_eq, low]
  gcongr
  split <;> omega

theorem rounds_magnitude (h : x.significand ≠ 0) : x.Rounds x.magnitude :=
  ⟨.inl (low_lt_magnitude h), .inl x.magnitude_lt_high⟩

/-! ## Grids -/

/-- The neighbour of `x` below it, or `x` itself, among the multiples of `10 ^ e`. -/
def below (x : Binary64) (e : Int) : Decimal := ⟨x.floorAt e, e⟩

def above (x : Binary64) (e : Int) : Decimal := ⟨x.floorAt e + 1, e⟩

theorem floorAt_eq (x : Binary64) (e : Int) : ∃ k : Nat, ∃ a b : Nat, 0 < k ∧
    (a : ℚ) = x.magnitude * k ∧ (b : ℚ) = 10 ^ e * k ∧ x.floorAt e = a / b := by
  have hten := zpow_mul_pow_toNat (b := 10) (by norm_num) e
  have htwo := zpow_mul_pow_toNat (b := 2) (by norm_num) x.exponent
  refine ⟨2 ^ (-x.exponent).toNat * 10 ^ (-e).toNat, _, _, by positivity, ?_, ?_, rfl⟩
  · push_cast [Nat.pow_eq]
    rw [magnitude, ← htwo]
    ring
  · push_cast [Nat.pow_eq]
    rw [← hten]
    ring

theorem below_le_magnitude (x : Binary64) (e : Int) : (x.below e).value ≤ x.magnitude := by
  obtain ⟨k, a, b, hk, ha, hb, hfloor⟩ := x.floorAt_eq e
  have hscale : (0 : ℚ) < k := by exact_mod_cast hk
  have hle : ((a / b * b : Nat) : ℚ) ≤ a := by exact_mod_cast Nat.div_mul_le_self a b
  push_cast [ha, hb] at hle
  refine le_of_mul_le_mul_right ?_ hscale
  rw [below, value, hfloor]
  linarith

theorem magnitude_lt_above (x : Binary64) (e : Int) : x.magnitude < (x.above e).value := by
  obtain ⟨k, a, b, hk, ha, hb, hfloor⟩ := x.floorAt_eq e
  have hscale : (0 : ℚ) < k := by exact_mod_cast hk
  have hpos : 0 < b := by
    have hb' : (0 : ℚ) < b := by rw [hb]; positivity
    exact_mod_cast hb'
  have hlt : (a : ℚ) < (b * (a / b + 1) : Nat) := by exact_mod_cast Nat.lt_mul_div_succ a hpos
  push_cast [ha, hb] at hlt
  refine lt_of_mul_lt_mul_right ?_ hscale.le
  rw [above, value, hfloor]
  push_cast
  linarith

/-- The values that the format has; their units are no finer than `2 ^ (-1074)`. -/
structure WellFormed (x : Binary64) : Prop where
  significand_lt : x.significand < 2 ^ 53
  exponent_ge : -1074 ≤ x.exponent
  narrow : x.narrowBelow = true → x.significand = 2 ^ 52

theorem wellFormed_ofBits (bits : UInt64) : (ofBits bits).WellFormed := by
  have hfraction : (bits &&& 0xFFFFFFFFFFFFF).toNat < 2 ^ 52 := by
    rw [UInt64.toNat_and]
    exact Nat.lt_of_le_of_lt Nat.and_le_right (by decide)
  rw [ofBits]
  split
  · exact ⟨by simp only; omega, by simp only; omega, by simp⟩
  · next hbiased =>
    refine ⟨by simp only; omega, by simp only; omega, fun hnarrow => ?_⟩
    have hzero := (of_decide_eq_true hnarrow).1
    simp only [hzero]
    rfl

theorem tiny_le_magnitude (hx : x.WellFormed) (h : x.significand ≠ 0) :
    (10 : ℚ) ^ (-324 : Int) ≤ x.magnitude := by
  have hone : (1 : ℚ) ≤ x.significand := by exact_mod_cast Nat.one_le_iff_ne_zero.2 h
  have hpow : (2 : ℚ) ^ 1074 ≤ 10 ^ 324 := by
    exact_mod_cast (by decide +kernel : (2 : Nat) ^ 1074 ≤ 10 ^ 324)
  calc (10 : ℚ) ^ (-324 : Int) ≤ 2 ^ (-1074 : Int) := inv_anti₀ (by positivity) hpow
    _ ≤ 2 ^ x.exponent := zpow_le_zpow_right₀ (by norm_num) hx.exponent_ge
    _ ≤ x.magnitude := le_mul_of_one_le_left (by positivity) hone

/-- The order counts the digits before the point, or the zeros behind it. -/
theorem order_bounds (hx : x.WellFormed) (h : x.significand ≠ 0) :
    10 ^ (x.order - 1) ≤ x.magnitude ∧ x.magnitude < 10 ^ x.order := by
  have hle := x.below_le_magnitude (-324)
  have hlt := x.magnitude_lt_above (-324)
  have horder : (x.below (-324)).leading = x.order - 1 := by
    simp only [leading_eq, order, below, width]
    omega
  have hne : (x.below (-324)).digits ≠ 0 := by
    intro hzero
    have hone : (x.above (-324)).value = 10 ^ (-324 : Int) := by
      rw [value, above, show x.floorAt (-324) = 0 from hzero]
      norm_num
    exact absurd (tiny_le_magnitude hx h) (not_le.2 (hone ▸ hlt))
  refine ⟨horder ▸ (pow_leading_le hne).trans hle, lt_of_lt_of_le hlt ?_⟩
  have hwidth := (x.below (-324)).digits_lt_pow_width
  have hsum : x.order = ((x.below (-324)).width : Int) + -324 := by
    simp only [leading_eq, below] at horder ⊢
    omega
  rw [hsum, zpow_add₀ (by norm_num), zpow_natCast, value, above]
  gcongr
  exact_mod_cast hwidth

/-- No decimal with at most `k` digits lies between the neighbours on the grid with `k` digits. -/
theorem le_below_or_above_le {c : Decimal} {k : Nat} (hx : x.WellFormed) (h : x.significand ≠ 0)
    (hk : 0 < k) (hc : c.width ≤ k) :
    c.value ≤ (x.below (x.order - k)).value ∨ (x.above (x.order - k)).value ≤ c.value := by
  rcases Int.lt_or_le c.exponent (x.order - k) with hlt | hle
  · -- It is below the least number with so many digits before the point, which is on the grid.
    have hgrid : value ⟨10 ^ (k - 1), x.order - k⟩ = 10 ^ (x.order - 1) := by
      have hsum : x.order - k + (k - 1 : Nat) = x.order - 1 := by omega
      rw [← Nat.one_mul (10 ^ (k - 1)), value_mul_pow, hsum, value, Nat.cast_one, one_mul]
    have hreach : 10 ^ (k - 1) ≤ x.floorAt (x.order - k) := by
      refine Nat.le_of_lt_succ (Nat.lt_of_not_le fun hge => ?_)
      have hgrid := hgrid ▸ (order_bounds hx h).1
      exact absurd (x.magnitude_lt_above (x.order - k)) (not_lt.2 ((value_mono hge).trans hgrid))
    refine .inl (le_trans ?_ (value_mono hreach))
    rw [hgrid]
    refine (c.value_lt_pow_leading).le.trans (zpow_le_zpow_right₀ (by norm_num) ?_)
    rw [leading_eq]
    omega
  · -- The decimal is a multiple of the unit of the grid.
    obtain ⟨j, hj⟩ := Int.le.dest hle
    have hvalue : c.value = value ⟨c.digits * 10 ^ j, x.order - k⟩ := by rw [value_mul_pow, hj]
    rw [hvalue]
    exact (Nat.lt_or_ge _ _).imp (fun hlt => value_mono (Nat.le_of_lt_succ hlt)) (value_mono ·)

end Binary64
end PairLisp.Decimal
