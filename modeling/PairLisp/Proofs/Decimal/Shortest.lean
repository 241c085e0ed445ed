import PairLisp.Proofs.Decimal.Rounding

/-! # The shortest decimal

The decimal that is written for a binary64 value rounds to the value, no decimal with fewer digits
does, and none with as many is nearer. It is met on the first grid that has a number rounding to the
value, and one of the first seventeen always has.
-/

namespace PairLisp.Decimal.Binary64

variable {x : Binary64} {c d : Decimal} {e : Int}

/-- What makes a decimal one to be written. Of two that lie equally near on both sides of the value
either will do. -/
structure IsShortest (x : Binary64) (d : Decimal) : Prop where
  canonical : d.IsCanonical
  rounds : x.Rounds d.value
  width_le : ∀ c : Decimal, x.Rounds c.value → d.width ≤ c.width
  nearest : ∀ c : Decimal, x.Rounds c.value → c.width ≤ d.width →
    |d.value - x.magnitude| ≤ |c.value - x.magnitude|

/-! ## One grid -/

/-- A neighbour of the value that rounds to it, and none that does is nearer. -/
structure IsBestAt (x : Binary64) (e : Int) (d : Decimal) : Prop where
  neighbour : d = x.below e ∨ d = x.above e
  rounds : x.Rounds d.value
  nearest : ∀ c, c = x.below e ∨ c = x.above e → x.Rounds c.value →
    |d.value - x.magnitude| ≤ |c.value - x.magnitude|

theorem abs_below (x : Binary64) (e : Int) :
    |(x.below e).value - x.magnitude| = x.magnitude - (x.below e).value := by
  rw [abs_sub_comm, abs_of_nonneg (sub_nonneg.2 (x.below_le_magnitude e))]

theorem abs_above (x : Binary64) (e : Int) :
    |(x.above e).value - x.magnitude| = (x.above e).value - x.magnitude :=
  abs_of_nonneg (sub_nonneg.2 (x.magnitude_lt_above e).le)

/-- The integers compare the value with the middle of its neighbours. -/
theorem compareScaled_middle (x : Binary64) (e : Int) :
    compareScaled (2 * x.floorAt e + 1) e (2 * x.significand) x.exponent = .gt ↔
      |(x.below e).value - x.magnitude| < |(x.above e).value - x.magnitude| := by
  have hmiddle : ((2 * x.floorAt e + 1 : Nat) : ℚ) * 10 ^ e =
      (x.below e).value + (x.above e).value := by
    simp only [below, above, value]
    push_cast
    ring
  have htwice : ((2 * x.significand : Nat) : ℚ) * 2 ^ x.exponent = x.magnitude + x.magnitude := by
    rw [magnitude]
    push_cast
    ring
  rw [compareScaled_eq_gt_iff, hmiddle, htwice, abs_below, abs_above]
  constructor <;> intro h <;> linarith

theorem isBestAt_below (h : x.roundsFrom (x.floorAt e) e = true)
    (habove : x.Rounds (x.above e).value →
      |(x.below e).value - x.magnitude| ≤ |(x.above e).value - x.magnitude|) :
    x.IsBestAt e (x.below e) where
  neighbour := .inl rfl
  rounds := roundsFrom_iff.1 h
  nearest := by
    rintro c (rfl | rfl) hc
    · exact le_rfl
    · exact habove hc

theorem isBestAt_above (h : x.roundsFrom (x.floorAt e + 1) e = true)
    (hbelow : x.Rounds (x.below e).value →
      |(x.above e).value - x.magnitude| ≤ |(x.below e).value - x.magnitude|) :
    x.IsBestAt e (x.above e) where
  neighbour := .inr rfl
  rounds := roundsFrom_iff.1 h
  nearest := by
    rintro c (rfl | rfl) hc
    · exact hbelow hc
    · exact le_rfl

theorem isBestAt_of_nearestAt? (h : x.nearestAt? e = some d) : x.IsBestAt e d := by
  rw [nearestAt?] at h
  split at h
  · cases h
  · next hbelow habove =>
    obtain rfl := Option.some.inj h
    refine isBestAt_below hbelow fun hrounds => ?_
    exact absurd (roundsFrom_iff.2 hrounds) (ne_true_of_eq_false habove)
  · next hbelow habove =>
    obtain rfl := Option.some.inj h
    refine isBestAt_above habove fun hrounds => ?_
    exact absurd (roundsFrom_iff.2 hrounds) (ne_true_of_eq_false hbelow)
  · next hbelow habove =>
    -- Both neighbours round to the value, and the middle between them tells which one is nearer.
    by_cases hmiddle : compareScaled (2 * x.floorAt e + 1) e (2 * x.significand) x.exponent = .gt
    · obtain rfl : x.below e = d := by simpa [hmiddle, below] using h
      exact isBestAt_below hbelow fun _ => ((compareScaled_middle x e).1 hmiddle).le
    · obtain rfl : x.above e = d := by simpa [hmiddle, above] using h
      refine isBestAt_above habove fun _ => not_lt.1 fun hlt => hmiddle ?_
      exact (compareScaled_middle x e).2 hlt

theorem nearestAt?_ne_none (h : x.Rounds c.value) (hc : c = x.below e ∨ c = x.above e) :
    x.nearestAt? e ≠ none := by
  have hrounds : x.roundsFrom (x.floorAt e) e = true ∨ x.roundsFrom (x.floorAt e + 1) e = true := by
    rcases hc with rfl | rfl
    · exact .inl (roundsFrom_iff.2 h)
    · exact .inr (roundsFrom_iff.2 h)
  rw [nearestAt?]
  split
  · next hbelow habove => simp [hbelow, habove] at hrounds
  · exact Option.some_ne_none _
  · exact Option.some_ne_none _
  · split <;> exact Option.some_ne_none _

/-! ## Finding the grid -/

theorem exists_first_of_findSome? {α : Type} {f : Nat → Option α} {m : Nat} {a : α}
    (h : (List.range m).findSome? f = some a) : ∃ n, f n = some a ∧ ∀ j < n, f j = none := by
  induction m with
  | zero => cases h
  | succ m ih =>
    rw [List.range_succ, List.findSome?_append] at h
    cases hfront : (List.range m).findSome? f with
    | some b =>
      rw [hfront, Option.some_or] at h
      exact ih (hfront.trans h)
    | none =>
      rw [hfront, Option.none_or, List.findSome?_singleton] at h
      exact ⟨m, h, fun j hj => List.findSome?_eq_none_iff.1 hfront j (List.mem_range.2 hj)⟩

/-- A decimal that rounds to the value has a neighbour of the value between itself and the value,
on the grid with as many digits. -/
theorem exists_neighbour (hx : x.WellFormed) (h : x.significand ≠ 0) {k : Nat} (hk : 0 < k)
    (hc : c.width ≤ k) (hrounds : x.Rounds c.value) :
    ∃ b, (b = x.below (x.order - k) ∨ b = x.above (x.order - k)) ∧ x.Rounds b.value ∧
      |b.value - x.magnitude| ≤ |c.value - x.magnitude| := by
  have hself := rounds_magnitude h
  rcases le_below_or_above_le hx h hk hc with hle | hle
  · have hbelow := x.below_le_magnitude (x.order - k)
    refine ⟨_, .inl rfl, hrounds.convex hself hle hbelow, ?_⟩
    rw [abs_below, abs_sub_comm, abs_of_nonneg (sub_nonneg.2 (hle.trans hbelow))]
    linarith
  · have habove := (x.magnitude_lt_above (x.order - k)).le
    refine ⟨_, .inr rfl, hself.convex hrounds habove hle, ?_⟩
    rw [abs_above, abs_of_nonneg (sub_nonneg.2 (habove.trans hle))]
    linarith

/-- The interval is four quarters of the last place wide, or three just above a power of two, where
the significand is smaller. -/
theorem exists_quarters (hx : x.WellFormed) (h : x.significand ≠ 0) :
    ∃ w : Nat, x.high - x.low = w * 2 ^ (x.exponent - 2) ∧ 4 * x.significand < w * 10 ^ 16 := by
  have hquarters {w : Nat} (hw : 4 * x.significand + 2 =
      (4 * x.significand - if x.narrowBelow then 1 else 2) + w) :
      x.high - x.low = w * 2 ^ (x.exponent - 2) := by
    rw [high, low, hw]
    push_cast
    ring
  cases hnarrow : x.narrowBelow with
  | true =>
    refine ⟨3, hquarters (by rw [hnarrow, if_pos rfl]; omega), ?_⟩
    rw [hx.narrow hnarrow]
    norm_num
  | false =>
    have hlt := hx.significand_lt
    exact ⟨4, hquarters (by rw [hnarrow, if_neg Bool.false_ne_true]; omega), by omega⟩

theorem unit_lt (hx : x.WellFormed) (h : x.significand ≠ 0) :
    (10 : ℚ) ^ (x.order - 17) < x.high - x.low := by
  obtain ⟨w, hwidth, hw⟩ := exists_quarters hx h
  have hw : ((4 * x.significand : Nat) : ℚ) < w * 10 ^ 16 := by exact_mod_cast hw
  have hunit : (10 : ℚ) ^ (x.order - 17) * 10 ^ 16 < w * 2 ^ (x.exponent - 2) * 10 ^ 16 := by
    have hsum : x.order - 17 + (16 : Nat) = x.order - 1 := by omega
    calc (10 : ℚ) ^ (x.order - 17) * 10 ^ 16 = 10 ^ (x.order - 1) := by
          rw [← hsum, zpow_add₀ (by norm_num), zpow_natCast]
      _ ≤ x.magnitude := (order_bounds hx h).1
      _ = (4 * x.significand : Nat) * 2 ^ (x.exponent - 2) := x.magnitude_eq
      _ < w * 10 ^ 16 * 2 ^ (x.exponent - 2) := mul_lt_mul_of_pos_right hw (by positivity)
      _ = w * 2 ^ (x.exponent - 2) * 10 ^ 16 := by ring
  rw [hwidth]
  exact lt_of_mul_lt_mul_right hunit (by positivity)

theorem exists_rounds_seventeen (hx : x.WellFormed) (h : x.significand ≠ 0) :
    ∃ b, (b = x.below (x.order - 17) ∨ b = x.above (x.order - 17)) ∧ x.Rounds b.value := by
  have hbelow := x.below_le_magnitude (x.order - 17)
  have habove := x.magnitude_lt_above (x.order - 17)
  have hgap : (x.above (x.order - 17)).value = (x.below (x.order - 17)).value +
      10 ^ (x.order - 17) := by
    simp only [below, above, value]
    push_cast
    ring
  have hunit := unit_lt hx h
  -- The neighbours cannot both be outside of the interval.
  rcases lt_or_ge x.low (x.below (x.order - 17)).value with hlow | hlow
  · exact ⟨_, .inl rfl, .inl hlow, .inl (hbelow.trans_lt x.magnitude_lt_high)⟩
  · exact ⟨_, .inr rfl, .inl ((low_lt_magnitude h).trans habove), .inl (by linarith)⟩

/-- The first grid on which a number rounds to the value, and the best one there. -/
theorem exists_first_grid (hx : x.WellFormed) (h : x.significand ≠ 0) :
    ∃ k d, 0 < k ∧ x.IsBestAt (x.order - (k : Nat)) d ∧ x.shortest = d.trimmed ∧
      ∀ j : Nat, 0 < j → j < k → x.nearestAt? (x.order - j) = none := by
  let grid (n : Nat) := x.nearestAt? (x.order - ((n : Int) + 1))
  cases hfound : (List.range 17).findSome? grid with
  | none =>
    obtain ⟨b, hb, hrounds⟩ := exists_rounds_seventeen hx h
    have hnone := List.findSome?_eq_none_iff.1 hfound 16 (by decide)
    exact absurd hnone (nearestAt?_ne_none hrounds hb)
  | some d =>
    obtain ⟨n, hbest, hnone⟩ := exists_first_of_findSome? hfound
    refine ⟨n + 1, d, Nat.succ_pos n, ?_, ?_, fun j hj hlt => ?_⟩
    · exact isBestAt_of_nearestAt? (by exact_mod_cast hbest)
    · rw [shortest, if_neg h]
      exact congrArg (fun found : Option Decimal => (found.getD x.exact).trimmed) hfound
    · obtain ⟨i, rfl⟩ := Nat.exists_eq_add_one.2 hj
      exact_mod_cast hnone i (Nat.lt_of_succ_lt_succ hlt)

theorem low_pos (h : x.significand ≠ 0) : 0 < x.low := by
  have hdigits : 0 < 4 * x.significand - if x.narrowBelow then 1 else 2 := by split <;> omega
  have hdigits : (0 : ℚ) < (4 * x.significand - if x.narrowBelow then 1 else 2 : Nat) := by
    exact_mod_cast hdigits
  rw [low]
  positivity

theorem digits_ne_zero (h : x.significand ≠ 0) (hrounds : x.Rounds d.value) : d.digits ≠ 0 := by
  intro hzero
  have hvalue : d.value = 0 := by rw [value, hzero, Nat.cast_zero, zero_mul]
  have hlow := low_pos h
  rcases hrounds.1 with hlt | ⟨heq, -⟩ <;> linarith

theorem width_trimmed_le (hx : x.WellFormed) (h : x.significand ≠ 0) {k : Nat} (hk : 0 < k)
    (hd : d = x.below (x.order - k) ∨ d = x.above (x.order - k)) (hdigits : d.digits ≠ 0) :
    d.trimmed.width ≤ k := by
  have hfloor : x.floorAt (x.order - k) < 10 ^ k := by
    refine Nat.lt_of_not_le fun hge => ?_
    have hpow : value ⟨1 * 10 ^ k, x.order - k⟩ = 10 ^ x.order := by
      rw [value_mul_pow, Int.sub_add_cancel, value, Nat.cast_one, one_mul]
    have hle := (value_mono hge).trans (x.below_le_magnitude (x.order - k))
    rw [← Nat.one_mul (10 ^ k), hpow] at hle
    exact absurd (order_bounds hx h).2 (not_lt.2 hle)
  have htrimmed := digits_trimmed hdigits
  have hvalue := value_trimmed d
  rcases Nat.lt_or_ge d.digits (10 ^ k) with hlt | hge
  · exact (width_le_of_value_eq htrimmed hvalue).trans ((width_le_iff hk).2 hlt)
  · -- Only the upper neighbour can have one digit more, and then it is a power of ten.
    obtain rfl : d = ⟨1 * 10 ^ k, x.order - k⟩ := by
      rcases hd with rfl | rfl
      · exact absurd hfloor (Nat.not_lt.2 hge)
      · have hsucc : x.floorAt (x.order - k) + 1 = 10 ^ k := Nat.le_antisymm hfloor hge
        rw [above, hsucc, Nat.one_mul]
    rw [value_mul_pow] at hvalue
    refine (width_le_of_value_eq htrimmed hvalue).trans ((width_le_iff hk).2 ?_)
    exact Nat.one_lt_pow hk.ne' (by decide)

theorem isShortest_zero (h : x.significand = 0) : x.IsShortest ⟨0, 0⟩ := by
  have hlow : x.low = 0 := by
    have hzero : 4 * 0 - (if x.narrowBelow then 1 else 2) = 0 := by omega
    rw [low, h, hzero, Nat.cast_zero, zero_mul]
  have hmagnitude : x.magnitude = 0 := by rw [magnitude, h, Nat.cast_zero, zero_mul]
  refine ⟨.inr rfl, ?_, fun c _ => c.width_pos, fun c _ _ => ?_⟩
  · rw [value_zero]
    exact ⟨.inr ⟨hlow.symm, by rw [h]⟩, .inl (hmagnitude ▸ x.magnitude_lt_high)⟩
  · rw [value_zero, hmagnitude, sub_zero, abs_zero]
    exact abs_nonneg _

theorem isShortest_shortest (hx : x.WellFormed) : x.IsShortest x.shortest := by
  by_cases h : x.significand = 0
  · rw [shortest, if_pos h]
    exact isShortest_zero h
  · obtain ⟨k, d, hk, hbest, hd, hnone⟩ := exists_first_grid hx h
    have hdigits := digits_ne_zero h hbest.rounds
    have hwidth := width_trimmed_le hx h hk hbest.neighbour hdigits
    rw [hd]
    refine ⟨.inl (digits_trimmed hdigits), ?_, fun c hc => ?_, fun c hc hle => ?_⟩
    · rw [value_trimmed]
      exact hbest.rounds
    · refine hwidth.trans (Nat.le_of_not_lt fun hlt => ?_)
      obtain ⟨b, hb, hrounds, -⟩ := exists_neighbour hx h c.width_pos le_rfl hc
      exact nearestAt?_ne_none hrounds hb (hnone c.width c.width_pos hlt)
    · obtain ⟨b, hb, hrounds, hnear⟩ := exists_neighbour hx h hk (hle.trans hwidth) hc
      rw [value_trimmed]
      exact (hbest.nearest b hb hrounds).trans hnear

end PairLisp.Decimal.Binary64
