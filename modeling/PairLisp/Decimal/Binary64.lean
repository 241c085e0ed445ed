/-! # Finite binary64 values as integers times powers of two

The magnitude of a finite value is `significand * 2 ^ exponent`. The reals that round to it form an
interval around it, whose ends belong to it exactly when the significand is even. The interval is
described here by integers on a grid four times as fine, so that a decimal can be compared with its
ends without any division.
-/

namespace PairLisp.Decimal

/-- A finite magnitude; the gap to the value below is halved just above a power of two. -/
structure Binary64 where
  significand : Nat
  exponent : Int
  narrowBelow : Bool
  deriving Repr, DecidableEq

namespace Binary64

/-- The magnitude that the low sixty-three bits of a finite value encode. -/
def ofBits (bits : UInt64) : Binary64 :=
  let biased := ((bits >>> 52) &&& 0x7FF).toNat
  let fraction := (bits &&& 0xFFFFFFFFFFFFF).toNat
  if biased = 0 then ⟨fraction, -1074, false⟩
  else ⟨0x10000000000000 + fraction, (biased : Int) - 1075, fraction = 0 ∧ 1 < biased⟩

/-- Compares `d * 10 ^ e` with `n * 2 ^ p`. -/
def compareScaled (d : Nat) (e : Int) (n : Nat) (p : Int) : Ordering :=
  compare (d * Nat.pow 10 e.toNat * Nat.pow 2 (-p).toNat)
    (n * Nat.pow 2 p.toNat * Nat.pow 10 (-e).toNat)

/-- Whether `d * 10 ^ e` lies among the reals that round to `x`, ties going to even. -/
def roundsFrom (x : Binary64) (d : Nat) (e : Int) : Bool :=
  let low := compareScaled d e (4 * x.significand - if x.narrowBelow then 1 else 2) (x.exponent - 2)
  let high := compareScaled d e (4 * x.significand + 2) (x.exponent - 2)
  let even := x.significand % 2 = 0
  (low = .gt ∨ low = .eq ∧ even) ∧ (high = .lt ∨ high = .eq ∧ even)

def floorAt (x : Binary64) (e : Int) : Nat :=
  x.significand * Nat.pow 2 x.exponent.toNat * Nat.pow 10 (-e).toNat /
    (Nat.pow 2 (-x.exponent).toNat * Nat.pow 10 e.toNat)

/-- The least `k` with `x < 10 ^ k`. No positive value is below `10 ^ (-324)`, so the digits
before and after the point number 324 more than those before it. -/
def order (x : Binary64) : Int := ((Nat.toDigits 10 (x.floorAt (-324))).length : Int) - 324

end Binary64
end PairLisp.Decimal
