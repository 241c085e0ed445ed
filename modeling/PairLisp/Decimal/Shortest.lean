import PairLisp.Decimal.Basic
import PairLisp.Decimal.Binary64

/-! # The shortest decimal that rounds to a value

Grids of decimals are tried from the power of ten of the leading digit downward. On each grid only
the two neighbours of the value matter: if any point of the grid rounds to the value, one of them
does. Of two that do, the nearer is taken, and the upper one if both are equally near.
-/

namespace PairLisp.Decimal

namespace Binary64

/-- The better neighbour of `x` among the multiples of `10 ^ e`, if one rounds to `x`. -/
def nearestAt? (x : Binary64) (e : Int) : Option Decimal :=
  let below := x.floorAt e
  match x.roundsFrom below e, x.roundsFrom (below + 1) e with
  | false, false => none
  | true, false => some ⟨below, e⟩
  | false, true => some ⟨below + 1, e⟩
  | true, true =>
    if compareScaled (2 * below + 1) e (2 * x.significand) x.exponent = .gt then some ⟨below, e⟩
    else some ⟨below + 1, e⟩

def exact (x : Binary64) : Decimal :=
  if 0 ≤ x.exponent then ⟨x.significand * Nat.pow 2 x.exponent.toNat, 0⟩
  else ⟨x.significand * Nat.pow 5 (-x.exponent).toNat, x.exponent⟩

/-- The decimal with the fewest digits that rounds to `x`; seventeen digits are always enough. -/
def shortest (x : Binary64) : Decimal :=
  if x.significand = 0 then ⟨0, 0⟩
  else
    let order := x.order
    let found := (List.range 17).findSome? fun (n : Nat) => x.nearestAt? (order - ((n : Int) + 1))
    (found.getD x.exact).trimmed

end Binary64
end PairLisp.Decimal
