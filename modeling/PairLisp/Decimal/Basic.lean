import PairLisp.Text.Numeral

/-! # Decimals

A decimal is a natural number of units, each a power of ten. Trailing zeros can be moved into the
power, which changes no value. Rounding to binary64 goes through `Float.ofScientific`; powers so
large or small that the result is certain are settled first, and of a long run of digits only the
front is kept, which keeps the arithmetic small.
-/

namespace PairLisp

/-- `digits * 10 ^ exponent`. -/
structure Decimal where
  digits : Nat
  exponent : Int
  deriving Repr, DecidableEq

namespace Decimal

/-- The number of significant digits that are kept. Midway between two neighbouring binary64 values
there is no number with more than 767, so digits further down only tell on which side of such a
number a decimal lies. -/
def keptDigits : Nat := 800

/-- The decimal that a run of digits denotes in units of `10 ^ exponent`, cut short without a change
of the binary64 value nearest to it: a single one stands for all that is cut off, if it is not zero.
-/
def ofDigits (cs : List Char) (exponent : Int) : Decimal :=
  let significant := cs.dropWhile (· = '0')
  let cut := significant.drop keptDigits
  let kept := significant.take keptDigits ++ if cut.all (· = '0') then [] else ['1']
  ⟨Text.Numeral.value 10 kept, exponent + significant.length - kept.length⟩

/-- Moves every trailing zero of the digits into the exponent. -/
def trimmed (d : Decimal) : Decimal :=
  if h : d.digits ≠ 0 ∧ d.digits % 10 = 0 then trimmed ⟨d.digits / 10, d.exponent + 1⟩ else d
termination_by d.digits
decreasing_by exact Nat.div_lt_self (by omega) (by omega)

def leading (d : Decimal) : Int := d.exponent + ((Nat.toDigits 10 d.digits).length : Int) - 1

/-- The nearest binary64 value: from `10 ^ 309` on it is infinite, and below `10 ^ (-324)` zero. -/
def toFloat (d : Decimal) : Float :=
  if d.digits = 0 ∨ d.leading < -324 then 0
  else if 309 ≤ d.leading then Float.ofBits 0x7FF0000000000000
  else Float.ofScientific d.digits (d.exponent < 0) d.exponent.natAbs

end Decimal
end PairLisp
