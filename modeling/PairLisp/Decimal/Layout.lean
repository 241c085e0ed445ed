import PairLisp.Decimal.Shortest

/-! # Texts of floating-point numbers

A number is written by its shortest digits. A layout says which leading powers of ten are written
with the point in place and how wide an exponent is at least. Outside that band one digit stands
before the point, and the exponent always has a sign. An integral value has no point, and the sign
of zero is kept.
-/

namespace PairLisp.Decimal

/-- Powers from `plainFrom` up to but excluding `plainBelow` are written in place. -/
structure Layout where
  plainFrom : Int
  plainBelow : Int
  exponentWidth : Nat

namespace Layout

/-- Digits with a point after the first `n`, or none if nothing follows it. -/
def pointAfter (n : Nat) (ds : List Char) : List Char :=
  if ds.length ≤ n then ds else ds.take n ++ '.' :: ds.drop n

def plain (d : Decimal) : List Char :=
  let ds := Nat.toDigits 10 d.digits
  if 0 ≤ d.exponent then ds ++ List.replicate d.exponent.toNat '0'
  else if 0 ≤ d.leading then pointAfter (d.leading.toNat + 1) ds
  else '0' :: '.' :: (List.replicate (-d.leading - 1).toNat '0' ++ ds)

def scientific (l : Layout) (d : Decimal) : List Char :=
  pointAfter 1 (Nat.toDigits 10 d.digits) ++
    'e' :: (if d.leading < 0 then '-' else '+') ::
      Text.Numeral.padded l.exponentWidth d.leading.natAbs

def write (l : Layout) (d : Decimal) : List Char :=
  if l.plainFrom ≤ d.leading ∧ d.leading < l.plainBelow then plain d else l.scientific d

def text (l : Layout) (x : Float) : String :=
  let negative := x.toBits >>> 63 = 1
  if x.isNaN then "NaN"
  else if x.isInf then if negative then "-Inf" else "+Inf"
  else
    let digits := l.write (Binary64.ofBits x.toBits).shortest
    String.ofList (if negative then '-' :: digits else digits)

end Layout

/-- Six digits stand before the point at most, and four zeros after it. -/
def standardLayout : Layout := ⟨-4, 6, 2⟩

example : standardLayout.write ⟨5, 0⟩ = ['5'] := by decide

example : standardLayout.write ⟨64, -1⟩ = ['6', '.', '4'] := by decide

example : standardLayout.write ⟨1, -4⟩ = ['0', '.', '0', '0', '0', '1'] := by decide

example : standardLayout.write ⟨1, 6⟩ = ['1', 'e', '+', '0', '6'] := by decide

example : standardLayout.write ⟨25, -6⟩ = ['2', '.', '5', 'e', '-', '0', '5'] := by decide

end PairLisp.Decimal
