import PairLisp.Decimal.Basic
import PairLisp.Token.Piece

/-! # Number literals

A literal with a radix mark runs on over letters, digits and underscores and is always an integer.
Any other literal is a mantissa, with an exponent if a mark follows; it is an integer if it has
neither a point nor an exponent. An integer with a leading zero and no mark is octal. Integers above
`2 ^ 63 - 1` are refused. An exponent is read no further once it has reached `65536`.
-/

namespace PairLisp.Token.NumberLiteral

def radix? (c : Char) : Option Nat :=
  if c = 'x' ∨ c = 'X' then some 16
  else if c = 'o' ∨ c = 'O' then some 8
  else if c = 'b' ∨ c = 'B' then some 2
  else none

def isRadixDigit (c : Char) : Bool := c.isAlphanum || c = '_'

/-- The base of an integer literal, and its digits. -/
def baseAndDigits : List Char → Nat × List Char
  | '0' :: c :: cs =>
    match radix? c with
    | some base => (base, cs.filter (· ≠ '_'))
    | none => (8, c :: cs)
  | cs => (10, cs)

/-- The natural number that an integer literal denotes, whatever its size. -/
def natural? (raw : List Char) : Option Nat :=
  Text.Numeral.read? (baseAndDigits raw).1 (baseAndDigits raw).2

def largestInteger : Nat := 0x7FFFFFFFFFFFFFFF

def integer? (raw : List Char) : Option Int64 :=
  (Text.Numeral.readUpTo? (baseAndDigits raw).1 largestInteger (baseAndDigits raw).2).map
    Int64.ofNat

theorem integer?_eq_filter (raw : List Char) :
    integer? raw = ((natural? raw).filter (· ≤ largestInteger)).map Int64.ofNat := by
  simp only [integer?, natural?, Text.Numeral.readUpTo?_eq_filter]

/-- A mantissa, its point and what follows it. -/
structure Mantissa where
  whole : List Char
  hasPoint : Bool
  fraction : List Char
  rest : List Char

def Mantissa.raw (m : Mantissa) : List Char :=
  m.whole ++ if m.hasPoint then '.' :: m.fraction else []

def mantissa (cs : List Char) : Mantissa :=
  let whole := cs.takeWhile Char.isDigit
  match cs.dropWhile Char.isDigit with
  | '.' :: fs => ⟨whole, true, fs.takeWhile Char.isDigit, fs.dropWhile Char.isDigit⟩
  | rest => ⟨whole, false, [], rest⟩

/-- An exponent: its mark and sign, its digits, which may be missing, and what follows. -/
structure Exponent where
  lead : List Char
  digits : List Char
  rest : List Char

def Exponent.raw (e : Exponent) : List Char := e.lead ++ e.digits

/-- The size at which an exponent is large enough: it takes no further digits. -/
def Exponent.enough : Nat := 65536

/-- The size of the exponent, from its digits up to the one that makes it large enough. -/
def Exponent.size (e : Exponent) : Nat :=
  e.digits.foldl
    (fun n c => if n < Exponent.enough then n * 10 + (Text.Numeral.digitValue c).getD 0 else n) 0

def Exponent.value (e : Exponent) : Int := if e.lead.contains '-' then -e.size else e.size

def exponent? : List Char → Option Exponent
  | mark :: cs =>
    if mark = 'e' ∨ mark = 'E' then
      match cs with
      | '+' :: ds => some ⟨[mark, '+'], ds.takeWhile Char.isDigit, ds.dropWhile Char.isDigit⟩
      | '-' :: ds => some ⟨[mark, '-'], ds.takeWhile Char.isDigit, ds.dropWhile Char.isDigit⟩
      | ds => some ⟨[mark], ds.takeWhile Char.isDigit, ds.dropWhile Char.isDigit⟩
    else none
  | [] => none

/-- A decimal with the same nearest binary64 value as a mantissa times a power of ten. -/
def decimal (m : Mantissa) (power : Int) : Decimal :=
  .ofDigits (m.whole ++ m.fraction) (power - m.fraction.length)

def integer (raw rest : List Char) : Piece :=
  ⟨raw, rest, match integer? raw with
    | some n => .ok (.int n)
    | none => .error (.malformedNumber (String.ofList raw))⟩

def plain (cs : List Char) : Piece :=
  let m := mantissa cs
  match exponent? m.rest with
  | some e =>
    let raw := m.raw ++ e.raw
    ⟨raw, e.rest, if e.digits = [] then .error (.malformedNumber (String.ofList raw))
      else .ok (.float (decimal m e.value).toFloat)⟩
  | none =>
    if m.hasPoint then ⟨m.raw, m.rest, .ok (.float (decimal m 0).toFloat)⟩
    else integer m.raw m.rest

/-- The literal at the front of a text that starts with a digit, or with a point and a digit. -/
def scan : List Char → Piece
  | '0' :: c :: cs =>
    if (radix? c).isSome then
      integer ('0' :: c :: cs.takeWhile isRadixDigit) (cs.dropWhile isRadixDigit)
    else plain ('0' :: c :: cs)
  | cs => plain cs

end PairLisp.Token.NumberLiteral
