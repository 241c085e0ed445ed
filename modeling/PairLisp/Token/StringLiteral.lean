import PairLisp.Text.Numeral

/-! # String literals

A literal runs to the first quote that no backslash precedes, where a backslash always pairs with
the character after it. Escapes are decoded only once the literal is complete, and by other lengths
than these pairs: a hexadecimal escape takes the two, four or eight characters that follow its
letter and an octal one the three from its first digit on, whatever they are, and it is refused
unless they are the number of a character.
-/

namespace PairLisp.Token.StringLiteral

/-- Splits what follows an opening quote into the literal's body and the text after the quote that
closes it. -/
def split? : List Char → Option (List Char × List Char)
  | [] => none
  | '"' :: cs => some ([], cs)
  | '\\' :: c :: cs => (split? cs).map fun (body, rest) => ('\\' :: c :: body, rest)
  | c :: cs => (split? cs).map fun (body, rest) => (c :: body, rest)

def simpleEscape? (c : Char) : Option Char :=
  if c = 'a' then some '\x07'
  else if c = 'b' then some '\x08'
  else if c = 'f' then some '\x0c'
  else if c = 'n' then some '\n'
  else if c = 'r' then some '\r'
  else if c = 't' then some '\t'
  else if c = 'v' then some '\x0b'
  else if c = '\\' ∨ c = '"' then some c
  else none

/-- How many characters after the letter belong to a hexadecimal escape. -/
def hexLength? (c : Char) : Option Nat :=
  if c = 'x' then some 2 else if c = 'u' then some 4 else if c = 'U' then some 8 else none

/-- The number in a hexadecimal escape; a plus sign may stand before its digits. -/
def hexCode? : List Char → Option Nat
  | '+' :: d :: ds => Text.Numeral.read? 16 (d :: ds)
  | ds => Text.Numeral.read? 16 ds

def charOfCode? (n : Nat) : Option Char := if n.isValidChar then some (Char.ofNat n) else none

def numberedEscape (text : List Char) (code : Option Nat) : Except String (Char × Nat) :=
  match code.bind charOfCode? with
  | some d => .ok (d, text.length)
  | none => .error (String.ofList ('\\' :: text))

/-- The character for the escape whose letter is `c`, and how many characters after the backslash
the escape takes; a refused escape gives its text instead. -/
def readEscape (c : Char) (cs : List Char) : Except String (Char × Nat) :=
  match simpleEscape? c, hexLength? c with
  | some d, _ => .ok (d, 1)
  | none, some n =>
    let digits := cs.take n
    numberedEscape (c :: digits) (if digits.length = n then hexCode? digits else none)
  | none, none =>
    if '0' ≤ c ∧ c ≤ '7' then
      let digits := c :: cs.take 2
      numberedEscape digits
        (if digits.length = 3 then (Text.Numeral.read? 8 digits).filter (· ≤ 0xFF) else none)
    else .error (String.ofList ['\\', c])

/-- Decodes the body of a literal after its first `skip` characters, which an escape before them has
taken. -/
def decodeFrom : (skip : Nat) → List Char → Except String (List Char)
  | _, [] => .ok []
  | skip + 1, _ :: cs => decodeFrom skip cs
  | 0, c :: cs =>
    if c ≠ '\\' then (decodeFrom 0 cs).map (c :: ·)
    else
      match cs with
      | [] => .error "\\"
      | e :: es =>
        match readEscape e es with
        | .error escape => .error escape
        | .ok (d, taken) => (decodeFrom taken (e :: es)).map (d :: ·)

def decode (body : List Char) : Except String (List Char) := decodeFrom 0 body

end PairLisp.Token.StringLiteral
