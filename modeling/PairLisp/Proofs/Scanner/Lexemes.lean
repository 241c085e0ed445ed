import Mathlib.Computability.Language
import PairLisp.Token.Scanner

/-! # The lexical grammar

Literals and symbols as languages of texts, and the token that each text starts with. Where the
texts of a language that stand at the front are of several lengths, the longest is the one taken.
-/

open Computability

namespace PairLisp

open Token (Content)

namespace Lexeme

/-! ## Languages -/

def one (p : Char → Bool) : Language Char := {w | ∃ c, p c = true ∧ w = [c]}

def point : Language Char := one (· = '.')

def digits : Language Char := one Char.isDigit * (one Char.isDigit)∗

/-- What a number literal is recognised by. -/
def numberStart : Language Char := one Char.isDigit + point * one Char.isDigit

def radixMark : Language Char := one (· = '0') * one ['x', 'X', 'o', 'O', 'b', 'B'].contains

def radixLiteral : Language Char := radixMark * (one Token.NumberLiteral.isRadixDigit)∗

def mantissa : Language Char := point * digits + digits * (1 + point * (one Char.isDigit)∗)

def exponentMark : Language Char := one ['e', 'E'].contains

def sign : Language Char := one ['+', '-'].contains

def exponentLead : Language Char := exponentMark * (1 + sign)

def exponent : Language Char := exponentLead * digits

/-- The texts that convert to a floating-point number, those of infinities and of NaN aside. -/
def floatNumber : Language Char :=
  (1 + sign) * ((digits + digits * point * (one Char.isDigit)∗ +
    (one Char.isDigit)∗ * point * digits) * (1 + exponent))

/-- A character between the quotes of a string literal, or a backslash and whatever it precedes. -/
def stringPart : Language Char :=
  one (fun c => c ≠ '"' && c ≠ '\\') + one (· = '\\') * one fun _ => true

def stringBody : Language Char := stringPart∗

def stringLiteral : Language Char := one (· = '"') * stringBody * one (· = '"')

def word : Language Char := one isSymbolStart * (one isSymbolChar)∗

/-! ## Fronts of texts -/

/-- Some text of the language stands at the front. -/
def Starts (L : Language Char) (text : List Char) : Prop := ∃ w ∈ L, w <+: text

/-- The longest text of the language that stands at the front. -/
structure Longest (L : Language Char) (text w : List Char) : Prop where
  mem : w ∈ L
  front : w <+: text
  length_le : ∀ v ∈ L, v <+: text → v.length ≤ w.length

/-! ## Tokens -/

/-- The characters that start a piece whatever follows them: the quote of a string literal, and
those that are a piece of their own. -/
def delimiters : List Char := ['(', ')', '\n', '\r', ' ', '\t', '"']

/-- What a literal that is an integer comes to. -/
def integerOutcome (raw : List Char) : Except ScanReason Content :=
  match Token.NumberLiteral.integer? raw with
  | some n => .ok (.int n)
  | none => .error (.malformedNumber (String.ofList raw))

def floatValue (raw : List Char) : Float :=
  let m := Token.NumberLiteral.mantissa raw
  let e := Token.NumberLiteral.exponent? m.rest
  (Token.NumberLiteral.decimal m (e.elim 0 Token.NumberLiteral.Exponent.value)).toFloat

/-- What a string literal comes to, by the characters between its quotes. -/
def stringOutcome (body : List Char) : Except ScanReason Content :=
  match Token.StringLiteral.decode body with
  | .ok s => .ok (.string (String.ofList s))
  | .error escape => .error (.invalidEscape escape)

/-- The number literal at the front of a text, and what it comes to. -/
inductive LexesNumber (text : List Char) : List Char → Except ScanReason Content → Prop where
  | radix {raw : List Char} : Starts radixMark text → Longest radixLiteral text raw →
      LexesNumber text raw (integerOutcome raw)
  | integer {m rest : List Char} : ¬ Starts radixMark text → Longest mantissa text m →
      text = m ++ rest → ¬ Starts exponentMark rest → '.' ∉ m →
      LexesNumber text m (integerOutcome m)
  | fraction {m rest : List Char} : ¬ Starts radixMark text → Longest mantissa text m →
      text = m ++ rest → ¬ Starts exponentMark rest → '.' ∈ m →
      LexesNumber text m (.ok (.float (floatValue m)))
  | power {m rest e : List Char} : ¬ Starts radixMark text → Longest mantissa text m →
      text = m ++ rest → Longest exponent rest e →
      LexesNumber text (m ++ e) (.ok (.float (floatValue (m ++ e))))
  | malformed {m rest e : List Char} : ¬ Starts radixMark text → Longest mantissa text m →
      text = m ++ rest → Longest exponentLead rest e → ¬ Starts exponent rest →
      LexesNumber text (m ++ e) (.error (.malformedNumber (String.ofList (m ++ e))))

/-- The piece at the front of a text with `depth` parentheses open, and what it comes to. -/
inductive Lexes (depth : Nat) : List Char → List Char → Except ScanReason Content → Prop where
  | leftParen (cs : List Char) : Lexes depth ('(' :: cs) ['('] (.ok .leftParen)
  | rightParen (cs : List Char) : 0 < depth → Lexes depth (')' :: cs) [')'] (.ok .rightParen)
  | unmatchedClose (cs : List Char) : depth = 0 →
      Lexes depth (')' :: cs) [] (.error .unmatchedClose)
  | newline {c : Char} (cs : List Char) : c = '\n' ∨ c = '\r' →
      Lexes depth (c :: cs) [c] (.ok .newline)
  | whitespace {c : Char} (cs : List Char) : c = ' ' ∨ c = '\t' →
      Lexes depth (c :: cs) [c] (.ok .whitespace)
  | string {body : List Char} (rest : List Char) : body ∈ stringBody →
      Lexes depth ('"' :: (body ++ '"' :: rest)) ('"' :: (body ++ ['"'])) (stringOutcome body)
  | unterminated {cs : List Char} : ¬ Starts stringLiteral ('"' :: cs) →
      Lexes depth ('"' :: cs) ('"' :: cs) (.error .unterminatedString)
  | number {text raw : List Char} {outcome : Except ScanReason Content} :
      Starts numberStart text → LexesNumber text raw outcome → Lexes depth text raw outcome
  | symbol {text raw : List Char} : ¬ Starts numberStart text → Longest word text raw →
      Lexes depth text raw (.ok .symbol)
  | invalid {c : Char} (cs : List Char) : c ∉ delimiters → ¬ Starts numberStart (c :: cs) →
      ¬ Starts word (c :: cs) → Lexes depth (c :: cs) [c] (.ok .invalid)

end Lexeme
end PairLisp
