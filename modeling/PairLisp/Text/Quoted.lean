import PairLisp.Text.Combining
import PairLisp.Text.Unprintable

/-! # Quoted text

A text between double quotes on one line. The quote, the backslash, the zero character, the tab and
the two line ends have short escapes; a character that would be misread or not seen at all is
written by its number in lower-case hexadecimal; every other character stands for itself.
-/

namespace PairLisp.Text

/-- Characters that quoted text writes by number unless they have a short escape. -/
def isNumbered (c : Char) : Bool := isCombining c || isUnprintable c

def shortEscape? (c : Char) : Option Char :=
  if c = '\x00' then some '0'
  else if c = '\t' then some 't'
  else if c = '\n' then some 'n'
  else if c = '\r' then some 'r'
  else if c = '"' then some '"'
  else if c = '\\' then some '\\'
  else none

/-- One character as it stands between the quotes. -/
def encodeChar (c : Char) : List Char :=
  match shortEscape? c with
  | some letter => ['\\', letter]
  | none =>
    if isNumbered c then '\\' :: 'u' :: '\x7b' :: (Nat.toDigits 16 c.toNat ++ ['\x7d'])
    else [c]

def encode (cs : List Char) : List Char := cs.flatMap encodeChar

def quoted (s : String) : String := String.ofList ('"' :: (encode s.toList ++ ['"']))

theorem toList_quoted (s : String) : (quoted s).toList = '"' :: (encode s.toList ++ ['"']) := by
  simp [quoted]

end PairLisp.Text
