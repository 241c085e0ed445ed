import PairLisp.Token.Position

/-! # What can be wrong with a piece of text

A fault of scanning is a reason and the place where the offending piece starts.
-/

namespace PairLisp

inductive ScanReason where
  | unmatchedClose
  | malformedNumber (raw : String)
  | unterminatedString
  | invalidEscape (escape : String)
  deriving Repr, DecidableEq

structure ScanFault where
  reason : ScanReason
  position : Position
  deriving Repr, DecidableEq

namespace ScanReason

def name : ScanReason → String
  | unmatchedClose => "UnmatchedClose"
  | malformedNumber _ => "MalformedNumber"
  | unterminatedString => "UnterminatedString"
  | invalidEscape _ => "InvalidEscape"

def describe : ScanReason → String
  | unmatchedClose => "parenthesis missing"
  | malformedNumber raw => s!"invalid numeric literal {raw}"
  | unterminatedString => "string literal not terminated"
  | invalidEscape escape => s!"invalid escape sequence {escape}"

end ScanReason

def ScanFault.message (f : ScanFault) : String := s!"{f.reason.describe} @ {f.position.text}"

end PairLisp
