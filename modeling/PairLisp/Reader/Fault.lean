import PairLisp.Text.Quoted
import PairLisp.Token.Position

/-! # What can be wrong with a sequence of tokens

Reading has two limits: on the lists open at once and on the elements of a single list. A fault of
reading is a reason and the place of the token, or of the opening parenthesis, that it concerns.
-/

namespace PairLisp

def maxOpenLists : Nat := 128

def maxElements : Nat := 4096

inductive ReadReason where
  | unmatchedOpen
  | invalidToken (raw : String)
  | depthOverflow
  | lengthOverflow
  deriving Repr, DecidableEq

structure ReadFault where
  reason : ReadReason
  position : Position
  deriving Repr, DecidableEq

namespace ReadReason

def name : ReadReason → String
  | unmatchedOpen => "UnmatchedOpen"
  | invalidToken _ => "InvalidToken"
  | depthOverflow => "DepthOverflow"
  | lengthOverflow => "LengthOverflow"

def describe : ReadReason → String
  | unmatchedOpen => "parenthesis missing"
  | invalidToken raw => s!"unexpected {Text.quoted raw}"
  | depthOverflow => s!"lists nested deeper than {maxOpenLists}"
  | lengthOverflow => s!"list longer than {maxElements} elements"

end ReadReason

def ReadFault.message (f : ReadFault) : String := s!"{f.reason.describe} @ {f.position.text}"

end PairLisp
