import PairLisp.Expr.Chain
import PairLisp.Fault
import PairLisp.Token.Scanner

/-! # What one token does to the lists being read

The lists that are open are kept innermost first, each with the place of its opening parenthesis and
the elements read so far. A token is skipped, opens or closes a list, adds an element or completes a
form, or is refused. The length of the innermost list is checked before anything else about a token
that would start an element of it.
-/

namespace PairLisp

/-- A list whose closing parenthesis is still to come. -/
structure OpenList where
  start : Position
  elements : Array Expr

/-- The open lists after a token, and the form that the token completed outside all lists. -/
structure Progress where
  lists : List OpenList
  form : Option Expr

namespace Progress

/-- Puts a complete expression where it belongs. -/
def deliver (e : Expr) : List OpenList → Progress
  | [] => ⟨[], some e⟩
  | innermost :: outer => ⟨⟨innermost.start, innermost.elements.push e⟩ :: outer, none⟩

end Progress

namespace Token

/-- Refuses an element that the innermost open list has no room for. -/
def elementOf (lists : List OpenList) (p : Except ReadFault Progress) : Except ReadFault Progress :=
  match lists with
  | [] => p
  | innermost :: _ =>
    if innermost.elements.size < maxElements then p else .error ⟨.lengthOverflow, innermost.start⟩

/-- Reads a token other than the end of the text, with `stuck` lists open beyond `lists`. -/
def read (stuck : Nat) (lists : List OpenList) (t : Token) : Except ReadFault Progress :=
  match t.content with
  | .whitespace | .newline => .ok ⟨lists, none⟩
  | .symbol => elementOf lists (.ok (.deliver (.symbol t.raw) lists))
  | .int n => elementOf lists (.ok (.deliver (.atom ⟨t.raw, .int n⟩) lists))
  | .float x => elementOf lists (.ok (.deliver (.atom ⟨t.raw, .float x⟩) lists))
  | .string s => elementOf lists (.ok (.deliver (.atom ⟨t.raw, .string s⟩) lists))
  | .leftParen =>
    elementOf lists <|
      if maxOpenLists ≤ stuck + lists.length then .error ⟨.depthOverflow, t.position⟩
      else .ok ⟨⟨t.position, #[]⟩ :: lists, none⟩
  | .rightParen =>
    match lists with
    | [] => .error ⟨.invalidToken t.raw, t.position⟩
    | innermost :: outer => .ok (.deliver (.ofList innermost.elements.toList) outer)
  | .invalid | .endOfText => elementOf lists (.error ⟨.invalidToken t.raw, t.position⟩)

end Token

/-- What the end of the text means to the lists still open. -/
def atEnd : List OpenList → Except ReadFault Unit
  | [] => .ok ()
  | innermost :: _ => .error ⟨.unmatchedOpen, innermost.start⟩

end PairLisp
