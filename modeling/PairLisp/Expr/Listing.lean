import PairLisp.Expr.Basic

/-! # The list form

A list is written between parentheses with a space after the opening one. Every leaf is followed by
a space; a list inside it is followed by one only if something else comes after. An improper tail is
announced by a point. How leaves and parentheses look at each depth is left to a style.
-/

namespace PairLisp

inductive Paren where
  | opening | closing
  deriving Repr, DecidableEq

def Paren.text : Paren → String
  | opening => "("
  | closing => ")"

/-- How leaves and parentheses are written, given the number of lists around them. -/
structure ListStyle where
  leaf : Expr → Nat → String
  paren : Paren → Nat → String

def ListStyle.readable : ListStyle := ⟨fun e _ => e.leafText, fun p _ => p.text⟩

namespace Expr

/-- Writes the rest of a list at `depth`, from some cdr of it on, after `out`. -/
def writeRest (style : ListStyle) (depth : Nat) (out : String) : Expr → String
  | nil => out ++ style.paren .closing depth
  | pair a d =>
    let out :=
      if a.isPair then
        let out := writeRest style (depth + 1) (out ++ style.paren .opening (depth + 1) ++ " ") a
        if d.isNil then out else out ++ " "
      else out ++ style.leaf a depth ++ " "
    writeRest style depth out d
  | tail => out ++ ". " ++ style.leaf tail depth ++ " " ++ style.paren .closing depth

def listing (style : ListStyle) (depth : Nat) (e : Expr) : String :=
  if e.isPair then e.writeRest style depth (style.paren .opening depth ++ " ")
  else style.leaf e depth

def readable (e : Expr) : String := e.listing .readable 0

/-- What `print` and results show: lists in list form, everything else as it is. -/
def displayed (e : Expr) : String := if e.isPair then e.readable else e.leafText

end Expr
end PairLisp
