import PairLisp.Expr.Basic

/-! # The structural form

Every pair is written with its car and cdr, so the form shows the shape of any expression. A chain
is written from front to back, counting its pairs, and all their closing parentheses come at its
end; the text is that of the plain recursion on both parts.
-/

namespace PairLisp.Expr

/-- Writes an expression after `out`, then closes the `closing` pairs whose last part it is. -/
def writeStructural (closing : Nat) (out : String) : Expr → String
  | pair a d => writeStructural (closing + 1) (writeStructural 0 (out ++ "(cons ") a ++ " ") d
  | leaf => out ++ leaf.leafText ++ String.ofList (List.replicate closing ')')

def structural (e : Expr) : String := writeStructural 0 "" e

/-- The same form by recursion on both parts of a pair. -/
def structuralByParts : Expr → String
  | pair a d => "(cons " ++ a.structuralByParts ++ " " ++ d.structuralByParts ++ ")"
  | leaf => leaf.leafText

end PairLisp.Expr
