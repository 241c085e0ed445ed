import PairLisp.Expr.Structural

/-! # What can go wrong in an evaluation

Faults carry the values that caused them. Values are shown in structural form, so that a message
tells a proper list from an improper one.
-/

namespace PairLisp

inductive Count where
  | exactly (n : Nat)
  | atLeast (n : Nat)
  deriving Repr, DecidableEq

/-- What an argument should have been. -/
inductive Expectation where
  | symbol
  | list
  | number
  | summandInRange (lhs : Int64)
  deriving Repr, DecidableEq

inductive EvalFault where
  | unboundSymbol (name : String)
  | notCallable (value : Expr)
  | improperArguments (chain : Expr)
  | wrongCount (function : Native) (given : Nat) (expected : Count)
  | invalidArgument (function : Native) (given : Expr) (expected : Expectation)
  | typeMismatch (function : Native) (given expected : Kind)
  | depthOverflow (limit : Nat)

namespace Count

def admits : Count → Nat → Bool
  | exactly n, given => given = n
  | atLeast n, given => n ≤ given

def text : Count → String
  | exactly n => s!"{n}"
  | atLeast n => s!"at least {n}"

end Count

def Expectation.text : Expectation → String
  | symbol => "a Symbol"
  | list => "a list"
  | number => "a numeric atom"
  | summandInRange lhs => s!"a sum with {Atom.intText lhs} within i64 range"

namespace EvalFault

def name : EvalFault → String
  | unboundSymbol _ => "UnboundSymbol"
  | notCallable _ => "NotCallable"
  | improperArguments _ => "ImproperArgList"
  | wrongCount .. => "WrongArgumentCount"
  | invalidArgument .. => "InvalidArgument"
  | typeMismatch .. => "TypeMismatch"
  | depthOverflow _ => "DepthOverflow"

def message : EvalFault → String
  | unboundSymbol name => s!"Symbol not found in scope: \x7b{name}\x7d"
  | notCallable value => s!"Not callable: {value.structural}"
  | improperArguments chain => s!"Improper argument list: {chain.structural}"
  | wrongCount function given expected =>
    s!"{function.name}: wrong argument count: given {given}, expected {expected.text}"
  | invalidArgument function given expected =>
    s!"{function.name}: invalid argument: given {given.structural}, expected {expected.text}"
  | typeMismatch function given expected =>
    s!"{function.name}: arguments have to be the same type: " ++
      s!"given {given.name}, expected {expected.name}"
  | depthOverflow limit => s!"Nested deeper than {limit}"

end EvalFault
end PairLisp
