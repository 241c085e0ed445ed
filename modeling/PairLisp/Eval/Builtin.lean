import PairLisp.Eval.Machine
import PairLisp.Expr.Depth

/-! # The native functions of the language

Every function is given its arguments unevaluated, together with a way to evaluate them, and says
which of them it evaluates. The number of arguments is checked before any is evaluated, and all that
are evaluated are so from left to right before the function looks at the results.
-/

namespace PairLisp

/-- The deepest nesting of a list that `list` returns. -/
def maxListDepth : Nat := 128

def evalAll (eval : Expr → EvalM Expr) : List Expr → EvalM (List Expr)
  | [] => pure []
  | e :: es => do
    let value ← eval e
    let values ← evalAll eval es
    pure (value :: values)

namespace Builtin

def arity : Builtin → Count
  | setq => .atLeast 2
  | print => .atLeast 1
  | list => .atLeast 1
  | first => .atLeast 1
  | add => .exactly 2

def refuse (b : Builtin) (given : Expr) (expected : Expectation) : EvalM α :=
  throw (.invalidArgument (.builtin b) given expected)

def number (e : Expr) : EvalM Atom.Value :=
  match e with
  | .atom ⟨_, .int n⟩ => pure (.int n)
  | .atom ⟨_, .float x⟩ => pure (.float x)
  | _ => refuse add e .number

/-- The sum of two integers, if it is one of the machine integers. -/
def checkedSum (m n : Int64) : Option Int64 :=
  let sum := m.toInt + n.toInt
  if Int64.minValue.toInt ≤ sum ∧ sum ≤ Int64.maxValue.toInt then some (Int64.ofInt sum) else none

def sum (lhs rhs : Expr) : EvalM Expr := do
  match ← number lhs, ← number rhs with
  | .int m, .int n =>
    match checkedSum m n with
    | some s => pure (.int s)
    | none => refuse add rhs (.summandInRange m)
  | .float x, .float y => pure (.float (x + y))
  | l, r => throw (.typeMismatch (.builtin add) r.kind l.kind)

/-- What a function does with arguments whose number is right. -/
def apply (eval : Expr → EvalM Expr) : Builtin → List Expr → EvalM Expr
  | setq, name :: e :: _ =>
    match name with
    | .symbol name => do
      let value ← eval e
      EvalM.assign name value
      pure value
    | other => refuse setq other .symbol
  | print, args => do
    match ← evalAll eval args with
    | [] => pure .nil
    | value :: _ =>
      EvalM.print value
      pure .nil
  | list, args => do
    let value := Expr.ofList (← evalAll eval args)
    if maxListDepth < value.nestingDepth then throw (.depthOverflow maxListDepth) else pure value
  | first, args => do
    match ← evalAll eval args with
    | [] => pure .nil
    | .pair car _ :: _ => pure car
    | other :: _ => refuse first other .list
  | add, args => do
    match ← evalAll eval args with
    | [lhs, rhs] => sum lhs rhs
    | _ => pure .nil
  | setq, _ => pure .nil

/-- Calls a function on unevaluated arguments. -/
def call (eval : Expr → EvalM Expr) (b : Builtin) (args : List Expr) : EvalM Expr :=
  if b.arity.admits args.length then b.apply eval args
  else throw (.wrongCount (.builtin b) args.length b.arity)

end Builtin

end PairLisp
