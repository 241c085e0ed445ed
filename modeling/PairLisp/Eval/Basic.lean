import PairLisp.Eval.Native

/-! # Evaluation

Atoms, functions and the empty list stand for themselves, a symbol for its nearest binding, and a
list is a call: its car has to evaluate to a native function, which gets the other elements as they
are. Every evaluation counts as one under way until it ends, so the recursion is never deeper than
the limit on these, which is what its fuel stands for.
-/

namespace PairLisp

def argumentsOf (chain : Expr) : EvalM (List Expr) :=
  match chain.elements? with
  | some args => pure args
  | none => throw (.improperArguments chain)

def evalForm (host : Host) (eval : Expr → EvalM Expr) : Expr → EvalM Expr
  | .symbol name => EvalM.lookup name
  | .pair car cdr => do
    match ← eval car with
    | .native f => do
      let args ← argumentsOf cdr
      f.call host eval args
    | other => throw (.notCallable other)
  | self => pure self

/-- Evaluates with at most `fuel` evaluations one inside the other. -/
def evalWithin (host : Host) : (fuel : Nat) → Expr → EvalM Expr
  | 0, _ => throw (.depthOverflow maxEvaluations)
  | fuel + 1, e => EvalM.nested (evalForm host (evalWithin host fuel) e)

def eval (host : Host) (e : Expr) : EvalM Expr := evalWithin host (maxEvaluations + 1) e

def evalArgs (host : Host) (args : List Expr) : EvalM (List Expr) := evalAll (eval host) args

/-- Calls a native function directly on unevaluated arguments. -/
def callNative (host : Host) (f : Native) (args : List Expr) : EvalM Expr :=
  f.call host (eval host) args

end PairLisp
