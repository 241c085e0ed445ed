import PairLisp.Eval.Builtin

/-! # Calling native functions

A native function is one of the language or one of the embedding program, its host. Both kinds get
their arguments unevaluated, with a way to evaluate them. The language's own are bound under their
names in the scope that a program starts in, and can be bound anew like any other name.
-/

namespace PairLisp

/-- The functions of the embedding program by name, each given a way to evaluate and unevaluated
arguments. -/
abbrev Host := String → (Expr → EvalM Expr) → List Expr → EvalM Expr

def Host.none : Host := fun name _ _ => throw (.unboundSymbol name)

def Native.call (host : Host) (eval : Expr → EvalM Expr) (f : Native) (args : List Expr) :
    EvalM Expr :=
  match f with
  | .builtin b => b.call eval args
  | .host name => host name eval args

/-- Binds every native function of the language under its own name. -/
def Scope.install (s : Scope) : Scope :=
  Builtin.all.foldl (fun s b => s.set b.name (.native (.builtin b))) s

def Machine.start : Machine := .ofScope Scope.root.install

end PairLisp
