import PairLisp.Expr.Listing
import PairLisp.Scope.Basic

/-! # The state of an evaluation

An evaluation reads and changes a scope, prints values, and counts the evaluations that have started
and not yet ended. The output keeps the values that were printed apart from other text. What it did
stays done when it fails. The count goes up at the start of an evaluation and down at its end,
however it ends, and an evaluation that would exceed the limit does not start.
-/

namespace PairLisp

/-- The evaluations that may be under way at once. -/
def maxEvaluations : Nat := 256

/-- A piece of output: a value on a line of its own, or other text. -/
inductive Shown where
  | line (value : Expr)
  | text (s : String)

def Shown.output : Shown → String
  | line value => value.displayed ++ "\n"
  | text s => s

structure Machine where
  scope : Scope
  active : Nat
  shown : Array Shown

abbrev EvalM := ExceptT EvalFault (StateM Machine)

namespace Machine

def ofScope (s : Scope) : Machine := ⟨s, 0, #[]⟩

def print (m : Machine) (value : Expr) : Machine := { m with shown := m.shown.push (.line value) }

def write (m : Machine) (text : String) : Machine := { m with shown := m.shown.push (.text text) }

def output (m : Machine) : String := m.shown.foldl (fun out piece => out ++ piece.output) ""

/-- The output so far, and the machine without it. -/
def takeOutput (m : Machine) : String × Machine := (m.output, { m with shown := #[] })

end Machine

namespace EvalM

def runOn (x : EvalM α) (m : Machine) : Except EvalFault α × Machine := x m

def print (value : Expr) : EvalM Unit := modify (·.print value)

def lookup (name : String) : EvalM Expr := do
  MonadExcept.ofExcept ((← get).scope.get name)

def assign (name : String) (value : Expr) : EvalM Unit :=
  modify fun m => { m with scope := m.scope.set name value }

/-- Runs a computation as one more evaluation under way. -/
def nested (x : EvalM α) : EvalM α := fun m =>
  if maxEvaluations ≤ m.active then (.error (.depthOverflow maxEvaluations), m)
  else
    let (result, after) := x { m with active := m.active + 1 }
    (result, { after with active := after.active - 1 })

end EvalM
end PairLisp
