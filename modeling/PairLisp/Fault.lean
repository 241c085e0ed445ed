import PairLisp.Eval.Fault
import PairLisp.Expr.Chain
import PairLisp.Expr.Listing
import PairLisp.Reader.Fault
import PairLisp.Token.Fault

/-! # Faults

A fault arises in scanning, reading or evaluating. Each has a form as an expression, the list of
its kind, its reason and its message, and faults are shown and compared through that form.
-/

namespace PairLisp

inductive Fault where
  | scan (fault : ScanFault)
  | read (fault : ReadFault)
  | eval (fault : EvalFault)

namespace Fault

def kindName : Fault → String
  | scan _ => "ScanError"
  | read _ => "ParseError"
  | eval _ => "EvalError"

def reasonName : Fault → String
  | scan f => f.reason.name
  | read f => f.reason.name
  | eval f => f.name

def message : Fault → String
  | scan f => f.message
  | read f => f.message
  | eval f => f.message

def toExpr (f : Fault) : Expr :=
  .ofList [.string f.kindName, .string f.reasonName, .string f.message]

def text (f : Fault) : String := f.toExpr.readable

/-- Faults are the same if they look the same as expressions. -/
def same (f g : Fault) : Bool := f.toExpr.same g.toExpr

end Fault
end PairLisp
