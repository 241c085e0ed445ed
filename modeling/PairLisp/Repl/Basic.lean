import PairLisp.Eval.Report
import PairLisp.Repl.Color
import PairLisp.Repl.Units

/-! # The interactive loop

Each unit is interpreted on the same machine. The value of every form is shown right after its
evaluation, unless it is empty and the form is a call of `print`; a fault is shown in its place and
ends the unit, not the loop. An empty line ends the answer to each unit.
-/

namespace PairLisp.Repl

def echo (color : Bool) (form value : Expr) : String :=
  if value.isNil && returnsNothing form then "" else resultLine color value

def answer (color : Bool) (unit : String) (m : Machine) : Machine :=
  let (report, m) := interpret .none (echo color) unit m
  (m.write ((report.fault.map (faultLine color)).getD "")).write "\n"

/-- Everything shown in answer to an input. -/
def transcript (color : Bool) (lines : List String) : String :=
  let (units, last) := units lines
  let m := units.foldl (fun m u => answer color u.text (m.write u.shown)) Machine.start
  m.output ++ last

end PairLisp.Repl
