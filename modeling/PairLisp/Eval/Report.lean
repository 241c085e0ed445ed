import PairLisp.Eval.Basic
import PairLisp.Reader.Text

/-! # Interpreting texts

A text is read as a whole before any of it is evaluated. Its forms are then evaluated in order up to
the first failure; what was done before that stays done. After each form something may be written
about it and its value.
-/

namespace PairLisp

/-- The forms that were evaluated, each with its value, and what stopped the rest. -/
structure Report where
  results : List (Expr × Expr)
  fault : Option Fault

def evalForms (host : Host) (echo : Expr → Expr → String) : List Expr → Machine → Report × Machine
  | [], m => (⟨[], none⟩, m)
  | form :: forms, m =>
    match (eval host form).runOn m with
    | (.error fault, m) => (⟨[], some (.eval fault)⟩, m)
    | (.ok value, m) =>
      let (report, m) := evalForms host echo forms (m.write (echo form value))
      (⟨(form, value) :: report.results, report.fault⟩, m)

/-- Reads a text and evaluates its forms, writing what `echo` says after each. -/
def interpret (host : Host) (echo : Expr → Expr → String) (text : String) (m : Machine) :
    Report × Machine :=
  match readText text with
  | .error fault => (⟨[], some fault⟩, m)
  | .ok forms => evalForms host echo forms m

/-- Interprets texts one after the other on the same machine, whatever comes of each. -/
def session (host : Host) (echo : Expr → Expr → String) :
    List String → Machine → List Report × Machine
  | [], m => ([], m)
  | text :: texts, m =>
    let (report, m) := interpret host echo text m
    let (reports, m) := session host echo texts m
    (report :: reports, m)

def silent (_ _ : Expr) : String := ""

/-- Whether a form calls, by its name, the function whose empty result is not worth a line. -/
def returnsNothing : Expr → Bool
  | .pair (.symbol name) _ => name = Builtin.print.name
  | _ => false

end PairLisp
