import PairLisp.Text.Blank
import PairLisp.Token.Scanner

/-! # Units of interactive input

Lines are joined until no parenthesis is left open, which makes a unit. A text with a fault of
scanning has nothing open, so that the fault gets reported. Units without anything but white space
are dropped. Each line is asked for by a prompt that shows how deep the pending text is.
-/

namespace PairLisp.Repl

def openDepth (text : String) : Nat :=
  match (Scanner.ofText text).run.getLast? with
  | some (.ok _, s) => s.depth
  | _ => 0

/-- What the next line is asked for with, `pending` being the lines of an unfinished unit. -/
def prompt (pending : String) : String :=
  if pending.isEmpty then ">> "
  else ".." ++ String.join (List.replicate (openDepth pending) "  ")

def join (pending line : String) : String :=
  if pending.isEmpty then line else pending ++ "\n" ++ line

/-- What a line does to the pending text. -/
inductive Outcome where
  | pending (text : String)
  | dropped (text : String)
  | unit (text : String)
  deriving Repr, DecidableEq

namespace Outcome

def rest : Outcome → String
  | pending text => text
  | dropped _ | unit _ => ""

end Outcome

def accept (pending line : String) : Outcome :=
  let text := join pending line
  if 0 < openDepth text then .pending text
  else if text.toList.all Text.isBlank then .dropped text
  else .unit text

/-- A line that was read: the prompt that asked for it and what it did. -/
structure Event where
  asked : String
  outcome : Outcome
  deriving Repr, DecidableEq

/-- The events of reading lines in order, and the text still pending at the end of the input. -/
def events (pending : String) : List String → List Event × String
  | [] => ([], pending)
  | line :: lines =>
    let outcome := accept pending line
    let (rest, last) := events outcome.rest lines
    (⟨prompt pending, outcome⟩ :: rest, last)

/-- A unit and what was shown from the unit before it on. -/
structure InputUnit where
  shown : String
  text : String
  deriving Repr, DecidableEq

def unitsOf (shown : String) : List Event → List InputUnit × String
  | [] => ([], shown)
  | event :: events =>
    match event.outcome with
    | .unit text =>
      let (units, last) := unitsOf "" events
      (⟨shown ++ event.asked, text⟩ :: units, last)
    | _ => unitsOf (shown ++ event.asked) events

/-- The units of an input and what is shown after the last, with the mark for its end. -/
def units (lines : List String) : List InputUnit × String :=
  let (events, pending) := events "" lines
  let (units, last) := unitsOf "" events
  (units, last ++ prompt pending ++ "^D\n")

end PairLisp.Repl
