import PairLisp.Repl.Basic

/-! # The loop line by line

The loop asks for a line, takes it, and asks for the next. Input is bytes, so a line may turn out to
be no text. Such a line is reported; it costs what is pending, and the loop goes on.
-/

namespace PairLisp.Repl

/-- What is shown for a line that is no text. -/
def unreadableLine : String :=
  "[Readline Error]: Io(Error \x7b kind: InvalidData, " ++
    "message: \"stream did not contain valid UTF-8\" \x7d)\n\n"

/-- The loop between two lines: the lines of an unfinished unit, what was shown since the last
answer, and the machine that answers. -/
structure Loop where
  pending : String
  shown : String
  machine : Machine

namespace Loop

def start : Loop := ⟨"", "", .start⟩

def say (l : Loop) (text : String) : Loop := { l with shown := l.shown ++ text }

def ask (l : Loop) : Loop := l.say (prompt l.pending)

/-- Takes the line that was asked for, or nothing if it is no text. -/
def take (l : Loop) (color : Bool) : Option String → Loop
  | none => { l.say unreadableLine with pending := "" }
  | some line =>
    match accept l.pending line with
    | .unit text => ⟨"", "", answer color text (l.machine.write l.shown)⟩
    | outcome => { l with pending := outcome.rest }

def run (l : Loop) (color : Bool) (lines : List (Option String)) : Loop :=
  lines.foldl (fun l line => l.ask.take color line) l

def output (l : Loop) : String := l.machine.output ++ l.shown

def takeOutput (l : Loop) : String × Loop :=
  (l.output, { l with shown := "", machine := l.machine.takeOutput.2 })

end Loop

/-- Everything shown up to the end of an input, with the mark for its end. -/
def dialogue (color : Bool) (lines : List (Option String)) : String :=
  (Loop.start.run color lines).ask.output ++ "^D\n"

end PairLisp.Repl
