import PairLisp.Repl.Loop
import PairLisp.Text.Lines

/-! # The command line

The command runs a file, or its standard input, line by line up to the first failure, or answers its
standard input interactively. A line is a program of its own on the common machine. Arguments,
input and files come from outside; everything else is decided here.
-/

namespace PairLisp.Command

structure Outcome where
  stdout : String
  stderr : String
  exit : UInt32

/-- What opening a file gives; the system's own words tell why it cannot be opened or read. -/
inductive File where
  | absent (reason : String)
  | unreadable (reason : String)
  | contents (bytes : ByteArray)

inductive Mode where
  | version
  | interactive
  | batch (path : Option String)
  deriving Repr, DecidableEq

inductive Flag where
  | version
  | interactive
  deriving Repr, DecidableEq

/-- The flags of a cluster of letters, which is read up to the first that asks for the version. -/
def clusterFlags? : List Char → Option (List Flag)
  | [] => some []
  | 'V' :: _ => some [.version]
  | 'r' :: cs => (clusterFlags? cs).map (.interactive :: ·)
  | _ => none

def flags? (arg : String) : Option (List Flag) :=
  if arg = "--version" then some [.version]
  else if arg = "--repl" then some [.interactive]
  else clusterFlags? (arg.toList.drop 1)

/-- The mode that arguments ask for: `flagged` counts the flags for the interactive loop so far, and
`path` is the file. The version flag wins over whatever follows it. -/
def modeFrom (flagged : Nat) (path : Option String) : List String → Option Mode
  | [] =>
    if flagged = 0 then some (.batch path)
    else if flagged = 1 then some .interactive
    else none
  | arg :: args =>
    if arg = "--" then
      match path, args with
      | _, [] => modeFrom flagged path []
      | none, [file] => modeFrom flagged (some file) []
      | _, _ => none
    else if arg.startsWith "-" ∧ arg ≠ "-" then
      match flags? arg with
      | none => none
      | some flags =>
        if flags.contains .version then some .version
        else modeFrom (flagged + flags.length) path args
    else if path.isSome then none
    else modeFrom flagged (some arg) args

def mode? (args : List String) : Option Mode := modeFrom 0 none args

def versionLine : String := "conslisp 0.1.0\n"

def usageLine : String := "usage: conslisp [-r] [FILE]\n"

inductive Stop where
  | notText (line : Nat)
  | fault (f : Fault)

def Stop.message : Stop → String
  | notText line => s!"Reading line {line} failed: stream did not contain valid UTF-8"
  | fault f => f.text

/-- Runs lines, the first of which has the number `n`, up to the first failure. A line that is no
text is none. -/
def runLines (n : Nat) : List (Option String) → Machine → Option Stop × Machine
  | [], m => (none, m)
  | none :: _, m => (some (.notText n), m)
  | some line :: lines, m =>
    match interpret .none silent line m with
    | (⟨_, some fault⟩, m) => (some (.fault fault), m)
    | (⟨_, none⟩, m) => runLines (n + 1) lines m

def failure (stdout message : String) : Outcome := ⟨stdout, message ++ "\n", 1⟩

def batch (bytes : ByteArray) : Outcome :=
  match runLines 1 ((Text.byteLines bytes).map String.fromUTF8?) Machine.start with
  | (none, m) => ⟨m.output, "", 0⟩
  | (some stop, m) => failure m.output stop.message

def batchFile (path : String) : File → Outcome
  | .absent reason => failure "" s!"Opening {path} failed: {reason}"
  | .unreadable reason => failure "" s!"Reading line 1 failed: {reason}"
  | .contents bytes => batch bytes

def interactive (color : Bool) (bytes : ByteArray) : Outcome :=
  ⟨Repl.dialogue color ((Text.byteLines bytes).map String.fromUTF8?), "", 0⟩

/-- A run with everything it reads given at once. -/
def run (color : Bool) (files : String → File) (args : List String) (stdin : ByteArray) : Outcome :=
  match mode? args with
  | none => ⟨"", usageLine, 2⟩
  | some .version => ⟨versionLine, "", 0⟩
  | some .interactive => interactive color stdin
  | some (.batch none) => batch stdin
  | some (.batch (some path)) => batchFile path (files path)

end PairLisp.Command
