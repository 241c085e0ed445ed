import PairLisp.Command

/-! # The program

Arguments, files and the terminal are reached from here only. A batch is handed its whole input at
once; the interactive loop shows its prompt before it reads each line.
-/

namespace PairLisp.Main

def reason : IO.Error → String
  | .noFileOrDirectory _ code details => s!"{details} (os error {code})"
  | .permissionDenied _ code details => s!"{details} (os error {code})"
  | .inappropriateType _ code details => s!"{details} (os error {code})"
  | error => toString error

def openFile (path : String) : IO Command.File := do
  match ← (IO.FS.Handle.mk path .read).toBaseIO with
  | .error error => return .absent (reason error)
  | .ok handle =>
    match ← handle.readBinToEnd.toBaseIO with
    | .error error => return .unreadable (reason error)
    | .ok bytes => return .contents bytes

/-- The bytes up to and with the next line feed, or what is left. -/
partial def readLine (input : IO.FS.Stream) (bytes : ByteArray) : IO ByteArray := do
  let byte ← input.read 1
  if byte.isEmpty then return bytes
  else if byte[0]! = 10 then return bytes ++ byte
  else readLine input (bytes ++ byte)

partial def interact (color : Bool) (l : Repl.Loop) : IO Unit := do
  let output ← IO.getStdout
  let (shown, l) := l.ask.takeOutput
  output.putStr shown
  output.flush
  match Text.byteLines (← readLine (← IO.getStdin) .empty) with
  | [] => output.putStr "^D\n"
  | line :: _ => interact color (l.take color (String.fromUTF8? line))

partial def readAll (input : IO.FS.Stream) (bytes : ByteArray) : IO ByteArray := do
  let chunk ← input.read 65536
  if chunk.isEmpty then return bytes else readAll input (bytes ++ chunk)

def finish (o : Command.Outcome) : IO UInt32 := do
  (← IO.getStdout).putStr o.stdout
  (← IO.getStderr).putStr o.stderr
  return o.exit

end PairLisp.Main

open PairLisp in
def main (args : List String) : IO UInt32 := do
  match Command.mode? args with
  | none => Main.finish ⟨"", Command.usageLine, 2⟩
  | some .version => Main.finish ⟨Command.versionLine, "", 0⟩
  | some .interactive =>
    Main.interact (← (← IO.getStdout).isTty) Repl.Loop.start
    return 0
  | some (.batch none) => Main.finish (Command.batch (← Main.readAll (← IO.getStdin) .empty))
  | some (.batch (some path)) => Main.finish (Command.batchFile path (← Main.openFile path))
