/-! # Lines

A line ends at a line feed, or where the text ends if something follows the last one. A carriage
return directly before the line feed belongs to the line end; any other is part of its line. The
rule is the same for characters and for bytes.
-/

namespace PairLisp.Text

/-- A line that a line feed ends, without the carriage return before it. -/
def endLine [DecidableEq α] (ret : α) (line : List α) : List α :=
  if line.getLast? = some ret then line.dropLast else line

/-- The lines of a text, given its line feed and carriage return, after the start `line` of the
first. -/
def linesFrom [DecidableEq α] (feed ret : α) (line : Array α) : List α → List (List α)
  | [] => if line.isEmpty then [] else [line.toList]
  | c :: cs =>
    if c = feed then endLine ret line.toList :: linesFrom feed ret #[] cs
    else linesFrom feed ret (line.push c) cs

def lines (text : String) : List String :=
  (linesFrom '\n' '\r' #[] text.toList).map String.ofList

def byteLines (bytes : ByteArray) : List ByteArray :=
  (linesFrom 10 13 #[] bytes.toList).map fun line => ⟨line.toArray⟩

end PairLisp.Text
