import PairLisp.Expr.Listing
import PairLisp.Fault

/-! # Colors

On a terminal the parentheses of a list have one of six colors, by the number of lists around it,
and faults are red. Color comes before the text it applies to and is taken back right after.
-/

namespace PairLisp.Repl

/-- Red, green and blue parts for the parentheses of a list with `depth` lists around it. -/
def parenColor (depth : Nat) : Nat × Nat × Nat :=
  match depth % 6 with
  | 0 => (0, 255, 204)
  | 1 => (204, 51, 0)
  | 2 => (153, 255, 102)
  | 3 => (153, 102, 255)
  | 4 => (255, 255, 102)
  | _ => (255, 179, 179)

def decorate (code text : String) : String := s!"\x1b[{code}m{text}\x1b[0m"

def coloredStyle : ListStyle :=
  ⟨fun e _ => e.leafText, fun p depth =>
    let (r, g, b) := parenColor depth
    decorate s!"38;2;{r};{g};{b}" p.text⟩

/-- The list form of an expression, with colors if they are wanted. -/
def rendered (color : Bool) (e : Expr) : String :=
  e.listing (if color then coloredStyle else .readable) 0

def resultLine (color : Bool) (value : Expr) : String := s!"-> {rendered color value}\n"

def faultLine (color : Bool) (fault : Fault) : String :=
  (if color then decorate "31" fault.text else fault.text) ++ "\n"

end PairLisp.Repl
