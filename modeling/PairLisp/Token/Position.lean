/-! # Places in a text

A place is a line and a column, both counted from one. A carriage return and a line feed each end a
line, so the two together end two.
-/

namespace PairLisp

/-- A place. Its counts have no upper bound. In a text of fewer than `2 ^ 32 - 1` characters they
are those of 32-bit counters, which do not wrap there. -/
structure Position where
  line : Nat
  column : Nat
  deriving Repr, DecidableEq

namespace Position

def start : Position := ⟨1, 1⟩

/-- The place after a character at `p`. -/
def after (p : Position) (c : Char) : Position :=
  if c = '\n' ∨ c = '\r' then ⟨p.line + 1, 1⟩ else ⟨p.line, p.column + 1⟩

/-- The place after a text that starts at `p`. A 32-bit counter agrees as long as neither count
outgrows it. -/
def advance (p : Position) (cs : List Char) : Position := cs.foldl after p

@[simp] theorem advance_nil (p : Position) : p.advance [] = p := rfl

@[simp] theorem advance_cons (p : Position) (c : Char) (cs : List Char) :
    p.advance (c :: cs) = (p.after c).advance cs := rfl

@[simp] theorem advance_append (p : Position) (cs ds : List Char) :
    p.advance (cs ++ ds) = (p.advance cs).advance ds := by
  simp [advance]

def text (p : Position) : String := s!"({p.line}, {p.column})"

end Position
end PairLisp
