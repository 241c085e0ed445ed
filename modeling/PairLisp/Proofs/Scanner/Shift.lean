import PairLisp.Proofs.Scanner.Next
import PairLisp.Proofs.Scanner.Run

/-! # Texts further down

Where a text starts matters to the scanner only for the places that it reports. A text that starts
some lines further down, in the first column, gives the same tokens and faults as many lines down.
Lines are counted without an upper bound, so moving down never wraps; 32-bit counters do the same
while the lines moved by and those of the text together stay below `2 ^ 32`.
-/

namespace PairLisp

/-- How many line ends some characters have; a carriage return and a line feed count separately. -/
def Position.breaks (cs : List Char) : Nat := cs.countP fun c => c = '\n' ∨ c = '\r'

/-- The same column, `k` lines down. The sum is not cut to 32 bits. -/
def Position.down (k : Nat) (p : Position) : Position := ⟨p.line + k, p.column⟩

def Token.down (k : Nat) (t : Token) : Token := { t with position := t.position.down k }

def ScanFault.down (k : Nat) (f : ScanFault) : ScanFault := { f with position := f.position.down k }

namespace Position

theorem after_down (k : Nat) (p : Position) (c : Char) :
    (p.down k).after c = (p.after c).down k := by
  unfold after
  split
  · simp [down, Nat.add_right_comm]
  · rfl

theorem advance_down (k : Nat) (p : Position) (cs : List Char) :
    (p.down k).advance cs = (p.advance cs).down k := by
  induction cs generalizing p with
  | nil => rfl
  | cons c cs ih => rw [advance_cons, after_down, ih, advance_cons]

theorem breaks_cons (c : Char) (cs : List Char) :
    breaks (c :: cs) = breaks cs + if c = '\n' ∨ c = '\r' then 1 else 0 := by
  simp [breaks, List.countP_cons]

theorem line_advance (p : Position) (cs : List Char) :
    (p.advance cs).line = p.line + breaks cs := by
  induction cs generalizing p with
  | nil => rfl
  | cons c cs ih =>
    rw [advance_cons, ih, breaks_cons, after]
    split
    · exact Nat.add_right_comm ..
    · rfl

theorem advance_newline (cs : List Char) :
    start.advance (cs ++ ['\n']) = start.down (breaks cs + 1) := by
  rw [advance_append, advance_cons, advance_nil, after, if_pos (.inl rfl), line_advance]
  rw [start, down, Nat.add_assoc]

end Position

@[simp] theorem Token.kind_down (k : Nat) (t : Token) : (t.down k).kind = t.kind := rfl

namespace Scanner

def resultDown (k : Nat) : Except ScanFault Token → Except ScanFault Token
  | .ok token => .ok (token.down k)
  | .error fault => .error (fault.down k)

def down (k : Nat) (s : Scanner) : Scanner := { s with position := s.position.down k }

theorem next_down (k : Nat) (s : Scanner) :
    (s.down k).next = (resultDown k s.next.1, s.next.2.down k) := by
  cases hrest : s.rest with
  | nil => rw [next_of_nil hrest, next_of_nil (s := s.down k) hrest]; rfl
  | cons c cs =>
    cases hout : (piece s.depth c cs).outcome with
    | ok content =>
      rw [next_of_ok hrest hout, next_of_ok (s := s.down k) hrest hout]
      simp only [down, Position.advance_down, resultDown, Token.down]
    | error reason =>
      rw [next_of_error hrest hout, next_of_error (s := s.down k) hrest hout]
      simp only [down, Position.advance_down, resultDown, ScanFault.down]

theorem outcomes_down (k : Nat) (s : Scanner) :
    (s.down k).outcomes = s.outcomes.map (resultDown k) := by
  induction s using run_induction with
  | nil s h =>
    rw [outcomes_of_nil h, outcomes_of_nil (s := s.down k) h]
    rfl
  | fault s t fault hnext =>
    have hdown := next_down k s
    rw [hnext] at hdown
    rw [outcomes_of_error hnext, outcomes_of_error hdown]
    rfl
  | token s t token hnext hkind ih =>
    have hdown := next_down k s
    rw [hnext] at hdown
    rw [outcomes_of_token hnext hkind, outcomes_of_token hdown (by simpa using hkind), ih]
    rfl

end Scanner
end PairLisp
