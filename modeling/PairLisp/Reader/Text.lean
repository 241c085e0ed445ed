import PairLisp.Reader.Step

/-! # Reading a whole text

A text is read token by token from the left, and the first token that is refused decides the fault.
Only a text that is fine to its end gives forms.
-/

namespace PairLisp

/-- Reads the tokens of a text on, with `lists` open and `forms` complete. -/
def readTokens (lists : List OpenList) (forms : Array Expr) :
    List (Except ScanFault Token) → Except Fault (List Expr)
  | [] => .ok forms.toList
  | .error fault :: _ => .error (.scan fault)
  | .ok token :: rest =>
    if token.kind = .endOfText then
      match atEnd lists with
      | .ok () => .ok forms.toList
      | .error fault => .error (.read fault)
    else
      match token.read 0 lists with
      | .error fault => .error (.read fault)
      | .ok ⟨lists, none⟩ => readTokens lists forms rest
      | .ok ⟨lists, some form⟩ => readTokens lists (forms.push form) rest

def readText (text : String) : Except Fault (List Expr) := readTokens [] #[] (scanText text)

/-- The first form of a text that can be read to its end, or the empty list if it has none. -/
def readFirst (text : String) : Except Fault Expr :=
  (readText text).map fun forms => forms.head?.getD .nil

end PairLisp
