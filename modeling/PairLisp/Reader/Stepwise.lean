import PairLisp.Reader.Step

/-! # Reading form by form

A reader holds one token that it has not read yet, the scanner behind it and the number of lists
that earlier failures left open. It looks at the token, and only then scans the next: if that scan
fails, the token has been read but is still held, and it will be read once more. A failure loses the
lists that were open but not their number, which keeps counting against the limit.
-/

namespace PairLisp

structure Reader where
  token : Token
  scanner : Scanner
  depth : Nat

namespace Reader

/-- A reader at the start of a text, if its first token can be scanned. -/
def ofText (text : String) : Except Fault Reader :=
  match (Scanner.ofText text).next with
  | (.ok token, scanner) => .ok ⟨token, scanner, 0⟩
  | (.error fault, _) => .error (.scan fault)

/-- What a held token leads to: an answer at once, or progress that needs the next token. -/
inductive Look where
  | answer (a : Except Fault (Option Expr))
  | more (p : Progress)

/-- Reads a held token, with `stuck` lists open for good and `lists` open in this call. -/
def look (stuck : Nat) (lists : List OpenList) (token : Token) : Look :=
  if token.kind = .endOfText then
    match atEnd lists with
    | .ok () => .answer (.ok none)
    | .error fault => .answer (.error (.read fault))
  else
    match token.read stuck lists with
    | .ok progress => .more progress
    | .error fault => .answer (.error (.read fault))

/-- Reads `token`, held in front of `scanner`, and then the tokens that the scanner still gives,
until a form is complete. -/
def readForm (stuck : Nat) (lists : List OpenList) (token : Token) (scanner : Scanner) :
    List (Except ScanFault Token × Scanner) → Except Fault (Option Expr) × Reader
  | [] =>
    (match look stuck lists token with
      | .answer a => a
      | .more _ => .ok none,
    ⟨token, scanner, stuck + lists.length⟩)
  | (scanned, after) :: ahead =>
    match look stuck lists token with
    | .answer a => (a, ⟨token, scanner, stuck + lists.length⟩)
    | .more progress =>
      match scanned with
      | .error fault =>
        (.error (.scan fault), ⟨token, after, stuck + max lists.length progress.lists.length⟩)
      | .ok next =>
        match progress.form with
        | some form => (.ok (some form), ⟨next, after, stuck⟩)
        | none => readForm stuck progress.lists next after ahead

def next (r : Reader) : Except Fault (Option Expr) × Reader :=
  readForm r.depth [] r.token r.scanner r.scanner.run

/-- The results of exactly `n` calls, going on after failures. -/
def take : Nat → Reader → List (Except Fault (Option Expr))
  | 0, _ => []
  | n + 1, r => r.next.1 :: take n r.next.2

end Reader
end PairLisp
