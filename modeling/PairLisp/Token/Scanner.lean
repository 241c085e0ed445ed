import PairLisp.Text.Alphabetic
import PairLisp.Token.NumberLiteral
import PairLisp.Token.StringLiteral

/-! # The scanner

A scanner is the rest of a text, the place where it starts and the number of parentheses open there.
Each call takes one token off the front. A closing parenthesis with nothing to close is refused
without being taken, so it is met again by the next call; every other refused piece is skipped.
-/

namespace PairLisp

def isSymbolStart (c : Char) : Bool :=
  ['+', '-', '*', '/', '@', '$', '%', '^', '&', '_', '=', '<', '>', '~', '.'].contains c ||
    Text.isAlphabetic c

def isSymbolChar (c : Char) : Bool := c.isDigit || isSymbolStart c

structure Scanner where
  rest : List Char
  position : Position
  depth : Nat

namespace Scanner

def startsNumber (c : Char) (cs : List Char) : Bool :=
  c.isDigit || c = '.' && (cs.head?.any Char.isDigit)

/-- The string literal after an opening quote, or everything if it is never closed. -/
def stringPiece (cs : List Char) : Token.Piece :=
  match Token.StringLiteral.split? cs with
  | none => ⟨'"' :: cs, [], .error .unterminatedString⟩
  | some (body, rest) =>
    ⟨'"' :: (body ++ ['"']), rest, match Token.StringLiteral.decode body with
      | .ok s => .ok (.string (String.ofList s))
      | .error escape => .error (.invalidEscape escape)⟩

/-- The piece that starts with `c`, before `cs`, with `depth` parentheses open. -/
def piece (depth : Nat) (c : Char) (cs : List Char) : Token.Piece :=
  if c = '(' then ⟨[c], cs, .ok .leftParen⟩
  else if c = ')' then
    if depth = 0 then ⟨[], c :: cs, .error .unmatchedClose⟩ else ⟨[c], cs, .ok .rightParen⟩
  else if c = '\n' ∨ c = '\r' then ⟨[c], cs, .ok .newline⟩
  else if c = ' ' ∨ c = '\t' then ⟨[c], cs, .ok .whitespace⟩
  else if c = '"' then stringPiece cs
  else if startsNumber c cs then
    Token.NumberLiteral.scan (c :: cs)
  else if isSymbolStart c then
    ⟨c :: cs.takeWhile isSymbolChar, cs.dropWhile isSymbolChar, .ok .symbol⟩
  else ⟨[c], cs, .ok .invalid⟩

def ofText (text : String) : Scanner := ⟨text.toList, .start, 0⟩

def depthAfter (depth : Nat) : Except ScanReason Token.Content → Nat
  | .ok .leftParen => depth + 1
  | .ok .rightParen => depth - 1
  | _ => depth

def next (s : Scanner) : Except ScanFault Token × Scanner :=
  match s.rest with
  | [] => (.ok ⟨.endOfText, "", s.position⟩, s)
  | c :: cs =>
    let p := piece s.depth c cs
    (match p.outcome with
      | .ok content => .ok ⟨content, String.ofList p.raw, s.position⟩
      | .error reason => .error ⟨reason, s.position⟩,
    ⟨p.rest, s.position.advance p.raw, depthAfter s.depth p.outcome⟩)

/-- The results of exactly `n` calls, each with the scanner after it. -/
def take : Nat → Scanner → List (Except ScanFault Token × Scanner)
  | 0, _ => []
  | n + 1, s => s.next :: take n s.next.2

/-- The results of at most `n` calls, none after the end of the text or the first fault. -/
def runFor : Nat → Scanner → List (Except ScanFault Token × Scanner)
  | 0, _ => []
  | n + 1, s =>
    match s.next with
    | (.error fault, t) => [(.error fault, t)]
    | (.ok token, t) => (.ok token, t) :: if token.kind = .endOfText then [] else runFor n t

/-- The results of all calls through the end of the text or the first fault. Every token before
these takes a character, so the length of the text bounds their number. -/
def run (s : Scanner) : List (Except ScanFault Token × Scanner) := s.runFor (s.rest.length + 1)

end Scanner

/-- The tokens of a text through its end or the first fault. -/
def scanText (text : String) : List (Except ScanFault Token) :=
  (Scanner.ofText text).run.map Prod.fst

end PairLisp
