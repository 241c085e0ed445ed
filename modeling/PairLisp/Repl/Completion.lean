import PairLisp.Token.Scanner

/-! # Completion of symbols

The word at a place of a line reaches from the last character that is no part of a symbol and starts
before the place, to the first one that starts at the place or after it. Places are counted in bytes
of the line's UTF-8 form, and a place inside a character is one after its start.
-/

namespace PairLisp.Repl

/-- A line cut into the word and what stands before and after it. -/
structure WordCut where
  before : List Char
  word : List Char
  after : List Char

def byteCount : List Char → Nat
  | [] => 0
  | c :: cs => c.utf8Size + byteCount cs

/-- Cuts out the word at the place `pos` bytes further on. -/
def cutWord (pos : Nat) : List Char → WordCut
  | [] => ⟨[], [], []⟩
  | c :: cs =>
    if isSymbolChar c then
      let cut := cutWord (pos - c.utf8Size) cs
      if cut.before.isEmpty then ⟨[], c :: cut.word, cut.after⟩
      else ⟨c :: cut.before, cut.word, cut.after⟩
    else if 0 < pos then
      let cut := cutWord (pos - c.utf8Size) cs
      ⟨c :: cut.before, cut.word, cut.after⟩
    else ⟨[], [], c :: cs⟩

/-- The candidates of completion, in ascending order. -/
structure Completer where
  symbols : List String

namespace Completer

def ofSymbols (symbols : List String) : Completer := ⟨symbols.mergeSort (· ≤ ·)⟩

/-- Where the word at `pos` starts, and the symbols that start with the word. -/
def complete (c : Completer) (line : String) (pos : Nat) : Nat × List String :=
  let cut := cutWord pos line.toList
  (byteCount cut.before, c.symbols.filter fun s => cut.word.isPrefixOf s.toList)

end Completer

/-- Puts the chosen text in the place of the word at `pos`, and the cursor right after it. -/
def replaceWord (line : String) (pos : Nat) (chosen : String) : String × Nat :=
  let cut := cutWord pos line.toList
  (String.ofList (cut.before ++ chosen.toList ++ cut.after),
    byteCount (cut.before ++ chosen.toList))

end PairLisp.Repl
