import PairLisp.Token.Basic
import PairLisp.Token.Fault

/-! # Pieces at the front of a text

Cutting a text gives the characters taken, those left, and what the taken ones denote or why they
are refused.
-/

namespace PairLisp.Token

structure Piece where
  raw : List Char
  rest : List Char
  outcome : Except ScanReason Content

end PairLisp.Token
