import PairLisp.Token.Position

/-! # Tokens

A token is a piece of the text together with its place and what it denotes. Kinds name tokens and
atoms alike in messages. The end of the text is a token with an empty piece.
-/

namespace PairLisp

inductive Kind where
  | endOfText | invalid | newline | whitespace | symbol | int | float | string
  | leftParen | rightParen
  deriving Repr, DecidableEq

def Kind.name : Kind → String
  | endOfText => "end of file"
  | invalid => "invalid token"
  | newline => "newline"
  | whitespace => "whitespace"
  | symbol => "symbol"
  | int => "int literal"
  | float => "float literal"
  | string => "string literal"
  | leftParen => "("
  | rightParen => ")"

/-- What a piece of text denotes; only literals carry a value of their own. -/
inductive Token.Content where
  | endOfText | invalid | newline | whitespace | symbol
  | int (value : Int64)
  | float (value : Float)
  | string (value : String)
  | leftParen | rightParen

structure Token where
  content : Token.Content
  raw : String
  position : Position

namespace Token

def Content.kind : Content → Kind
  | endOfText => .endOfText
  | invalid => .invalid
  | newline => .newline
  | whitespace => .whitespace
  | symbol => .symbol
  | int _ => .int
  | float _ => .float
  | string _ => .string
  | leftParen => .leftParen
  | rightParen => .rightParen

def kind (t : Token) : Kind := t.content.kind

def text (t : Token) : String := s!"{t.raw} @ {t.position.text}"

end Token
end PairLisp
