import PairLisp.Decimal.Layout
import PairLisp.Text.Quoted
import PairLisp.Token.Basic

/-! # Expressions

Code and data share one type of tree: atoms, symbols, native functions, the empty list and pairs. An
atom keeps the text it was read from beside its value, for display only. Equality of the language
ignores that text, compares floating-point numbers numerically and functions by name, so it is
neither finer nor coarser than `=`.
-/

namespace PairLisp

inductive Atom.Value where
  | int (n : Int64)
  | float (x : Float)
  | string (s : String)

/-- A literal value with the text that stands for it. -/
structure Atom where
  raw : String
  value : Atom.Value

inductive Builtin where
  | setq | print | list | first | add
  deriving Repr, DecidableEq

/-- A function that is not written in the language: one of its own, or one that the embedding
program supplies under a name. -/
inductive Native where
  | builtin (b : Builtin)
  | host (name : String)
  deriving Repr, DecidableEq

inductive Expr where
  | nil
  | symbol (name : String)
  | atom (a : Atom)
  | native (f : Native)
  | pair (car cdr : Expr)
  deriving Inhabited

namespace Atom

def intText (n : Int64) : String :=
  let digits := Nat.toDigits 10 n.toInt.natAbs
  String.ofList (if n.toInt < 0 then '-' :: digits else digits)

def Value.text : Value → String
  | .int n => intText n
  | .float x => Decimal.standardLayout.text x
  | .string s => Text.quoted s

def Value.kind : Value → Kind
  | .int _ => .int
  | .float _ => .float
  | .string _ => .string

def Value.same : Value → Value → Bool
  | .int m, .int n => m = n
  | .float x, .float y => x == y
  | .string s, .string t => s = t
  | _, _ => false

/-- The atom whose text is the displayed form of its value. -/
def ofValue (v : Value) : Atom := ⟨v.text, v⟩

end Atom

def Builtin.all : List Builtin := [setq, print, list, first, add]

def Builtin.name : Builtin → String
  | setq => "setq"
  | print => "print"
  | list => "list"
  | first => "first"
  | add => "+"

def Native.name : Native → String
  | builtin b => b.name
  | host name => name

namespace Expr

def int (n : Int64) : Expr := atom (.ofValue (.int n))

def float (x : Float) : Expr := atom (.ofValue (.float x))

def string (s : String) : Expr := atom (.ofValue (.string s))

def isNil : Expr → Bool
  | nil => true
  | _ => false

def isPair : Expr → Bool
  | pair .. => true
  | _ => false

/-- The text of a leaf; a pair has no text of its own. -/
def leafText : Expr → String
  | nil => "nil"
  | symbol name => name
  | atom a => a.value.text
  | native f => "fn: " ++ f.name
  | pair .. => ""

/-- Equality as programs see it. -/
def same : Expr → Expr → Bool
  | nil, nil => true
  | symbol x, symbol y => x = y
  | atom a, atom b => a.value.same b.value
  | native f, native g => f.name = g.name
  | pair a d, pair a' d' => same a a' && same d d'
  | _, _ => false

end Expr
end PairLisp
