import PairLisp.Eval.Fault
import PairLisp.Scope.Bindings

/-! # Scopes

A scope has bindings of its own and those of the scopes around it, nearest first. A name means its
nearest binding. Binding a name only ever changes the innermost scope.
-/

namespace PairLisp

structure Scope where
  bindings : Bindings
  outer : List Bindings

namespace Scope

def root : Scope := ⟨.empty, []⟩

def child (s : Scope) : Scope := ⟨.empty, s.bindings :: s.outer⟩

def parent? (s : Scope) : Option Scope :=
  match s.outer with
  | [] => none
  | bindings :: outer => some ⟨bindings, outer⟩

def set (s : Scope) (name : String) (value : Expr) : Scope :=
  { s with bindings := s.bindings.insert name value }

def lookup (s : Scope) (name : String) : Option Expr :=
  (s.bindings :: s.outer).findSome? (·.find? name)

/-- The nearest binding of a name, which has to have one. -/
def get (s : Scope) (name : String) : Except EvalFault Expr :=
  match s.lookup name with
  | some value => .ok value
  | none => .error (.unboundSymbol name)

theorem lookup_root (name : String) : root.lookup name = none := rfl

theorem lookup_child (s : Scope) (name : String) : s.child.lookup name = s.lookup name := rfl

theorem lookup_set (s : Scope) (name : String) (value : Expr) (n : String) :
    (s.set name value).lookup n = if n = name then some value else s.lookup n := by
  simp only [lookup, set, List.findSome?_cons, Bindings.find?_insert]
  by_cases h : n = name
  · rw [if_pos h, if_pos h]
  · rw [if_neg h, if_neg h]

def containsLocal (s : Scope) (name : String) : Bool := (s.bindings.find? name).isSome

/-- What each name means in `s`, in one set of bindings. -/
def visible (s : Scope) : Bindings :=
  (s.bindings :: s.outer).foldr (fun inner outer => Bindings.shadowedBy outer inner) Bindings.empty

/-- The names that mean something in `s`, each once and in ascending order. -/
def visibleSymbols (s : Scope) : List String := s.visible.names

/-- The bindings of a scope after those of the scopes around it. -/
def chainText : Bindings → List Bindings → String
  | bindings, [] => bindings.text
  | bindings, outer :: outers => s!"parent({chainText outer outers}) {bindings.text}"

def text (s : Scope) : String := chainText s.bindings s.outer

end Scope
end PairLisp
