import PairLisp.Expr.Chain

/-! # Nesting depth

The depth of an expression is the number of lists nested in it through elements: none for a leaf,
and for a list one more than the deepest of its elements, an improper tail aside. It is measured by
a walk over a stack of pending lists, which needs no recursion on the expression.
-/

namespace PairLisp.Expr

def innerLists (e : Expr) : List Expr := (e.items.map Prod.fst).filter isPair

def pairs : Expr → Nat
  | pair a d => 1 + a.pairs + d.pairs
  | _ => 0

/-- The pairs of some expressions, with one more for each of them. -/
def weight : List Expr → Nat
  | [] => 0
  | e :: es => e.pairs + 1 + weight es

theorem weight_append (es fs : List Expr) : weight (es ++ fs) = weight es + weight fs := by
  induction es with
  | nil => exact (Nat.zero_add _).symm
  | cons e es ih =>
    rw [List.cons_append, weight, weight, ih]
    omega

theorem weight_reverse (es : List Expr) : weight es.reverse = weight es := by
  induction es with
  | nil => rfl
  | cons e es ih =>
    rw [List.reverse_cons, weight_append, ih, weight, weight, weight, Nat.add_zero, Nat.add_comm]

theorem innerLists_pair (a d : Expr) :
    (pair a d).innerLists = if a.isPair then a :: d.innerLists else d.innerLists := by
  simp only [innerLists, items_pair, List.map_cons, List.filter_cons]

/-- Each list inside a list has a pair of it to stand for, beside those of its own. -/
theorem weight_innerLists_le (e : Expr) : weight e.innerLists ≤ e.pairs := by
  induction e with
  | pair a d _ ih =>
    rw [innerLists_pair, pairs]
    split
    · rw [weight]
      omega
    · omega
  | nil | symbol | atom | native => exact Nat.le_refl 0

/-- The deepest level met while the pending lists, each with its own level, are taken apart. -/
def deepest (found : Nat) : List (Expr × Nat) → Nat
  | [] => found
  | (e, level) :: pending =>
    if e.isPair then
      deepest (max found level) (e.innerLists.reverse.map (·, level + 1) ++ pending)
    else deepest found pending
termination_by pending => weight (pending.map Prod.fst)
decreasing_by
  · have h : (e.innerLists.reverse.map (·, level + 1)).map Prod.fst = e.innerLists.reverse := by
      rw [List.map_map]
      exact List.map_id _
    have hle := weight_innerLists_le e
    rw [List.map_append, weight_append, h, weight_reverse, List.map_cons, weight]
    show weight e.innerLists + _ < e.pairs + 1 + _
    omega
  · rw [List.map_cons, weight]
    omega

def nestingDepth (e : Expr) : Nat := deepest 0 [(e, 1)]

/-- The same number by recursion: going into an element adds a level, going on along the chain adds
none. -/
def nestingByParts : Expr → Nat
  | pair a d => max (a.nestingByParts + 1) d.nestingByParts
  | _ => 0

end PairLisp.Expr
