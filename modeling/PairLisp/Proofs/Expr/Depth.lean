import PairLisp.Expr.Depth

/-! # The walk measures nesting

The walk over a stack of pending lists finds the same depth as the recursion on the expression, in
whatever order it takes the lists.
-/

namespace PairLisp.Expr

/-- The deepest level in an expression whose own level is `level`, if it is a list. -/
def reach (level : Nat) (e : Expr) : Nat := if e.isPair then level + e.nestingByParts - 1 else 0

def deepestReach : List (Expr × Nat) → Nat
  | [] => 0
  | (e, level) :: pending => max (reach level e) (deepestReach pending)

theorem deepestReach_append (xs ys : List (Expr × Nat)) :
    deepestReach (xs ++ ys) = max (deepestReach xs) (deepestReach ys) := by
  induction xs with
  | nil => exact (Nat.zero_max _).symm
  | cons x xs ih => rw [List.cons_append, deepestReach, deepestReach, ih, Nat.max_assoc]

theorem deepestReach_reverse (xs : List (Expr × Nat)) :
    deepestReach xs.reverse = deepestReach xs := by
  induction xs with
  | nil => rfl
  | cons x xs ih =>
    rw [List.reverse_cons, deepestReach_append, ih, deepestReach, deepestReach, deepestReach,
      Nat.max_zero, Nat.max_comm]

theorem nestingByParts_of_not_isPair {e : Expr} (h : e.isPair = false) : e.nestingByParts = 0 := by
  cases e with
  | pair a d => cases h
  | nil | symbol | atom | native => rfl

theorem nestingByParts_pos {e : Expr} (h : e.isPair = true) : 0 < e.nestingByParts := by
  cases e with
  | pair a d => exact Nat.lt_of_lt_of_le (Nat.succ_pos _) (Nat.le_max_left _ _)
  | nil | symbol | atom | native => cases h

/-- The lists inside a list are one level further down. -/
theorem deepestReach_innerLists (level : Nat) (e : Expr) :
    max level (deepestReach (e.innerLists.map (·, level + 1))) =
      max level (level + e.nestingByParts - 1) := by
  induction e with
  | pair a d _ ih =>
    rw [innerLists_pair, nestingByParts]
    cases ha : a.isPair with
    | true =>
      have hreach : reach (level + 1) a = level + a.nestingByParts := by
        rw [reach, if_pos ha]
        omega
      rw [if_pos rfl, List.map_cons, deepestReach, hreach]
      omega
    | false =>
      rw [if_neg Bool.false_ne_true, ih, nestingByParts_of_not_isPair ha]
      omega
  | nil | symbol | atom | native => simp [innerLists, items, isPair, deepestReach, nestingByParts]

theorem deepest_eq (found : Nat) (pending : List (Expr × Nat)) :
    deepest found pending = max found (deepestReach pending) := by
  fun_induction deepest found pending with
  | case1 found => exact (Nat.max_zero _).symm
  | case2 found e level pending hpair ih =>
    have hinner := deepestReach_innerLists level e
    have hpos := nestingByParts_pos hpair
    rw [ih, List.map_reverse, deepestReach_append, deepestReach_reverse, deepestReach, reach,
      if_pos hpair]
    omega
  | case3 found e level pending hpair ih =>
    rw [ih, deepestReach, reach, if_neg hpair, Nat.zero_max]

theorem nestingDepth_eq_nestingByParts (e : Expr) : e.nestingDepth = e.nestingByParts := by
  rw [nestingDepth, deepest_eq, deepestReach, deepestReach, reach]
  cases h : e.isPair with
  | true =>
    have hpos := nestingByParts_pos h
    rw [if_pos rfl]
    omega
  | false => rw [if_neg Bool.false_ne_true, nestingByParts_of_not_isPair h]; rfl

end PairLisp.Expr
