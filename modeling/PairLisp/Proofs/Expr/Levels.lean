import Mathlib.Logic.Function.Iterate
import Mathlib.Order.Bounds.Basic
import PairLisp.Proofs.Expr.Depth
import PairLisp.Proofs.Expr.Pieces

/-! # Levels of lists

The walk over the stack of pending lists comes to its end: each step takes a list off, and the lists
that it puts on instead have fewer pairs. What it finds is the depth by recursion over the elements,
and one more than the greatest number of lists around any parenthesis of the list form.
-/

namespace PairLisp.Expr

variable {e a l : Expr} {k : Nat}

/-! ## The walk step by step -/

/-- One step of the walk, on the deepest level found so far and the stack of pending lists, each
with its own level. Nothing happens once the stack is empty. -/
def walkStep : Nat × List (Expr × Nat) → Nat × List (Expr × Nat)
  | (found, []) => (found, [])
  | (found, (e, level) :: pending) =>
    if e.isPair then
      (max found level, e.innerLists.reverse.map (·, level + 1) ++ pending)
    else (found, pending)

theorem walkStep_iterate {n found : Nat} {pending : List (Expr × Nat)}
    (h : weight (pending.map Prod.fst) ≤ n) :
    walkStep^[n] (found, pending) = (deepest found pending, []) := by
  fun_induction deepest found pending generalizing n with
  | case1 found => exact Function.iterate_fixed rfl n
  | case2 found e level pending hpair ih =>
    simp only [List.map_cons, weight] at h
    obtain ⟨n, rfl⟩ : ∃ m, n = m + 1 := ⟨n - 1, by omega⟩
    have hinner := weight_innerLists_le e
    rw [Function.iterate_succ_apply, walkStep, if_pos hpair]
    refine ih ?_
    have hlists :
        (e.innerLists.reverse.map (·, level + 1)).map Prod.fst = e.innerLists.reverse := by
      rw [List.map_map]
      exact List.map_id _
    rw [List.map_append, weight_append, hlists, weight_reverse]
    omega
  | case3 found e level pending hpair ih =>
    simp only [List.map_cons, weight] at h
    obtain ⟨n, rfl⟩ : ∃ m, n = m + 1 := ⟨n - 1, by omega⟩
    rw [Function.iterate_succ_apply, walkStep, if_neg hpair]
    exact ih (by omega)

/-! ## Elements -/

theorem isPair_of_nestingByParts_pos (h : 0 < e.nestingByParts) : e.isPair = true := by
  by_contra hleaf
  rw [nestingByParts_of_not_isPair (Bool.eq_false_of_not_eq_true hleaf)] at h
  exact Nat.lt_irrefl 0 h

theorem nestingByParts_of_mem_items (h : (a, true) ∈ e.items) :
    a.nestingByParts + 1 ≤ e.nestingByParts := by
  induction e with
  | pair b d _ ih =>
    rw [nestingByParts]
    rcases List.mem_cons.1 h with hb | htail
    · obtain rfl : a = b := congrArg Prod.fst hb
      exact Nat.le_max_left _ _
    · exact Nat.le_trans (ih htail) (Nat.le_max_right _ _)
  | nil | symbol | atom | native => simp [items] at h

theorem exists_mem_items (h : e.isPair = true) :
    ∃ a, (a, true) ∈ e.items ∧ a.nestingByParts + 1 = e.nestingByParts := by
  induction e with
  | pair b d _ ih =>
    rw [nestingByParts]
    by_cases hle : d.nestingByParts ≤ b.nestingByParts + 1
    · exact ⟨b, List.mem_cons_self, (Nat.max_eq_left hle).symm⟩
    · -- The rest of the chain reaches deeper, so it is a list.
      obtain ⟨a, hmem, heq⟩ := ih (isPair_of_nestingByParts_pos (by omega))
      exact ⟨a, List.mem_cons_of_mem _ hmem, by omega⟩
  | nil | symbol | atom | native => cases h

/-! ## Parentheses -/

theorem HasList.lt_nestingByParts (h : HasList e k l) : k < e.nestingByParts := by
  induction h with
  | here hpair => exact nestingByParts_pos hpair
  | element hmem _ ih =>
    exact Nat.lt_of_lt_of_le (Nat.succ_lt_succ ih) (nestingByParts_of_mem_items hmem)

/-- Inside a list there is one with all but one of the levels around it. -/
theorem exists_hasList_of_nestingByParts (h : e.nestingByParts = k + 1) : ∃ l, HasList e k l := by
  induction k generalizing e with
  | zero => exact ⟨e, .here (isPair_of_nestingByParts_pos (by omega))⟩
  | succ k ih =>
    have hpair : e.isPair = true := isPair_of_nestingByParts_pos (by omega)
    obtain ⟨a, hmem, heq⟩ := exists_mem_items hpair
    obtain ⟨l, hl⟩ := ih (e := a) (by omega)
    exact ⟨l, .element hmem hl⟩

/-- Parentheses are written for the lists of an expression and carry the number of lists around
them. -/
theorem paren_mem_pieces_iff :
    (∃ p, .paren p k ∈ e.pieces 0) ↔ ∃ l, HasList e k l := by
  constructor
  · rintro ⟨p, hmem⟩
    obtain ⟨j, l, hl, rfl⟩ := exists_hasList_of_paren_mem hmem
    exact ⟨l, by rwa [Nat.zero_add]⟩
  · rintro ⟨l, hl⟩
    obtain ⟨inner, hpieces, -⟩ := pieces_eq_of_isPair (0 + k) hl.isPair_inner
    refine ⟨.opening, (hl.infix_pieces 0).subset ?_⟩
    rw [hpieces, Nat.zero_add]
    exact List.mem_cons_self

/-! ## The depth of a list -/

def elementDepths (e : Expr) : Set Nat := {k | ∃ a, (a, true) ∈ e.items ∧ a.nestingDepth = k}

/-- The numbers of lists around the parentheses of the list form. -/
def parenLevels (e : Expr) : Set Nat := {k | ∃ p, .paren p k ∈ e.pieces 0}

theorem isGreatest_elementDepths (h : e.nestingDepth = 1 + k) : IsGreatest e.elementDepths k := by
  rw [nestingDepth_eq_nestingByParts] at h
  constructor
  · have hpair : e.isPair = true := isPair_of_nestingByParts_pos (by omega)
    obtain ⟨a, hmem, heq⟩ := exists_mem_items hpair
    exact ⟨a, hmem, by rw [nestingDepth_eq_nestingByParts]; omega⟩
  · rintro _ ⟨a, hmem, rfl⟩
    have hle := nestingByParts_of_mem_items hmem
    rw [nestingDepth_eq_nestingByParts]
    omega

theorem isGreatest_parenLevels (h : e.nestingDepth = 1 + k) : IsGreatest e.parenLevels k := by
  rw [nestingDepth_eq_nestingByParts, Nat.add_comm] at h
  constructor
  · exact paren_mem_pieces_iff.2 (exists_hasList_of_nestingByParts h)
  · intro j hj
    obtain ⟨l, hl⟩ := paren_mem_pieces_iff.1 hj
    have hlt := hl.lt_nestingByParts
    omega

end PairLisp.Expr
