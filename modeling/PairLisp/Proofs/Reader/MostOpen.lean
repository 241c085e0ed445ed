import Mathlib.Data.List.Infix
import Mathlib.Data.List.MinMax
import PairLisp.Proofs.Expr.Levels
import PairLisp.Proofs.Reader.Nesting

/-! # What nesting depth measures

The nesting depth of an expression is the depth of its lists, however it is found: by the walk, by
recursion over elements, or from the parentheses of the list form. A form that is read is nested no
deeper than there are parentheses open at once in its text. It can be nested less deeply, because an
empty list needs parentheses and has no depth.
-/

namespace PairLisp

/-- The largest number of parentheses that are open at once in some tokens. -/
def Token.mostOpen (ts : List Token) : Nat :=
  (ts.inits.map fun us => opens us - closes us).foldr max 0

theorem Token.openAtMost_mostOpen (ts : List Token) : OpenAtMost (mostOpen ts) ts := by
  intro us hus
  have hmem : opens us - closes us ∈ ts.inits.map fun us => opens us - closes us :=
    List.mem_map_of_mem ((List.mem_inits us ts).2 hus)
  have hle : opens us - closes us ≤ mostOpen ts := List.le_max_of_le' 0 hmem (Nat.le_refl _)
  omega

/-- The walk comes to its end, and what it finds is zero for a leaf, and for a list one more than
the greatest depth of its elements and one more than the greatest number of lists around a
parenthesis that is written for it. No form of a text is nested deeper than parentheses are open at
once in the text. -/
theorem nestingDepth_measures :
    (∀ e : Expr,
      (∀ n, e.pairs < n → Expr.walkStep^[n] (0, [(e, 1)]) = (e.nestingDepth, [])) ∧
      (e.isPair = false → e.nestingDepth = 0) ∧
      (e.isPair = true → ∃ k, e.nestingDepth = 1 + k ∧
        IsGreatest e.elementDepths k ∧ IsGreatest e.parenLevels k) ∧
      ∀ style, (e.listing style 0).toList = ListPiece.chars style (e.pieces 0)) ∧
    ∀ text forms, readText text = .ok forms →
      ∀ f ∈ forms, f.nestingDepth ≤ Token.mostOpen (textTokens text) := by
  refine ⟨fun e => ⟨fun n hn => ?_, fun hleaf => ?_, fun hpair => ?_, fun style => ?_⟩, ?_⟩
  · exact Expr.walkStep_iterate hn
  · rw [Expr.nestingDepth_eq_nestingByParts, Expr.nestingByParts_of_not_isPair hleaf]
  · have hpos := Expr.nestingByParts_pos hpair
    have hdepth : e.nestingDepth = 1 + (e.nestingByParts - 1) := by
      rw [Expr.nestingDepth_eq_nestingByParts]
      omega
    exact ⟨_, hdepth, Expr.isGreatest_elementDepths hdepth, Expr.isGreatest_parenLevels hdepth⟩
  · exact Expr.toList_listing_eq_chars style 0 e
  · intro text forms h f hf
    obtain ⟨-, hforms⟩ := admissible_of_readText h
    have hopen := Token.openAtMost_mostOpen (textTokens text)
    have hparens := hforms.parenDepth_le_iff.2 (Token.openAtMost_significant_iff.2 hopen) f hf
    rw [Expr.nestingDepth_eq_nestingByParts]
    exact Nat.le_trans f.nestingByParts_le_parenDepth hparens

/-- An improper list with a list in it, and a text with parentheses in a string and empty lists at
the bottom. -/
theorem nestingDepth_measures_of_nested :
    let e : Expr := .pair (.pair .nil (.symbol "x")) (.pair (.int 1) (.symbol "y"))
    let text := "(a (\"(((\" ())) (b)"
    (Expr.walkStep^[4] (0, [(e, 1)]) = (2, []) ∧ Expr.nil.nestingDepth = 0 ∧
      IsGreatest e.elementDepths 1 ∧ IsGreatest e.parenLevels 1) ∧
      ∃ forms, readText text = .ok forms ∧ forms.map Expr.nestingDepth = [2, 1] ∧
        Token.mostOpen (textTokens text) = 3 ∧
        ∀ f ∈ forms, f.nestingDepth ≤ Token.mostOpen (textTokens text) := by
  intro e text
  obtain ⟨hwalk, -, hlist, -⟩ := nestingDepth_measures.1 e
  have hdepth : e.nestingDepth = 2 := by decide +kernel
  obtain ⟨k, hk, helements, hparens⟩ := hlist rfl
  obtain rfl : k = 1 := by omega
  have hall : (readText text).toOption.map (·.map Expr.nestingDepth) = some [2, 1] := by
    decide +kernel
  have hopen : Token.mostOpen (textTokens text) = 3 := by decide +kernel
  obtain ⟨forms, hsome, hdepths⟩ := Option.map_eq_some_iff.1 hall
  have hread : readText text = .ok forms := by
    cases h : readText text with
    | error fault =>
      rw [h] at hsome
      cases hsome
    | ok read =>
      rw [h] at hsome
      rw [Option.some.inj hsome]
  have hleaf := (nestingDepth_measures.1 .nil).2.1 rfl
  have hforms := nestingDepth_measures.2 text forms hread
  exact ⟨⟨hdepth ▸ hwalk 4 (by decide), hleaf, helements, hparens⟩,
    forms, hread, hdepths, hopen, hforms⟩

end PairLisp
