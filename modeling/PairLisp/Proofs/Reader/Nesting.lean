import PairLisp.Proofs.Expr.Depth
import PairLisp.Proofs.Reader.Exactness

/-! # Nesting in texts

The parentheses that tokens leave open at any point are at most as many as the forms derived from
them need, and there is a point where they are as many. An empty list needs a pair of its own, which
the nesting depth does not count.
-/

namespace PairLisp

namespace Expr

/-- The parentheses open at once where an expression is written as a form. -/
def parenDepth : Expr → Nat
  | nil => 1
  | pair a d => max (a.parenDepth + 1) d.parenDepth
  | _ => 0

theorem nestingByParts_le_parenDepth (e : Expr) : e.nestingByParts ≤ e.parenDepth := by
  induction e with
  | pair a d iha ihd => simp only [nestingByParts, parenDepth]; omega
  | nil | symbol | atom | native => exact Nat.zero_le _

theorem parenDepth_ofList_le_iff {es : List Expr} {n : Nat} :
    (ofList es).parenDepth ≤ n ↔ 1 ≤ n ∧ ∀ e ∈ es, e.parenDepth + 1 ≤ n := by
  induction es with
  | nil => simp [parenDepth]
  | cons e es ih =>
    simp only [ofList_cons, parenDepth, Nat.max_le, ih, List.forall_mem_cons]
    exact and_left_comm

theorem nestingByParts_lt_ofList {e : Expr} {es : List Expr} (h : e ∈ es) :
    e.nestingByParts < (ofList es).nestingByParts := by
  induction es with
  | nil => simp at h
  | cons x xs ih =>
    simp only [ofList_cons, nestingByParts]
    rcases List.mem_cons.1 h with rfl | h
    · omega
    · have hlt := ih h
      omega

end Expr

namespace Token

variable {ts us : List Token} {es : List Expr} {n : Nat}

theorem parenDepth_of_leaf? {t : Token} {e : Expr} (h : t.leaf? = some e) : e.parenDepth = 0 := by
  rw [leaf?] at h
  split at h <;> cases h <;> rfl

/-- No more than `n` parentheses are open anywhere in some tokens. -/
def OpenAtMost (n : Nat) (ts : List Token) : Prop := ∀ us, us <+: ts → opens us ≤ closes us + n

theorem OpenAtMost.front (h : OpenAtMost n (ts ++ us)) : OpenAtMost n ts :=
  fun vs hvs => h vs (hvs.trans (List.prefix_append ts us))

theorem Derives.openAtMost_append_iff (h : Derives ts es) :
    OpenAtMost n (ts ++ us) ↔ OpenAtMost n ts ∧ OpenAtMost n us := by
  have heq := h.opens_eq_closes
  constructor
  · refine fun hall => ⟨hall.front, fun vs hvs => ?_⟩
    have hle := hall (ts ++ vs) (List.prefix_append_right_inj ts |>.2 hvs)
    simp only [opens_append, closes_append] at hle
    omega
  · rintro ⟨hts, hus⟩ vs ⟨after, hvs⟩
    rcases List.append_eq_append_iff.1 hvs with ⟨mid, rfl, -⟩ | ⟨mid, rfl, rfl⟩
    · exact hts vs (List.prefix_append vs mid)
    · have hle := hus mid (List.prefix_append mid after)
      simp only [opens_append, closes_append]
      omega

/-- A list leaves one more parenthesis open than its elements. -/
theorem Derives.openAtMost_list_iff {l r : Token} {inner : List Token} (h : Derives inner es)
    (hl : l.kind = .leftParen) (hr : r.kind = .rightParen) :
    OpenAtMost (n + 1) (l :: (inner ++ [r])) ↔ OpenAtMost n inner := by
  have heq := h.opens_eq_closes
  constructor
  · rintro hall us ⟨after, rfl⟩
    have hle := hall (l :: us) ⟨after ++ [r], by simp⟩
    simp [hl] at hle
    omega
  · intro hinner us hus
    rcases List.prefix_cons_iff.1 hus with rfl | ⟨vs, rfl, hvs⟩
    · simp
    · rcases List.prefix_concat_iff.1 hvs with rfl | hvs
      · simp [hl, hr]
        omega
      · have hle := hinner vs hvs
        simp [hl]
        omega

/-- The parentheses open in the tokens of some forms are those that the forms need. -/
theorem Derives.parenDepth_le_iff (h : Derives ts es) :
    (∀ e ∈ es, e.parenDepth ≤ n) ↔ OpenAtMost n ts := by
  induction h generalizing n with
  | nil => simp [OpenAtMost]
  | @leaf t e ts es hleaf hts ih =>
    have hone : OpenAtMost n [t] := by
      intro us hus
      rcases List.prefix_cons_iff.1 hus with rfl | ⟨vs, rfl, hvs⟩
      · simp
      · rcases kind_of_leaf? hleaf with hk | hk | hk | hk <;> simp [List.prefix_nil.1 hvs, hk]
    rw [show t :: ts = [t] ++ ts from rfl, (Derives.singleton hleaf).openAtMost_append_iff,
      List.forall_mem_cons, ih, parenDepth_of_leaf? hleaf]
    simp [hone]
  | @list l r inner ts elements es hl hr hinner hts ihinner ih =>
    have hsplit : l :: (inner ++ r :: ts) = (l :: (inner ++ [r])) ++ ts := by simp
    rw [hsplit, (Derives.parenthesized hl hr hinner).openAtMost_append_iff,
      List.forall_mem_cons, ih, Expr.parenDepth_ofList_le_iff]
    cases n with
    | zero =>
      have hopen : ¬OpenAtMost 0 (l :: (inner ++ [r])) := by
        intro hall
        have hle := hall [l] (List.prefix_append [l] _)
        simp [hl] at hle
      simp [hopen]
    | succ n =>
      rw [hinner.openAtMost_list_iff hl hr, ← ihinner]
      simp

theorem openAtMost_significant_iff : OpenAtMost n (significant ts) ↔ OpenAtMost n ts := by
  constructor
  · rintro h us ⟨after, rfl⟩
    have hle := h (significant us) (by simp)
    rwa [opens_significant, closes_significant] at hle
  · rintro h us ⟨after, hafter⟩
    obtain ⟨vs, ws, rfl, rfl, -⟩ := List.filter_eq_append_iff.1 hafter.symm
    have hle := h vs (List.prefix_append vs ws)
    rw [← Token.significant, opens_significant, closes_significant]
    exact hle

end Token

/-- The forms of a text need no more parentheses at once than may be open in it. -/
theorem parenDepth_of_readText {text : String} {forms : List Expr}
    (h : readText text = .ok forms) : ∀ e ∈ forms, e.parenDepth ≤ 128 := by
  obtain ⟨hadmissible, hforms⟩ := admissible_of_readText h
  have hopen : Token.OpenAtMost 128 (textTokens text) := hadmissible.shallow
  exact hforms.parenDepth_le_iff.2 (Token.openAtMost_significant_iff.2 hopen)

theorem nestingDepth_of_readText {text : String} {forms : List Expr}
    (h : readText text = .ok forms) : ∀ e ∈ forms, e.nestingDepth ≤ 128 := by
  intro e he
  rw [Expr.nestingDepth_eq_nestingByParts]
  exact Nat.le_trans e.nestingByParts_le_parenDepth (parenDepth_of_readText h e he)

end PairLisp
