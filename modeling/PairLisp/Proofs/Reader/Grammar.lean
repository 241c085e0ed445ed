import PairLisp.Proofs.Scanner.Run
import PairLisp.Reader.Text

/-! # The grammar of forms

A form is a leaf or a list of forms between parentheses. The grammar speaks of tokens without blanks
and knows no limits. In what it derives every parenthesis has its partner, so tokens have at most
one derivation and the list around a sequence of forms is found by its parentheses alone.
-/

namespace PairLisp
namespace Token

def leaf? (t : Token) : Option Expr :=
  match t.content with
  | .symbol => some (.symbol t.raw)
  | .int n => some (.atom ⟨t.raw, .int n⟩)
  | .float x => some (.atom ⟨t.raw, .float x⟩)
  | .string s => some (.atom ⟨t.raw, .string s⟩)
  | _ => none

def isBlank (t : Token) : Bool := t.kind = .whitespace || t.kind = .newline

/-- The tokens that are neither blanks nor the end of the text. -/
def significant (ts : List Token) : List Token :=
  ts.filter fun t => !t.isBlank && t.kind ≠ .endOfText

/-- Sequences of forms, where `form ::= leaf | '(' form* ')'`. -/
inductive Derives : List Token → List Expr → Prop where
  | nil : Derives [] []
  | leaf {t : Token} {e : Expr} {ts : List Token} {es : List Expr} :
      t.leaf? = some e → Derives ts es → Derives (t :: ts) (e :: es)
  | list {l r : Token} {inner ts : List Token} {elements es : List Expr} :
      l.kind = .leftParen → r.kind = .rightParen → Derives inner elements → Derives ts es →
        Derives (l :: (inner ++ r :: ts)) (.ofList elements :: es)

/-- No list among some tokens has more than `limit` elements. -/
def ListsAtMost (limit : Nat) (ts : List Token) : Prop :=
  ∀ before l inner r after elements, ts = before ++ l :: (inner ++ r :: after) →
    l.kind = .leftParen → r.kind = .rightParen → Derives inner elements → elements.length ≤ limit

variable {t : Token} {e : Expr} {ts us : List Token} {es fs : List Expr}

theorem kind_of_leaf? (h : t.leaf? = some e) :
    t.kind = .symbol ∨ t.kind = .int ∨ t.kind = .float ∨ t.kind = .string := by
  revert h
  rw [leaf?, kind]
  cases t.content <;> simp [Content.kind]

theorem exists_leaf?_iff :
    (∃ e, t.leaf? = some e) ↔
      t.kind = .symbol ∨ t.kind = .int ∨ t.kind = .float ∨ t.kind = .string := by
  rw [leaf?, kind]
  cases t.content <;> simp [Content.kind]

theorem leaf?_eq_none (h : t.kind = .leftParen ∨ t.kind = .rightParen ∨ t.kind = .invalid) :
    t.leaf? = none := by
  revert h
  rw [leaf?, kind]
  cases t.content <;> simp [Content.kind]

@[simp] theorem significant_nil : significant [] = [] := rfl

@[simp] theorem significant_append (ts us : List Token) :
    significant (ts ++ us) = significant ts ++ significant us := List.filter_append ..

theorem significant_cons_of_isBlank (h : t.isBlank = true) :
    significant (t :: ts) = significant ts := by
  simp [significant, h]

theorem significant_cons (h : t.isBlank = false) (hend : t.kind ≠ .endOfText) :
    significant (t :: ts) = t :: significant ts := by
  simp [significant, h, hend]

theorem opens_significant (ts : List Token) : opens (significant ts) = opens ts := by
  rw [opens, significant, List.countP_filter]
  refine List.countP_congr fun t _ => ?_
  cases h : t.kind <;> simp [isBlank, h]

theorem closes_significant (ts : List Token) : closes (significant ts) = closes ts := by
  rw [closes, significant, List.countP_filter]
  refine List.countP_congr fun t _ => ?_
  cases h : t.kind <;> simp [isBlank, h]

namespace Derives

theorem append (h : Derives ts es) (h' : Derives us fs) : Derives (ts ++ us) (es ++ fs) := by
  induction h with
  | nil => exact h'
  | leaf hleaf _ ih => exact .leaf hleaf ih
  | list hl hr hinner _ _ ih =>
    rw [List.cons_append, List.append_assoc]
    exact .list hl hr hinner ih

theorem singleton (h : t.leaf? = some e) : Derives [t] [e] := .leaf h .nil

theorem parenthesized {l r : Token} {inner : List Token} (hl : l.kind = .leftParen)
    (hr : r.kind = .rightParen) (h : Derives inner es) :
    Derives (l :: (inner ++ [r])) [.ofList es] :=
  .list hl hr h .nil

theorem opens_eq_closes (h : Derives ts es) : opens ts = closes ts := by
  induction h with
  | nil => rfl
  | leaf hleaf _ ih =>
    rcases kind_of_leaf? hleaf with hk | hk | hk | hk <;> simpa [hk] using ih
  | list hl hr _ _ ihinner ih =>
    simp [hl, hr, ihinner, ih]
    omega

theorem opens_le_closes_back (h : Derives ts es) (hsuffix : us <:+ ts) :
    opens us ≤ closes us := by
  induction h generalizing us with
  | nil => simp [List.suffix_nil.1 hsuffix]
  | leaf hleaf hts ih =>
    rcases List.suffix_cons_iff.1 hsuffix with rfl | hsuffix
    · exact (Derives.leaf hleaf hts).opens_eq_closes ▸ Nat.le_refl _
    · exact ih hsuffix
  | @list l r inner ts elements es hl hr hinner hts ihinner ih =>
    rcases List.suffix_cons_iff.1 hsuffix with rfl | hsuffix
    · exact (Derives.list hl hr hinner hts).opens_eq_closes ▸ Nat.le_refl _
    · obtain ⟨before, hbefore⟩ := hsuffix
      rcases List.append_eq_append_iff.1 hbefore with ⟨mid, hmid, rfl⟩ | ⟨mid, rfl, hmid⟩
      · -- The part starts inside the list.
        have hpart := ihinner ⟨before, hmid.symm⟩
        have hrest := hts.opens_eq_closes
        simp [hr]
        omega
      · rcases List.cons_eq_append_iff.1 hmid with ⟨rfl, rfl⟩ | ⟨mid, rfl, rfl⟩
        · have hrest := hts.opens_eq_closes
          simp [hr]
          omega
        · exact ih (List.suffix_append ..)

theorem closes_le_opens_front (h : Derives (ts ++ us) es) : closes ts ≤ opens ts := by
  have hall := h.opens_eq_closes
  have hrest := h.opens_le_closes_back (List.suffix_append ts us)
  rw [opens_append, closes_append] at hall
  omega

/-- A part at the start that closes what it opens is complete forms, and so is what comes after. -/
theorem exists_append (h : Derives (ts ++ us) es) (heq : opens ts = closes ts) :
    ∃ es₁ es₂, es = es₁ ++ es₂ ∧ Derives ts es₁ ∧ Derives us es₂ := by
  generalize hall : ts ++ us = all at h
  induction h generalizing ts with
  | nil =>
    obtain ⟨rfl, rfl⟩ := List.append_eq_nil_iff.1 hall
    exact ⟨[], [], rfl, .nil, .nil⟩
  | @leaf t e rest es hleaf hrest ih =>
    rcases List.append_eq_cons_iff.1 hall with ⟨rfl, rfl⟩ | ⟨ts, rfl, rfl⟩
    · exact ⟨[], e :: es, rfl, .nil, .leaf hleaf hrest⟩
    · have hbalanced : opens ts = closes ts := by
        rcases kind_of_leaf? hleaf with hk | hk | hk | hk <;> simpa [hk] using heq
      obtain ⟨es₁, es₂, rfl, h₁, h₂⟩ := ih hbalanced rfl
      exact ⟨e :: es₁, es₂, rfl, .leaf hleaf h₁, h₂⟩
  | @list l r inner rest elements es hl hr hinner hrest _ ih =>
    rcases List.append_eq_cons_iff.1 hall with ⟨rfl, rfl⟩ | ⟨ts, rfl, hts⟩
    · exact ⟨[], _, rfl, .nil, .list hl hr hinner hrest⟩
    have hopen : opens ts + 1 = closes ts := by simpa [hl] using heq
    have hbalanced := hinner.opens_eq_closes
    rcases List.append_eq_append_iff.1 hts with ⟨mid, rfl, hmid⟩ | ⟨mid, rfl, -⟩
    · rcases List.cons_eq_append_iff.1 hmid with ⟨rfl, rfl⟩ | ⟨mid, rfl, rfl⟩
      · simp at hopen
        omega
      · simp [hr] at hopen
        obtain ⟨es₁, es₂, rfl, h₁, h₂⟩ := ih (by omega) rfl
        refine ⟨.ofList elements :: es₁, es₂, rfl, ?_, h₂⟩
        exact .list hl hr hinner h₁
    · -- The list is still open where the part ends.
      have hle := hinner.closes_le_opens_front
      omega

theorem not_append_rightParen {r : Token} (h : Derives ts es) (hr : r.kind = .rightParen) :
    ¬Derives (ts ++ r :: us) fs := by
  intro hlong
  rw [List.append_cons] at hlong
  have hle := hlong.closes_le_opens_front
  have heq := h.opens_eq_closes
  simp [hr] at hle
  omega

theorem not_append_leftParen {l : Token} (h : Derives us es) (hl : l.kind = .leftParen) :
    ¬Derives (ts ++ l :: us) fs := by
  intro hlong
  have hle := hlong.opens_le_closes_back (List.suffix_append ts (l :: us))
  have heq := h.opens_eq_closes
  simp [hl] at hle
  omega

/-- A list ends where its elements are complete. -/
theorem closing_unique {inner inner' after after' : List Token} {r r' : Token}
    (h : Derives inner es) (h' : Derives inner' fs) (hr : r.kind = .rightParen)
    (hr' : r'.kind = .rightParen) (heq : inner ++ r :: after = inner' ++ r' :: after') :
    inner = inner' ∧ after = after' := by
  rcases List.append_eq_append_iff.1 heq with ⟨mid, rfl, hmid⟩ | ⟨mid, rfl, hmid⟩
  · rcases List.cons_eq_append_iff.1 hmid with ⟨rfl, htail⟩ | ⟨mid, rfl, -⟩
    · exact ⟨(List.append_nil _).symm, (List.cons.inj htail).2.symm⟩
    · exact absurd h' (h.not_append_rightParen hr)
  · rcases List.cons_eq_append_iff.1 hmid with ⟨rfl, htail⟩ | ⟨mid, rfl, -⟩
    · exact ⟨List.append_nil _, (List.cons.inj htail).2⟩
    · exact absurd h (h'.not_append_rightParen hr')

theorem opening_unique {before before' inner inner' : List Token} {l l' : Token}
    (h : Derives inner es) (h' : Derives inner' fs) (hl : l.kind = .leftParen)
    (hl' : l'.kind = .leftParen) (heq : before ++ l :: inner = before' ++ l' :: inner') :
    before = before' ∧ l = l' ∧ inner = inner' := by
  rcases List.append_eq_append_iff.1 heq with ⟨mid, rfl, hmid⟩ | ⟨mid, rfl, hmid⟩
  · rcases List.cons_eq_append_iff.1 hmid with ⟨rfl, htail⟩ | ⟨mid, rfl, rfl⟩
    · obtain ⟨rfl, rfl⟩ := List.cons.inj htail
      exact ⟨(List.append_nil _).symm, rfl, rfl⟩
    · exact absurd h (h'.not_append_leftParen hl')
  · rcases List.cons_eq_append_iff.1 hmid with ⟨rfl, htail⟩ | ⟨mid, rfl, rfl⟩
    · obtain ⟨rfl, rfl⟩ := List.cons.inj htail
      exact ⟨List.append_nil _, rfl, rfl⟩
    · exact absurd h' (h.not_append_leftParen hl)

/-- Tokens are the text of one sequence of forms at most. -/
theorem unique (h : Derives ts es) (h' : Derives ts fs) : es = fs := by
  induction h generalizing fs with
  | nil => cases h'; rfl
  | leaf hleaf _ ih =>
    cases h' with
    | leaf hleaf' hts' => rw [ih hts', Option.some.inj (hleaf.symm.trans hleaf')]
    | list hl _ _ _ => rcases kind_of_leaf? hleaf with hk | hk | hk | hk <;> simp [hk] at hl
  | list hl hr hinner _ ihinner ih =>
    generalize htail : _ ++ _ :: _ = tail at h'
    cases h' with
    | leaf hleaf _ => rcases kind_of_leaf? hleaf with hk | hk | hk | hk <;> simp [hk] at hl
    | list _ hr' hinner' hts' =>
      obtain ⟨rfl, rfl⟩ := closing_unique hinner hinner' hr hr' htail
      rw [ihinner hinner', ih hts']

end Derives

theorem inner_isPart (l r : Token) (inner after : List Token) :
    inner <:+: l :: (inner ++ r :: after) := ⟨[l], r :: after, by simp⟩

theorem after_isPart (l r : Token) (inner after : List Token) :
    after <:+: l :: (inner ++ r :: after) := ⟨l :: (inner ++ [r]), [], by simp⟩

theorem ListsAtMost.part {limit : Nat} (h : ListsAtMost limit ts) (hpart : us <:+: ts) :
    ListsAtMost limit us := by
  obtain ⟨first, last, rfl⟩ := hpart
  rintro before l inner r after elements rfl hl hr hinner
  exact h (first ++ before) l inner r (after ++ last) elements (by simp) hl hr hinner

theorem ListsAtMost.snoc {limit : Nat} (h : ListsAtMost limit ts)
    (hlast : t.kind = .rightParen → ∀ before l inner elements, ts = before ++ l :: inner →
      l.kind = .leftParen → Derives inner elements → elements.length ≤ limit) :
    ListsAtMost limit (ts ++ [t]) := by
  intro before l inner r after elements heq hl hr hinner
  rcases List.eq_nil_or_concat after with rfl | ⟨after, last, rfl⟩
  · have hsplit : ts ++ [t] = (before ++ l :: inner) ++ [r] := by simpa using heq
    obtain ⟨hts, hlasts⟩ := List.append_inj' hsplit rfl
    obtain rfl : t = r := List.singleton_inj.1 hlasts
    exact hlast hr before l inner elements hts hl hinner
  · have hsplit : ts ++ [t] = (before ++ l :: (inner ++ r :: after)) ++ [last] := by
      simpa using heq
    obtain ⟨hts, -⟩ := List.append_inj' hsplit rfl
    exact h before l inner r after elements hts hl hr hinner

end Token
end PairLisp
