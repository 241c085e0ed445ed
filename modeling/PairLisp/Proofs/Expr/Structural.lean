import PairLisp.Proofs.Text.Quoted

/-! # The structural form identifies values

The structural form is that of the plain recursion, in which every part shows where it ends: a pair
at its closing parenthesis, a string at its closing quote and every other leaf at the character that
comes next. So values look the same only if they are the same. Left out are floating-point numbers,
negative integers, functions and symbols that look like another leaf.
-/

namespace PairLisp

open Token (IsLexeme IsSymbolName)
open Scanner (piece stringPiece)

namespace Expr

/-! ## By parts -/

theorem structuralByParts_of_not_isPair {e : Expr} (h : e.isPair = false) :
    e.structuralByParts = e.leafText := by
  cases e with
  | pair => cases h
  | nil | symbol | atom | native => rfl

theorem toList_structuralByParts_pair (a d : Expr) :
    (pair a d).structuralByParts.toList =
      "(cons ".toList ++ (a.structuralByParts.toList ++
        ' ' :: (d.structuralByParts.toList ++ [')'])) := by
  simp [structuralByParts]

/-- The chain is written after what is there already, and closes all its pairs at its end. -/
theorem toList_writeStructural (closing : Nat) (out : String) (e : Expr) :
    (e.writeStructural closing out).toList =
      out.toList ++ (e.structuralByParts.toList ++ List.replicate closing ')') := by
  induction e generalizing closing out with
  | pair a d iha ihd =>
    rw [writeStructural, ihd, toList_structuralByParts_pair, List.replicate_succ]
    simp [iha]
  | nil | symbol | atom | native => simp [writeStructural, structuralByParts]

theorem structural_eq_structuralByParts (e : Expr) : e.structural = e.structuralByParts := by
  rw [← String.toList_inj, structural, toList_writeStructural]
  simp

end Expr

/-! ## Words -/

/-- Tokens that stand in front of texts which they cannot take in show where they end. -/
theorem Token.IsLexeme.append_inj {t u : Token} {xs ys : List Char} (ht : t.IsLexeme)
    (hu : u.IsLexeme) (hxs : Separated xs) (hys : Separated ys)
    (h : t.raw.toList ++ xs = u.raw.toList ++ ys) :
    t.raw = u.raw ∧ t.content = u.content ∧ xs = ys := by
  obtain ⟨c, cs, hc, hpiece⟩ := ht
  obtain ⟨d, ds, hd, hpiece'⟩ := hu
  -- Both are what the scanner takes off the front of the same text.
  have hfront : piece 0 c (cs ++ xs) = ⟨c :: cs, xs, .ok t.content⟩ := by
    rw [Scanner.piece_append hxs (by simp [hpiece]), hpiece]
    rfl
  have hfront' : piece 0 d (ds ++ ys) = ⟨d :: ds, ys, .ok u.content⟩ := by
    rw [Scanner.piece_append hys (by simp [hpiece']), hpiece']
    rfl
  rw [hc, hd, List.cons_append, List.cons_append] at h
  obtain ⟨rfl, htail⟩ := List.cons.inj h
  rw [htail, hfront'] at hfront
  obtain ⟨hraw, hrest, hcontent⟩ := Token.Piece.mk.inj hfront
  refine ⟨String.toList_inj.1 ?_, (Except.ok.inj hcontent).symm, hrest.symm⟩
  rw [hc, hd, hraw]

namespace Expr

variable {e f : Expr} {content : Token.Content} {xs ys : List Char}

/-- The leaf is written as a word, which the scanner takes for a token with this content. -/
inductive IsWord : Expr → Token.Content → Prop where
  | nil : IsWord nil .symbol
  | symbol {name : String} : IsSymbolName name → name ≠ "nil" → IsWord (symbol name) .symbol
  | int {raw : String} {n : Int64} : 0 ≤ n.toInt → IsWord (atom ⟨raw, .int n⟩) (.int n)

namespace IsWord

theorem isPair_eq (h : IsWord e content) : e.isPair = false := by
  cases h <;> rfl

theorem isLexeme (h : IsWord e content) : IsLexeme ⟨content, e.leafText, .start⟩ := by
  cases h with
  | nil => exact Token.isLexeme_symbol Token.isSymbolName_nil
  | symbol hname => exact Token.isLexeme_symbol hname
  | int hn => exact Token.isLexeme_int hn

theorem content_eq (h : IsWord e content) : content = .symbol ∨ ∃ n, content = .int n := by
  cases h with
  | nil | symbol => exact .inl rfl
  | @int raw n => exact .inr ⟨n, rfl⟩

theorem head?_ne (h : IsWord e content) (xs : List Char) :
    (e.structuralByParts.toList ++ xs).head? ≠ some '(' ∧
      (e.structuralByParts.toList ++ xs).head? ≠ some '"' := by
  obtain ⟨c, cs, htext, hpiece⟩ := h.isLexeme
  have hkind := h.content_eq
  have hout : (piece 0 c cs).outcome = .ok content := by rw [hpiece]
  rw [structuralByParts_of_not_isPair h.isPair_eq, show e.leafText.toList = c :: cs from htext]
  constructor <;> rintro ⟨⟩
  · obtain rfl : Token.Content.leftParen = content := Except.ok.inj hout
    simp at hkind
  · have hstring : (stringPiece cs).outcome = .ok content := hout
    rcases Scanner.stringPiece_outcome cs with ⟨s, hs⟩ | ⟨escape, hs⟩ | hs <;> rw [hs] at hstring
    · obtain rfl := Except.ok.inj hstring
      simp at hkind
    · cases hstring
    · cases hstring

theorem same_of_leafText (he : IsWord e content) (hf : IsWord f content)
    (h : e.leafText = f.leafText) : e.same f = true := by
  cases he with
  | nil =>
    cases hf with
    | nil => rfl
    | symbol _ hne => exact absurd h.symm hne
  | symbol _ hne =>
    cases hf with
    | nil => exact absurd h hne
    | symbol => simpa [same, leafText] using h
  | int =>
    cases hf
    simp [same, Atom.Value.same]

end IsWord

theorem head?_structuralByParts_string (raw s : String) (xs : List Char) :
    ((atom ⟨raw, .string s⟩).structuralByParts.toList ++ xs).head? = some '"' := by
  show ((Text.quoted s).toList ++ xs).head? = some '"'
  rw [Text.toList_quoted]
  rfl

theorem head?_structuralByParts_pair (car cdr : Expr) (xs : List Char) :
    ((pair car cdr).structuralByParts.toList ++ xs).head? = some '(' := by
  rw [toList_structuralByParts_pair]
  rfl

/-- Values that their structural form identifies. -/
inductive Identifiable : Expr → Prop where
  | word {e : Expr} {content : Token.Content} : IsWord e content → Identifiable e
  | string (raw s : String) : Identifiable (atom ⟨raw, .string s⟩)
  | pair {car cdr : Expr} : Identifiable car → Identifiable cdr → Identifiable (pair car cdr)

namespace Identifiable

/-- Values with texts that none of them can take in behind them are written alike only if they are
the same. -/
theorem append_inj (he : e.Identifiable) (hf : f.Identifiable) (hxs : Separated xs)
    (hys : Separated ys)
    (h : e.structuralByParts.toList ++ xs = f.structuralByParts.toList ++ ys) :
    e.same f = true ∧ xs = ys := by
  induction he generalizing f xs ys with
  | @word e content hword =>
    have hfront := hword.head?_ne xs
    rw [h] at hfront
    cases hf with
    | word hword' =>
      rw [structuralByParts_of_not_isPair hword.isPair_eq,
        structuralByParts_of_not_isPair hword'.isPair_eq] at h
      obtain ⟨htext, hcontent, hrest⟩ := hword.isLexeme.append_inj hword'.isLexeme hxs hys h
      obtain rfl : content = _ := hcontent
      exact ⟨hword.same_of_leafText hword' htext, hrest⟩
    | string raw s => exact absurd (head?_structuralByParts_string raw s ys) hfront.2
    | pair => exact absurd (head?_structuralByParts_pair _ _ ys) hfront.1
  | string raw s =>
    have hfront := head?_structuralByParts_string raw s xs
    rw [h] at hfront
    cases hf with
    | word hword => exact absurd hfront (hword.head?_ne ys).2
    | string raw' t =>
      obtain ⟨rfl, hrest⟩ := Text.quoted_append_inj h
      exact ⟨by simp [same, Atom.Value.same], hrest⟩
    | pair =>
      rw [head?_structuralByParts_pair] at hfront
      cases hfront
  | @pair car cdr hcar hcdr ihcar ihcdr =>
    have hfront := head?_structuralByParts_pair car cdr xs
    rw [h] at hfront
    cases hf with
    | word hword => exact absurd hfront (hword.head?_ne ys).1
    | string =>
      rw [head?_structuralByParts_string] at hfront
      cases hfront
    | pair hcar' hcdr' =>
      simp only [toList_structuralByParts_pair, List.append_assoc, List.cons_append,
        List.nil_append] at h
      obtain ⟨hsame, hrest⟩ :=
        ihcar hcar' (.of_space _) (.of_space _) (List.append_cancel_left h)
      have hclose : isSymbolChar ')' = false := by decide +kernel
      obtain ⟨hsame', hend⟩ :=
        ihcdr hcdr' (.cons hclose _) (.cons hclose _) (List.cons.inj hrest).2
      exact ⟨by rw [same, hsame, hsame', Bool.and_self], (List.cons.inj hend).2⟩

theorem structuralByParts_of_same_atom {a : Atom} (ha : a.value.kind ≠ .float)
    (h : (atom a).same f = true) : (atom a).structuralByParts = f.structuralByParts := by
  cases f with
  | atom b =>
    have hvalue : a.value = b.value := by
      obtain ⟨_, v⟩ := a
      obtain ⟨_, w⟩ := b
      cases v <;> cases w <;> simp_all [same, Atom.Value.same, Atom.Value.kind]
    rw [structuralByParts_of_not_isPair rfl, structuralByParts_of_not_isPair rfl, leafText,
      leafText, hvalue]
  | nil | symbol | native | pair => simp [same] at h

theorem structuralByParts_of_same (he : e.Identifiable) (h : e.same f = true) :
    e.structuralByParts = f.structuralByParts := by
  induction he generalizing f with
  | word hword =>
    cases hword with
    | nil | symbol => cases f <;> simp_all [same]
    | int => exact structuralByParts_of_same_atom (by simp [Atom.Value.kind]) h
  | string => exact structuralByParts_of_same_atom (by simp [Atom.Value.kind]) h
  | pair _ _ ihcar ihcdr =>
    cases f with
    | pair car cdr =>
      rw [same, Bool.and_eq_true] at h
      rw [structuralByParts, structuralByParts, ihcar h.1, ihcdr h.2]
    | nil | symbol | atom | native => simp [same] at h

end Identifiable
end Expr

/-- The structural form is that of the recursion on both parts of a pair, and values made of empty
lists, integers that are not negative, strings and symbols are written alike exactly if they are the
same, where a symbol is scanned as one and is not `nil`. -/
theorem structural_identifies :
    (∀ e : Expr, e.structural = e.structuralByParts) ∧
      ∀ e f : Expr, e.Identifiable → f.Identifiable →
        (e.structural = f.structural ↔ e.same f = true) := by
  refine ⟨Expr.structural_eq_structuralByParts, fun e f he hf => ?_⟩
  rw [Expr.structural_eq_structuralByParts, Expr.structural_eq_structuralByParts]
  refine ⟨fun h => ?_, he.structuralByParts_of_same⟩
  have hend : Separated [] := by simp [Separated]
  exact (he.append_inj hf hend hend (by rw [h])).1

/-- An improper list of each sort of leaf, read from another text than the one that it is written
as. -/
theorem structural_identifies_of_improper :
    let e : Expr :=
      .pair (.pair .nil (.symbol "nil2")) (.pair (.atom ⟨"0x1", .int 1⟩) (.string ") "))
    let f : Expr := .pair (.pair .nil (.symbol "nil2")) (.pair (.int 1) (.string ") "))
    e.structural = "(cons (cons nil nil2) (cons 1 \") \"))" ∧
      e.structural = f.structural ∧ e.Identifiable ∧ f.Identifiable ∧ e.same f = true := by
  intro e f
  have hname : Token.IsSymbolName "nil2" :=
    ⟨⟨.symbol, "nil2", .start⟩, ⟨.endOfText, "", ⟨1, 5⟩⟩, by rfl, rfl, rfl⟩
  have hnames : (Expr.pair .nil (.symbol "nil2")).Identifiable :=
    .pair (.word .nil) (.word (.symbol hname (by decide)))
  have he : e.Identifiable := .pair hnames (.pair (.word (.int (by decide))) (.string _ _))
  have hf : f.Identifiable := .pair hnames (.pair (.word (.int (by decide))) (.string _ _))
  have htext : e.structural = f.structural := by decide +kernel
  exact ⟨by decide +kernel, htext, he, hf, (structural_identifies.2 e f he hf).1 htext⟩

end PairLisp
