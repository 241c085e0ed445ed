import PairLisp.Proofs.Reader.Grammar
import PairLisp.Proofs.Scanner.Again

/-! # What a text spells

A text spells tokens if the scanner takes it apart into them and nothing is left. Blanks and places
are left out, so a text spells the same tokens wherever it stands. Texts that meet at a character
that no token can take in spell together what they spell one after the other, and a text is split
at a line end that stands in no string literal.
-/

namespace PairLisp

open Token (significant)
open Scanner (piece stringPiece depthAfter)

namespace Token

/-- The same token, as if it stood at the start of a text. -/
def unplaced (t : Token) : Token := { t with position := .start }

/-- A token that its text, alone, is cut as, whatever is open around it. -/
def IsLexeme (t : Token) : Prop :=
  ∃ c cs, t.raw.toList = c :: cs ∧ ∀ depth, piece depth c cs = ⟨c :: cs, [], .ok t.content⟩

@[simp] theorem kind_unplaced (t : Token) : t.unplaced.kind = t.kind := rfl

@[simp] theorem leaf?_unplaced (t : Token) : t.unplaced.leaf? = t.leaf? := rfl

theorem opens_map_unplaced (ts : List Token) : opens (ts.map unplaced) = opens ts :=
  List.countP_map

theorem closes_map_unplaced (ts : List Token) : closes (ts.map unplaced) = closes ts :=
  List.countP_map

theorem significant_cons_unplaced (t : Token) (ts : List Token) :
    (significant (t :: ts)).map unplaced =
      significant [t.unplaced] ++ (significant ts).map unplaced := by
  have hone : (significant [t]).map unplaced = significant [t.unplaced] := by
    rw [significant, significant, ← List.map_singleton, List.filter_map]
    rfl
  rw [← List.singleton_append, significant_append, List.map_append, hone]

theorem significant_of_leaf? {t : Token} {e : Expr} (h : t.leaf? = some e) :
    significant [t.unplaced] = [t.unplaced] := by
  rcases kind_of_leaf? h with hk | hk | hk | hk <;> simp [significant, isBlank, hk]

end Token

/-- The characters, scanned with `m` parentheses open, are the tokens and blanks, and leave `n`
open. -/
inductive Spells : (m : Nat) → List Char → List Token → (n : Nat) → Prop where
  | nil (n : Nat) : Spells n [] [] n
  | cons {m n : Nat} {c : Char} {cs : List Char} {content : Token.Content} {ts : List Token} :
      (piece m c cs).outcome = .ok content →
        Spells (depthAfter m (.ok content)) (piece m c cs).rest ts n →
        Spells m (c :: cs)
          (significant [⟨content, String.ofList (piece m c cs).raw, .start⟩] ++ ts) n

namespace Scanner

theorem piece_depth {c : Char} (h : c ≠ ')') (m n : Nat) (cs : List Char) :
    piece m c cs = piece n c cs := by
  simp only [piece, if_neg h]

theorem depthAfter_of_leaf? {t : Token} {e : Expr} (h : t.leaf? = some e) (m : Nat) :
    depthAfter m (.ok t.content) = m := by
  revert h
  rw [Token.leaf?]
  cases t.content <;> simp [depthAfter]

theorem eq_quote_of_unterminated {depth : Nat} {c : Char} {cs : List Char}
    (h : (piece depth c cs).outcome = .error .unterminatedString) :
    c = '"' ∧ Token.StringLiteral.split? cs = none := by
  have hcut := cuts_piece depth c cs
  generalize piece depth c cs = p at h hcut
  cases hcut with
  | unterminated hquote hsplit => exact ⟨hquote, hsplit⟩
  | _ => cases h

/-- The characters that the scanner skips. -/
def spacing : List Char := [' ', '\t', '\n', '\r']

theorem mem_spacing_iff {c : Char} : c ∈ spacing ↔ c = ' ' ∨ c = '\t' ∨ c = '\n' ∨ c = '\r' := by
  simp [spacing]

theorem piece_of_mem_spacing {c : Char} (h : c ∈ spacing) (depth : Nat) (cs : List Char) :
    piece depth c cs = ⟨[c], cs, .ok .whitespace⟩ ∨ piece depth c cs = ⟨[c], cs, .ok .newline⟩ := by
  rcases mem_spacing_iff.1 h with rfl | rfl | rfl | rfl <;> simp [piece]

theorem mem_spacing_of_piece {depth : Nat} {c : Char} {cs : List Char} {content : Token.Content}
    (h : (piece depth c cs).outcome = .ok content)
    (hblank : content = .whitespace ∨ content = .newline) :
    c ∈ spacing ∧ (piece depth c cs).rest = cs := by
  have hcut := cuts_piece depth c cs
  generalize piece depth c cs = p at h hcut
  cases hcut with
  | newline hc => exact ⟨mem_spacing_iff.2 (.inr (.inr hc)), rfl⟩
  | whitespace hc => exact ⟨mem_spacing_iff.2 (hc.imp_right .inl), rfl⟩
  | _ => rcases hblank with rfl | rfl <;> cases h

end Scanner

/-- A literal that is closed only by what follows goes on over all that was there before. -/
theorem Token.StringLiteral.split?_append_of_none {cs ds body rest : List Char}
    (h : split? cs = none) (hlong : split? (cs ++ ds) = some (body, rest)) :
    ∃ inner, body = cs ++ inner ∧ ds = inner ++ '"' :: rest := by
  rcases List.append_eq_append_iff.1 (eq_of_split? hlong) with
    ⟨inner, hbody, hds⟩ | ⟨mid, hcs, hmid⟩
  · exact ⟨inner, hbody, hds⟩
  · rcases List.cons_eq_append_iff.1 hmid with ⟨rfl, hds⟩ | ⟨mid, rfl, -⟩
    · exact ⟨[], by simpa using hcs.symm, hds⟩
    · rw [hcs, split?_again mid hlong] at h
      cases h

theorem Scanner.raw_of_unterminated {depth : Nat} {c : Char} {cs ds : List Char}
    {content : Token.Content} (h : (piece depth c cs).outcome = .error .unterminatedString)
    (hlong : (piece depth c (cs ++ ds)).outcome = .ok content) :
    ∃ inner rest, ds = inner ++ '"' :: rest ∧ content.kind = .string ∧
      (piece depth c (cs ++ ds)).raw = '"' :: (cs ++ inner ++ ['"']) := by
  obtain ⟨rfl, hnone⟩ := eq_quote_of_unterminated h
  rw [show piece depth '"' (cs ++ ds) = stringPiece (cs ++ ds) by simp [piece]] at hlong ⊢
  cases hsplit : Token.StringLiteral.split? (cs ++ ds) with
  | none => simp [stringPiece, hsplit] at hlong
  | some split =>
    obtain ⟨body, rest⟩ := split
    obtain ⟨inner, rfl, rfl⟩ := Token.StringLiteral.split?_append_of_none hnone hsplit
    simp only [stringPiece, hsplit] at hlong ⊢
    refine ⟨inner, rest, rfl, ?_, rfl⟩
    split at hlong
    · cases hlong
      rfl
    · cases hlong

/-- Where a literal is not closed before a character, it takes in that character and a quote after
it. -/
theorem Scanner.mem_raw_of_unterminated {depth : Nat} {b c : Char} {cs ds : List Char}
    {content : Token.Content} (hb : b ≠ '"')
    (h : (piece depth c cs).outcome = .error .unterminatedString)
    (hlong : (piece depth c (cs ++ b :: ds)).outcome = .ok content) :
    content.kind = .string ∧ '"' ∈ ds ∧ b ∈ (piece depth c (cs ++ b :: ds)).raw := by
  obtain ⟨inner, rest, hds, hkind, hraw⟩ := raw_of_unterminated h hlong
  rw [hraw]
  cases inner with
  | nil => exact absurd (List.cons.inj hds).1 hb
  | cons a inner =>
    rw [List.cons_append] at hds
    obtain ⟨rfl, rfl⟩ := List.cons.inj hds
    exact ⟨hkind, by simp, by simp⟩

namespace Spells

variable {l m n : Nat} {c : Char} {cs ds : List Char} {ts us : List Token}

/-! ## Spelling and scanning -/

/-- What the scanner takes from a text to its end is what the text spells. -/
theorem of_steps {s t : Scanner} (h : s.Steps ts t) (hrest : t.rest = []) :
    Spells s.depth s.rest ((significant ts).map .unplaced) t.depth := by
  induction h with
  | refl s =>
    rw [hrest]
    exact .nil s.depth
  | @head s t u token tokens hnext hkind _ ih =>
    obtain ⟨c, cs, hcs, hout, hraw, -, rfl⟩ := Scanner.exists_piece_of_next hnext hkind
    rw [hcs, Token.significant_cons_unplaced, Token.unplaced, hraw]
    exact .cons hout (ih hrest)

/-- The scanner takes a text apart into what it spells, from every place on. -/
theorem exists_steps (h : Spells m cs ts n) (p : Position) :
    ∃ us s, Scanner.Steps ⟨cs, p, m⟩ us s ∧ s.rest = [] ∧ s.depth = n ∧
      (significant us).map .unplaced = ts := by
  induction h generalizing p with
  | nil n => exact ⟨[], ⟨[], p, n⟩, .refl _, rfl, rfl, rfl⟩
  | @cons m n c cs content ts hout _ ih =>
    obtain ⟨us, s, hsteps, hrest, hdepth, rfl⟩ := ih (p.advance (piece m c cs).raw)
    have hnext := Scanner.next_of_ok (s := ⟨c :: cs, p, m⟩) rfl hout
    have hkind : content.kind ≠ .endOfText := by
      intro hkind
      rw [Token.Content.kind_eq_endOfText.1 hkind] at hout
      exact Scanner.piece_outcome_ne_endOfText m c cs hout
    exact ⟨_, s, .head hnext hkind hsteps, hrest, hdepth, Token.significant_cons_unplaced _ _⟩

theorem depth_add_closes (h : Spells m cs ts n) :
    n + Token.closes ts = m + Token.opens ts := by
  obtain ⟨us, s, hsteps, -, rfl, rfl⟩ := h.exists_steps .start
  rw [Token.closes_map_unplaced, Token.opens_map_unplaced, Token.closes_significant,
    Token.opens_significant]
  exact hsteps.depth_add_closes

/-- The text of a leaf is a lexeme wherever it was cut from. -/
theorem isLexeme (h : Spells m cs ts n) {t : Token} {e : Expr} (ht : t ∈ ts)
    (hleaf : t.leaf? = some e) : t.IsLexeme := by
  induction h with
  | nil => cases ht
  | @cons m n c cs content ts hout _ ih =>
    rcases List.mem_append.1 ht with ht | ht
    · obtain rfl := List.mem_singleton.1 (List.mem_filter.1 ht).1
      obtain ⟨ds, hraw, hagain⟩ := Scanner.piece_again hout
      have hc : c ≠ ')' := by
        rintro rfl
        by_cases hm : m = 0
        · simp [piece, hm] at hout
        · obtain rfl : Token.Content.rightParen = content := by simpa [piece, hm] using hout
          simp [Token.leaf?] at hleaf
      refine ⟨c, ds, by simp [hraw], fun depth => ?_⟩
      rw [Scanner.piece_depth hc depth m, hagain]
    · exact ih ht

/-! ## Building texts -/

theorem of_piece {raw rest : List Char} {content : Token.Content}
    (hpiece : piece m c cs = ⟨raw, rest, .ok content⟩)
    (hrest : Spells (depthAfter m (.ok content)) rest ts n) :
    Spells m (c :: cs) (significant [⟨content, String.ofList raw, .start⟩] ++ ts) n := by
  have hout : (piece m c cs).outcome = .ok content := by rw [hpiece]
  have hall : Spells m (c :: cs) _ n := .cons hout (by rw [hpiece]; exact hrest)
  rwa [hpiece] at hall

theorem append (h : Spells l cs ts m) (hds : Separated ds) (h' : Spells m ds us n) :
    Spells l (cs ++ ds) (ts ++ us) n := by
  induction h with
  | nil => exact h'
  | @cons l m c cs content ts hout _ ih =>
    have hclosed : (piece l c cs).outcome ≠ .error .unterminatedString := by simp [hout]
    have hpiece := Scanner.piece_append hds hclosed
    rw [Token.Piece.extend, hout] at hpiece
    rw [List.append_assoc]
    exact of_piece hpiece (ih h')

theorem blank {b : Char} (hb : b ∈ Scanner.spacing) (h : Spells m cs ts n) :
    Spells m (b :: cs) ts n := by
  rcases Scanner.piece_of_mem_spacing hb m cs with hpiece | hpiece <;> exact of_piece hpiece h

theorem lexeme {t : Token} {e : Expr} (h : t.IsLexeme) (hleaf : t.leaf? = some e) (m : Nat) :
    Spells m t.raw.toList [t.unplaced] m := by
  obtain ⟨c, cs, hraw, hpiece⟩ := h
  have hrest : Spells (depthAfter m (.ok t.content)) [] [] m := by
    rw [Scanner.depthAfter_of_leaf? hleaf]
    exact .nil m
  have hspells := of_piece (hpiece m) hrest
  rw [← hraw, String.ofList_toList, List.append_nil] at hspells
  rw [← Token.significant_of_leaf? hleaf]
  exact hspells

theorem parenthesized (h : Spells (m + 1) cs ts (m + 1)) :
    Spells m ('(' :: (cs ++ [')']))
      (⟨.leftParen, "(", .start⟩ :: (ts ++ [⟨.rightParen, ")", .start⟩])) m := by
  have hopen : piece m '(' (cs ++ [')']) = ⟨['('], cs ++ [')'], .ok .leftParen⟩ := by simp [piece]
  have hclose : piece (m + 1) ')' [] = ⟨[')'], [], .ok .rightParen⟩ := by simp [piece]
  have hend : Spells (m + 1) [')'] [⟨.rightParen, ")", .start⟩] m := of_piece hclose (.nil m)
  have hseparated : Separated [')'] := .cons (by decide +kernel) []
  exact of_piece hopen (h.append hseparated hend)

theorem exists_split {b : Char} (hb : b = '\n' ∨ b = '\r') (h : Spells m (cs ++ b :: ds) ts n)
    (hstring : '"' ∈ ds → ∀ t ∈ ts, t.kind = .string → b ∉ t.raw.toList) :
    ∃ us vs k, ts = us ++ vs ∧ Spells m cs us k ∧ Spells k ds vs n := by
  have hseparated : Separated (b :: ds) := .cons (by rcases hb with rfl | rfl <;> decide +kernel) ds
  generalize hes : cs ++ b :: ds = es at h
  induction h generalizing cs with
  | nil => simp at hes
  | @cons m n c es content ts hout hrest ih =>
    cases cs with
    | nil =>
      obtain ⟨rfl, rfl⟩ := List.cons.inj hes
      have hpiece : piece m b ds = ⟨[b], ds, .ok .newline⟩ := by
        rcases hb with rfl | rfl <;> simp [piece]
      rw [hpiece] at hout hrest
      cases hout
      exact ⟨[], ts, m, by simp [hpiece, Token.significant, Token.isBlank, Token.kind,
        Token.Content.kind], .nil m, hrest⟩
    | cons d cs =>
      rw [List.cons_append] at hes
      obtain ⟨rfl, rfl⟩ := List.cons.inj hes
      by_cases hclosed : (piece m d cs).outcome = .error .unterminatedString
      · -- The literal that starts here would run over the line end.
        have hne : b ≠ '"' := by rcases hb with rfl | rfl <;> decide
        obtain ⟨hkind, hquote, hmem⟩ := Scanner.mem_raw_of_unterminated hne hclosed hout
        have hfree := hstring hquote
          ⟨content, String.ofList (piece m d (cs ++ b :: ds)).raw, .start⟩
          (List.mem_append_left _ (by simp [significant, Token.isBlank, Token.kind, hkind])) hkind
        rw [String.toList_ofList] at hfree
        exact absurd hmem hfree
      · have hpiece := Scanner.piece_append hseparated hclosed
        have hrest : (piece m d cs).rest ++ b :: ds = (piece m d (cs ++ b :: ds)).rest :=
          (congrArg Token.Piece.rest hpiece).symm
        obtain ⟨us, vs, k, rfl, hus, hvs⟩ :=
          ih (fun hquote t ht => hstring hquote t (List.mem_append_right _ ht)) hrest
        rw [hpiece] at hout
        refine ⟨_, vs, k, (List.append_assoc ..).symm, ?_, hvs⟩
        rw [hpiece]
        exact .cons hout hus

end Spells
end PairLisp
