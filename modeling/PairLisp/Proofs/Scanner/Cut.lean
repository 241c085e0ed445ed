import PairLisp.Token.Scanner

/-! # Cutting loses nothing

What a piece takes and what it leaves make up the text that it was cut from. Every piece takes a
character except a closing parenthesis with nothing to close, so a scanner that gives a token moves
on until nothing is left. What a piece can be is written down once, as a relation with one rule for
each kind of piece.
-/

namespace PairLisp
namespace Token

theorem StringLiteral.eq_of_split? {cs body rest : List Char}
    (h : StringLiteral.split? cs = some (body, rest)) : cs = body ++ '"' :: rest := by
  fun_induction StringLiteral.split? cs generalizing body rest with
  | case1 => cases h
  | case2 cs =>
    obtain ⟨rfl, rfl⟩ : [] = body ∧ cs = rest := by simpa using h
    rfl
  | case3 c cs ih =>
    obtain ⟨⟨inner, after⟩, hsplit, heq⟩ := Option.map_eq_some_iff.1 h
    obtain ⟨rfl, rfl⟩ := Prod.mk.inj heq
    rw [ih hsplit]
    rfl
  | case4 c cs _ _ ih =>
    obtain ⟨⟨inner, after⟩, hsplit, heq⟩ := Option.map_eq_some_iff.1 h
    obtain ⟨rfl, rfl⟩ := Prod.mk.inj heq
    rw [ih hsplit]
    rfl

namespace NumberLiteral

theorem mantissa_raw_append_rest (cs : List Char) :
    (mantissa cs).raw ++ (mantissa cs).rest = cs := by
  have hcut : cs.takeWhile Char.isDigit ++ cs.dropWhile Char.isDigit = cs :=
    List.takeWhile_append_dropWhile
  simp only [mantissa]
  split
  · next fs hfs =>
    rw [hfs] at hcut
    simp only [Mantissa.raw, if_true, List.append_assoc, List.cons_append,
      List.takeWhile_append_dropWhile]
    exact hcut
  · simp [Mantissa.raw]

theorem exponent?_raw_append_rest {cs : List Char} {e : Exponent} (h : exponent? cs = some e) :
    e.raw ++ e.rest = cs := by
  fun_cases exponent? cs with
  | case1 mark hmark ds =>
    rw [exponent?, if_pos hmark] at h
    cases h
    simp [Exponent.raw]
  | case2 mark hmark ds =>
    rw [exponent?, if_pos hmark] at h
    cases h
    simp [Exponent.raw]
  | case3 mark hmark ds =>
    simp only [exponent?, if_pos hmark] at h
    cases h
    simp [Exponent.raw]
  | case4 mark cs hmark => simp [exponent?, hmark] at h
  | case5 => cases h

theorem plain_raw_append_rest (cs : List Char) : (plain cs).raw ++ (plain cs).rest = cs := by
  have hm := mantissa_raw_append_rest cs
  simp only [plain]
  split
  · next e he => rw [List.append_assoc, exponent?_raw_append_rest he, hm]
  · split <;> exact hm

theorem scan_raw_append_rest (cs : List Char) : (scan cs).raw ++ (scan cs).rest = cs := by
  unfold scan
  split
  · split
    · simp only [integer, List.cons_append, List.takeWhile_append_dropWhile]
    · exact plain_raw_append_rest _
  · exact plain_raw_append_rest _

theorem mantissa_raw_ne_nil {c : Char} {cs : List Char} (h : c.isDigit = true ∨ c = '.') :
    (mantissa (c :: cs)).raw ≠ [] := by
  by_cases hdigit : c.isDigit = true
  · have hwhole : (c :: cs).takeWhile Char.isDigit = c :: cs.takeWhile Char.isDigit := by
      simp [hdigit]
    simp only [mantissa, hwhole]
    split <;> simp [Mantissa.raw]
  · obtain rfl : c = '.' := h.resolve_left hdigit
    simp [mantissa, Mantissa.raw, hdigit]

theorem plain_raw_ne_nil {cs : List Char} (h : (mantissa cs).raw ≠ []) : (plain cs).raw ≠ [] := by
  simp only [plain]
  split
  · simp [h]
  · split <;> exact h

theorem scan_raw_ne_nil {c : Char} {cs : List Char} (h : c.isDigit = true ∨ c = '.') :
    (scan (c :: cs)).raw ≠ [] := by
  unfold scan
  split
  · next heq =>
    split
    · simp [integer]
    · exact plain_raw_ne_nil (heq ▸ mantissa_raw_ne_nil h)
  · exact plain_raw_ne_nil (mantissa_raw_ne_nil h)

theorem integer?_nonneg {raw : List Char} {n : Int64} (h : integer? raw = some n) :
    0 ≤ n.toInt := by
  rw [integer?_eq_filter] at h
  obtain ⟨k, hk, rfl⟩ := Option.map_eq_some_iff.1 h
  have hle : k ≤ largestInteger := of_decide_eq_true (Option.filter_eq_some_iff.1 hk).2
  rw [Int64.toInt_ofNat_of_lt (Nat.lt_of_le_of_lt hle (by decide))]
  exact Int.natCast_nonneg k

/-- What becomes of a number literal: an integer that is not negative, a floating-point number, or a
refusal with its whole text. -/
theorem scan_outcome (cs : List Char) :
    (∃ n : Int64, 0 ≤ n.toInt ∧ (scan cs).outcome = .ok (.int n)) ∨
      (∃ x, (scan cs).outcome = .ok (.float x)) ∨
      (scan cs).outcome = .error (.malformedNumber (String.ofList (scan cs).raw)) := by
  have hinteger (raw rest : List Char) :
      (∃ n : Int64, 0 ≤ n.toInt ∧ (integer raw rest).outcome = .ok (.int n)) ∨
        (integer raw rest).outcome = .error (.malformedNumber (String.ofList raw)) := by
    unfold integer
    cases h : integer? raw with
    | some n => exact .inl ⟨n, integer?_nonneg h, rfl⟩
    | none => exact .inr rfl
  have hplain (cs : List Char) :
      (∃ n : Int64, 0 ≤ n.toInt ∧ (plain cs).outcome = .ok (.int n)) ∨
        (∃ x, (plain cs).outcome = .ok (.float x)) ∨
        (plain cs).outcome = .error (.malformedNumber (String.ofList (plain cs).raw)) := by
    simp only [plain]
    split
    · next e _ =>
      by_cases hdigits : e.digits = []
      · exact .inr (.inr (if_pos hdigits))
      · exact .inr (.inl ⟨_, if_neg hdigits⟩)
    · split
      · exact .inr (.inl ⟨_, rfl⟩)
      · exact (hinteger _ _).imp_right .inr
  unfold scan
  split
  · split
    · exact (hinteger _ _).imp_right .inr
    · exact hplain _
  · exact hplain _

end NumberLiteral
end Token

namespace Scanner

theorem stringPiece_raw_append_rest (cs : List Char) :
    (stringPiece cs).raw ++ (stringPiece cs).rest = '"' :: cs := by
  unfold stringPiece
  split
  · simp
  · next body rest hsplit => simp [Token.StringLiteral.eq_of_split? hsplit]

theorem piece_raw_append_rest (depth : Nat) (c : Char) (cs : List Char) :
    (piece depth c cs).raw ++ (piece depth c cs).rest = c :: cs := by
  fun_cases piece depth c cs with
  | case1 | case2 | case3 | case4 | case5 => rfl
  | case6 _ _ _ _ hquote => rw [stringPiece_raw_append_rest, hquote]
  | case7 => exact Token.NumberLiteral.scan_raw_append_rest _
  | case8 => simp
  | case9 => rfl

theorem piece_raw_ne_nil {depth : Nat} {c : Char} {cs : List Char}
    (h : (piece depth c cs).outcome ≠ .error .unmatchedClose) : (piece depth c cs).raw ≠ [] := by
  fun_cases piece depth c cs with
  | case1 | case3 | case4 | case5 | case8 | case9 => exact List.cons_ne_nil _ _
  | case2 hopen hclose hdepth => simp [piece, hclose, hdepth] at h
  | case6 => unfold stringPiece; split <;> exact List.cons_ne_nil _ _
  | case7 _ _ _ _ _ hnumber =>
    have hstart : c.isDigit = true ∨ c = '.' := by
      simp only [startsNumber, Bool.or_eq_true, Bool.and_eq_true, decide_eq_true_eq] at hnumber
      exact hnumber.imp_right And.left
    exact Token.NumberLiteral.scan_raw_ne_nil hstart

theorem piece_rest_length_lt {depth : Nat} {c : Char} {cs : List Char}
    (h : (piece depth c cs).outcome ≠ .error .unmatchedClose) :
    (piece depth c cs).rest.length < (c :: cs).length := by
  have hlength := congrArg List.length (piece_raw_append_rest depth c cs)
  have hpos := List.length_pos_iff.2 (piece_raw_ne_nil h)
  rw [List.length_append] at hlength
  omega

theorem stringPiece_outcome (cs : List Char) :
    (∃ s, (stringPiece cs).outcome = .ok (.string s)) ∨
      (∃ escape, (stringPiece cs).outcome = .error (.invalidEscape escape)) ∨
      (stringPiece cs).outcome = .error .unterminatedString := by
  unfold stringPiece
  split
  · exact .inr (.inr rfl)
  · next body _ _ =>
    cases h : Token.StringLiteral.decode body with
    | ok s => exact .inl ⟨_, rfl⟩
    | error escape => exact .inr (.inl ⟨escape, rfl⟩)

/-- What the piece at the front of a text can be, and what it takes to be that. -/
inductive Cuts (depth : Nat) (c : Char) (cs : List Char) : Token.Piece → Prop where
  | leftParen : c = '(' → Cuts depth c cs ⟨[c], cs, .ok .leftParen⟩
  | unmatchedClose : c = ')' → depth = 0 → Cuts depth c cs ⟨[], c :: cs, .error .unmatchedClose⟩
  | rightParen : c = ')' → 0 < depth → Cuts depth c cs ⟨[c], cs, .ok .rightParen⟩
  | newline : c = '\n' ∨ c = '\r' → Cuts depth c cs ⟨[c], cs, .ok .newline⟩
  | whitespace : c = ' ' ∨ c = '\t' → Cuts depth c cs ⟨[c], cs, .ok .whitespace⟩
  | unterminated : c = '"' → Token.StringLiteral.split? cs = none →
      Cuts depth c cs ⟨'"' :: cs, [], .error .unterminatedString⟩
  | invalidEscape (raw rest : List Char) (escape : String) : c = '"' →
      Cuts depth c cs ⟨raw, rest, .error (.invalidEscape escape)⟩
  | string (raw rest : List Char) (s : String) : c = '"' →
      Cuts depth c cs ⟨raw, rest, .ok (.string s)⟩
  | int (raw rest : List Char) {n : Int64} : 0 ≤ n.toInt → Cuts depth c cs ⟨raw, rest, .ok (.int n)⟩
  | float (raw rest : List Char) (x : Float) : Cuts depth c cs ⟨raw, rest, .ok (.float x)⟩
  | malformed (raw rest : List Char) :
      Cuts depth c cs ⟨raw, rest, .error (.malformedNumber (String.ofList raw))⟩
  | symbol (raw rest : List Char) : isSymbolStart c = true →
      Cuts depth c cs ⟨raw, rest, .ok .symbol⟩
  | invalid : c ≠ ')' → Cuts depth c cs ⟨[c], cs, .ok .invalid⟩

theorem cuts_piece (depth : Nat) (c : Char) (cs : List Char) :
    Cuts depth c cs (piece depth c cs) := by
  fun_cases piece depth c cs with
  | case1 hopen => exact .leftParen hopen
  | case2 _ hclose hdepth => exact .unmatchedClose hclose hdepth
  | case3 _ hclose hdepth => exact .rightParen hclose (Nat.pos_of_ne_zero hdepth)
  | case4 _ _ hbreak => exact .newline hbreak
  | case5 _ _ _ hblank => exact .whitespace hblank
  | case6 _ _ _ _ hquote =>
    rw [stringPiece]
    cases hsplit : Token.StringLiteral.split? cs with
    | none => exact .unterminated hquote hsplit
    | some split =>
      cases hdecode : Token.StringLiteral.decode split.1 with
      | ok s => simpa only [hdecode] using .string _ _ _ hquote
      | error escape => simpa only [hdecode] using .invalidEscape _ _ _ hquote
  | case7 =>
    have hscan := Token.NumberLiteral.scan_outcome (c :: cs)
    generalize Token.NumberLiteral.scan (c :: cs) = p at hscan
    obtain ⟨raw, rest, outcome⟩ := p
    rcases hscan with ⟨n, hn, hout⟩ | ⟨x, hout⟩ | hout <;> simp only at hout <;> rw [hout]
    · exact .int raw rest hn
    · exact .float raw rest x
    · exact .malformed raw rest
  | case8 _ _ _ _ _ _ hsymbol => exact .symbol _ _ hsymbol
  | case9 _ hclose => exact .invalid hclose

theorem piece_outcome_ne_endOfText (depth : Nat) (c : Char) (cs : List Char) :
    (piece depth c cs).outcome ≠ .ok .endOfText := by
  have hcut := cuts_piece depth c cs
  generalize piece depth c cs = p at hcut
  cases hcut <;> nofun

end Scanner
end PairLisp
