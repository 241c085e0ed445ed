import PairLisp.Proofs.Scanner.LongestNumber

/-! # The scanner and its grammar

Each call of the scanner takes what the lexical grammar says off the front of the text, and nothing
else comes off it: the longest number, the longest symbol, the string literal through its closing
quote, or one character.
-/

open Computability

namespace PairLisp

open Lexeme

namespace Lexeme

variable {cs text body rest part raw : List Char} {depth : Nat} {c : Char}
  {outcome : Except ScanReason Token.Content}

/-! ## String literals -/

open Token.StringLiteral (split? eq_of_split?)

theorem split?_of_mem (h : body ∈ stringBody) :
    split? (body ++ '"' :: rest) = some (body, rest) := by
  obtain ⟨parts, rfl, hparts⟩ := Language.mem_kstar.1 h
  clear h
  induction parts with
  | nil => rfl
  | cons part parts ih =>
    obtain ⟨hpart, hrest⟩ := List.forall_mem_cons.1 hparts
    have hsplit := ih hrest
    rw [List.flatten_cons, List.append_assoc]
    rcases hpart with ⟨c, hc, rfl⟩ | hpart
    · obtain ⟨hquote, hbackslash⟩ : c ≠ '"' ∧ c ≠ '\\' := by simpa using hc
      rw [List.singleton_append, split?, hsplit]
      · rfl
      · exact hquote
      · exact fun _ _ hc _ => hbackslash hc
    · obtain ⟨c, hc, _, ⟨d, _, rfl⟩, rfl⟩ := mem_one_mul.1 hpart
      obtain rfl : c = '\\' := of_decide_eq_true hc
      rw [List.cons_append, List.singleton_append, split?, hsplit]
      rfl

theorem append_mem_stringBody (hpart : part ∈ stringPart) (hbody : body ∈ stringBody) :
    part ++ body ∈ stringBody := by
  rw [stringBody, ← Language.one_add_self_mul_kstar_eq_kstar]
  exact .inr (Language.append_mem_mul hpart hbody)

theorem mem_of_split? (h : split? cs = some (body, rest)) : body ∈ stringBody := by
  fun_induction split? cs generalizing body rest with
  | case1 => cases h
  | case2 cs =>
    obtain ⟨rfl, rfl⟩ : [] = body ∧ cs = rest := by simpa using h
    exact Language.nil_mem_kstar _
  | case3 c cs ih =>
    obtain ⟨⟨inner, after⟩, hsplit, heq⟩ := Option.map_eq_some_iff.1 h
    obtain ⟨rfl, rfl⟩ := Prod.mk.inj heq
    have hpair : ['\\', c] ∈ stringPart := .inr (mem_one_mul.2 ⟨'\\', rfl, [c], ⟨c, rfl, rfl⟩, rfl⟩)
    exact append_mem_stringBody hpair (ih hsplit)
  | case4 c cs hquote hescape ih =>
    obtain ⟨⟨inner, after⟩, hsplit, heq⟩ := Option.map_eq_some_iff.1 h
    obtain ⟨rfl, rfl⟩ := Prod.mk.inj heq
    have hbackslash : c ≠ '\\' := by
      rintro rfl
      cases cs with
      | nil => cases hsplit
      | cons c cs => exact hescape c cs rfl rfl
    have hchar : [c] ∈ stringPart := .inl ⟨c, by simpa [hbackslash] using hquote, rfl⟩
    exact append_mem_stringBody hchar (ih hsplit)

theorem starts_stringLiteral_iff :
    Starts stringLiteral ('"' :: cs) ↔ (split? cs).isSome = true := by
  rw [Option.isSome_iff_exists]
  constructor
  · rintro ⟨_, hmem, ⟨rest, hrest⟩⟩
    rw [stringLiteral, mul_assoc] at hmem
    obtain ⟨c, _, _, hv, rfl⟩ := mem_one_mul.1 hmem
    obtain ⟨body, hbody, _, ⟨d, hd, rfl⟩, rfl⟩ := Language.mem_mul.1 hv
    obtain rfl : d = '"' := of_decide_eq_true hd
    have hcs : cs = body ++ '"' :: rest := by simpa using (List.cons.inj hrest).2.symm
    exact ⟨_, hcs ▸ split?_of_mem hbody⟩
  · rintro ⟨⟨body, rest⟩, hsplit⟩
    rw [eq_of_split? hsplit]
    refine ⟨'"' :: (body ++ ['"']), ?_, ⟨rest, by simp⟩⟩
    rw [stringLiteral, mul_assoc]
    exact mem_one_mul.2 ⟨'"', rfl, body ++ ['"'],
      Language.append_mem_mul (mem_of_split? hsplit) ⟨'"', rfl, rfl⟩, rfl⟩

/-! ## Pieces -/

theorem starts_word_cons : Starts word (c :: cs) ↔ isSymbolStart c = true := by
  rw [word, starts_one_mul_cons, and_iff_left starts_kstar]

theorem longest_word (h : isSymbolStart c = true) (cs : List Char) :
    Longest word (c :: cs) (c :: cs.takeWhile isSymbolChar) :=
  .cons h (.takeWhile isSymbolChar cs)

/-- The piece that the scanner cuts off is the one that the grammar tells. -/
theorem lexes_piece (depth : Nat) (c : Char) (cs : List Char) :
    Lexes depth (c :: cs) (Scanner.piece depth c cs).raw (Scanner.piece depth c cs).outcome := by
  fun_cases Scanner.piece depth c cs with
  | case1 hopen =>
    subst hopen
    exact .leftParen cs
  | case2 _ hclose hdepth =>
    subst hclose
    exact .unmatchedClose cs hdepth
  | case3 _ hclose hdepth =>
    subst hclose
    exact .rightParen cs (Nat.pos_of_ne_zero hdepth)
  | case4 _ _ hbreak => exact .newline cs hbreak
  | case5 _ _ _ hblank => exact .whitespace cs hblank
  | case6 _ _ _ _ hquote =>
    subst hquote
    rw [Scanner.stringPiece]
    cases hsplit : split? cs with
    | none => exact .unterminated (by simp [starts_stringLiteral_iff, hsplit])
    | some split =>
      rw [eq_of_split? hsplit]
      exact .string split.2 (mem_of_split? hsplit)
  | case7 _ _ _ _ _ hnumber =>
    have hstart := starts_numberStart_cons.2 hnumber
    exact .number hstart (lexesNumber_scan hstart)
  | case8 _ _ _ _ _ hnumber hsymbol =>
    exact .symbol (mt starts_numberStart_cons.1 hnumber) (longest_word hsymbol cs)
  | case9 hopen hclose hbreak hblank hquote hnumber hsymbol =>
    have hother : c ∉ delimiters := by simp_all [delimiters]
    exact .invalid cs hother (mt starts_numberStart_cons.1 hnumber) (mt starts_word_cons.1 hsymbol)

theorem piece_quote (depth : Nat) (cs : List Char) :
    Scanner.piece depth '"' cs = Scanner.stringPiece cs := by
  simp [Scanner.piece]

theorem piece_of_not_mem_delimiters (h : c ∉ delimiters) :
    Scanner.piece depth c cs =
      if Scanner.startsNumber c cs then Token.NumberLiteral.scan (c :: cs)
      else if isSymbolStart c then
        ⟨c :: cs.takeWhile isSymbolChar, cs.dropWhile isSymbolChar, .ok .symbol⟩
      else ⟨[c], cs, .ok .invalid⟩ := by
  simp only [delimiters, List.mem_cons, not_or] at h
  simp [Scanner.piece, h]

theorem not_mem_delimiters_of_startsNumber (h : Scanner.startsNumber c cs = true) :
    c ∉ delimiters := by
  have hnone : delimiters.all (fun d => !(d.isDigit || d = '.')) = true := by decide
  intro hmem
  have hc := List.all_eq_true.1 hnone c hmem
  simp_all [Scanner.startsNumber]

theorem not_mem_delimiters_of_isSymbolStart (h : isSymbolStart c = true) : c ∉ delimiters := by
  have hnone : delimiters.all (fun d => !isSymbolStart d) = true := by decide +kernel
  intro hmem
  have hc := List.all_eq_true.1 hnone c hmem
  rw [h] at hc
  cases hc

theorem Lexes.piece_eq (h : Lexes depth (c :: cs) raw outcome) :
    (Scanner.piece depth c cs).raw = raw ∧ (Scanner.piece depth c cs).outcome = outcome := by
  cases h with
  | leftParen => simp [Scanner.piece]
  | rightParen _ hdepth => simp [Scanner.piece, Nat.ne_of_gt hdepth]
  | unmatchedClose _ hdepth => simp [Scanner.piece, hdepth]
  | newline _ hbreak => rcases hbreak with rfl | rfl <;> simp [Scanner.piece]
  | whitespace _ hblank => rcases hblank with rfl | rfl <;> simp [Scanner.piece]
  | string rest hbody =>
    rw [piece_quote, Scanner.stringPiece, split?_of_mem hbody]
    exact ⟨rfl, rfl⟩
  | unterminated hnone =>
    have hsplit : split? cs = none := by simpa [starts_stringLiteral_iff] using hnone
    rw [piece_quote, Scanner.stringPiece, hsplit]
    exact ⟨rfl, rfl⟩
  | number hstart hnumber =>
    have hc := starts_numberStart_cons.1 hstart
    rw [piece_of_not_mem_delimiters (not_mem_delimiters_of_startsNumber hc), if_pos hc]
    exact hnumber.scan_eq hstart
  | symbol hnone hword =>
    have hc := starts_word_cons.1 hword.starts
    rw [piece_of_not_mem_delimiters (not_mem_delimiters_of_isSymbolStart hc),
      if_neg (mt starts_numberStart_cons.2 hnone), if_pos hc, hword.unique (longest_word hc cs)]
    exact ⟨rfl, rfl⟩
  | invalid _ hother hnumber hword =>
    rw [piece_of_not_mem_delimiters hother, if_neg (mt starts_numberStart_cons.2 hnumber),
      if_neg (mt starts_word_cons.2 hword)]
    exact ⟨rfl, rfl⟩

end Lexeme

/-! ## Calls -/

/-- What a call of the scanner at `p` reports about a piece. -/
def Scanner.report (p : Position) (raw : List Char) :
    Except ScanReason Token.Content → Except ScanFault Token
  | .ok content => .ok ⟨content, String.ofList raw, p⟩
  | .error reason => .error ⟨reason, p⟩

theorem Scanner.next_of_cons {s : Scanner} {c : Char} {cs : List Char} (h : s.rest = c :: cs) :
    s.next = (report s.position (piece s.depth c cs).raw (piece s.depth c cs).outcome,
      ⟨(piece s.depth c cs).rest, s.position.advance (piece s.depth c cs).raw,
        depthAfter s.depth (piece s.depth c cs).outcome⟩) := by
  rw [next, h]
  cases hout : (piece s.depth c cs).outcome <;> simp [report, hout]

/-- A call of the scanner takes off the text that is left what the grammar says, and gives what this
comes to. A number literal gives a floating-point number exactly if it has no radix mark and a point
or an exponent, and its text is that of such a number. -/
theorem next_eq_iff_lexes {s : Scanner} (h : s.rest ≠ []) :
    (∀ result t, s.next = (result, t) ↔ ∃ raw rest outcome,
      Lexes s.depth s.rest raw outcome ∧ s.rest = raw ++ rest ∧
        result = Scanner.report s.position raw outcome ∧
        t = ⟨rest, s.position.advance raw, Scanner.depthAfter s.depth outcome⟩) ∧
      ∀ raw content, LexesNumber s.rest raw (.ok content) →
        (content.kind = .float ↔
          ¬ Starts radixMark s.rest ∧ ('.' ∈ raw ∨ raw ∈ mantissa * exponent)) ∧
        (content.kind = .float → raw ∈ floatNumber) := by
  refine ⟨fun result t => ?_, fun raw content hnumber =>
    ⟨hnumber.kind_eq_float_iff, hnumber.mem_floatNumber⟩⟩
  obtain ⟨c, cs, hrest⟩ := List.exists_cons_of_ne_nil h
  have hcut := Scanner.piece_raw_append_rest s.depth c cs
  rw [Scanner.next_of_cons hrest, hrest]
  constructor
  · rintro ⟨⟩
    exact ⟨_, _, _, lexes_piece s.depth c cs, hcut.symm, rfl, rfl⟩
  · rintro ⟨raw, rest, outcome, hlexes, htext, rfl, rfl⟩
    obtain ⟨hraw, houtcome⟩ := hlexes.piece_eq
    rw [hraw, htext] at hcut
    rw [hraw, houtcome, List.append_cancel_left hcut]

/-- A literal with a point, no digits after it and an exponent, and a symbol behind it. -/
theorem next_eq_iff_lexes_of_power :
    (Scanner.ofText "1.e5x").rest ≠ [] ∧ ∃ outcome,
      Lexes 0 "1.e5x".toList "1.e5".toList outcome ∧
        (Scanner.ofText "1.e5x").next.1 = Scanner.report .start "1.e5".toList outcome := by
  have hne : (Scanner.ofText "1.e5x").rest ≠ [] := by decide +kernel
  obtain ⟨raw, rest, outcome, hlexes, htext, hresult, hafter⟩ :=
    ((next_eq_iff_lexes hne).1 _ _).1 rfl
  have hleft : (Scanner.ofText "1.e5x").next.2.rest = "x".toList := by decide +kernel
  have hrest : rest = "x".toList := (congrArg Scanner.rest hafter).symm.trans hleft
  have hraw : raw = "1.e5".toList := by
    rw [hrest] at htext
    exact List.append_cancel_right (htext.symm.trans (by decide +kernel))
  rw [hraw] at hlexes hresult
  exact ⟨hne, outcome, hlexes, hresult⟩

end PairLisp
