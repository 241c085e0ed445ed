import Mathlib.Data.List.TakeWhile
import PairLisp.Proofs.Scanner.Extent

/-! # Cutting a piece again

The text of a token, taken by itself, is cut as the same token and nothing is left over, whatever
stood after it in the text that it came from. So the text of a token stands for the token.
-/

namespace PairLisp

theorem takeWhile_append_stop {p : Char → Bool} {cs ds : List Char} (h : ∀ c ∈ cs, p c = true)
    (hstop : ∀ d ∈ ds.head?, p d = false) : (cs ++ ds).takeWhile p = cs := by
  rw [List.takeWhile_append_of_pos h]
  cases ds with
  | nil => simp
  | cons d ds => simp [hstop d rfl]

theorem dropWhile_append_stop {p : Char → Bool} {cs ds : List Char} (h : ∀ c ∈ cs, p c = true)
    (hstop : ∀ d ∈ ds.head?, p d = false) : (cs ++ ds).dropWhile p = ds := by
  rw [List.dropWhile_append_of_pos h]
  cases ds with
  | nil => simp
  | cons d ds => simp [hstop d rfl]

theorem dropWhile_takeWhile_self (p : Char → Bool) (cs : List Char) :
    (cs.takeWhile p).dropWhile p = [] :=
  List.dropWhile_eq_nil_iff.2 fun _ => List.mem_takeWhile_imp

namespace Token

/-- The body of a literal ends at the same quote, whatever comes after it. -/
theorem StringLiteral.split?_again {cs body rest : List Char} (ds : List Char)
    (h : StringLiteral.split? cs = some (body, rest)) :
    StringLiteral.split? (body ++ '"' :: ds) = some (body, ds) := by
  fun_induction StringLiteral.split? cs generalizing body rest with
  | case1 => cases h
  | case2 cs =>
    obtain ⟨rfl, rfl⟩ : [] = body ∧ cs = rest := by simpa using h
    rfl
  | case3 c cs ih =>
    obtain ⟨⟨inner, after⟩, hsplit, heq⟩ := Option.map_eq_some_iff.1 h
    obtain ⟨rfl, rfl⟩ := Prod.mk.inj heq
    simp [StringLiteral.split?, ih hsplit]
  | case4 c cs hquote hescape ih =>
    obtain ⟨⟨inner, after⟩, hsplit, heq⟩ := Option.map_eq_some_iff.1 h
    obtain ⟨rfl, rfl⟩ := Prod.mk.inj heq
    have hbackslash : c ≠ '\\' := by
      rintro rfl
      cases cs with
      | nil => cases hsplit
      | cons c cs => exact hescape c cs rfl rfl
    rw [List.cons_append, StringLiteral.split?, ih hsplit]
    · rfl
    · exact hquote
    · exact fun _ _ hc _ => hbackslash hc

namespace NumberLiteral

theorem mantissa_of_point {ws fs ds : List Char} (hws : ∀ c ∈ ws, c.isDigit = true)
    (hfs : ∀ c ∈ fs, c.isDigit = true) (hds : ∀ d ∈ ds.head?, d.isDigit = false) :
    mantissa (ws ++ '.' :: (fs ++ ds)) = ⟨ws, true, fs, ds⟩ := by
  have hpoint : ∀ d ∈ ('.' :: (fs ++ ds)).head?, d.isDigit = false := by simp
  simp [mantissa, takeWhile_append_stop hws hpoint, dropWhile_append_stop hws hpoint,
    takeWhile_append_stop hfs hds, dropWhile_append_stop hfs hds]

theorem mantissa_of_digits {ws ds : List Char} (hws : ∀ c ∈ ws, c.isDigit = true)
    (hds : ∀ d ∈ ds.head?, d.isDigit = false ∧ d ≠ '.') :
    mantissa (ws ++ ds) = ⟨ws, false, [], ds⟩ := by
  have hstop : ∀ d ∈ ds.head?, d.isDigit = false := fun d hd => (hds d hd).1
  rw [mantissa, takeWhile_append_stop hws hstop, dropWhile_append_stop hws hstop]
  cases ds with
  | nil => rfl
  | cons d ds => simp [(hds d rfl).2]

/-- The parts of a mantissa are digits, and there is no fraction without a point. -/
theorem mantissa_parts (cs : List Char) :
    (∀ c ∈ (mantissa cs).whole, c.isDigit = true) ∧
      (∀ c ∈ (mantissa cs).fraction, c.isDigit = true) ∧
      ((mantissa cs).hasPoint = false → (mantissa cs).fraction = []) := by
  rw [mantissa]
  split
  · exact ⟨fun _ => List.mem_takeWhile_imp, fun _ => List.mem_takeWhile_imp, by simp⟩
  · exact ⟨fun _ => List.mem_takeWhile_imp, by simp, fun _ => rfl⟩

theorem mantissa_again (cs : List Char) {ds : List Char}
    (hds : ∀ d ∈ ds.head?, d.isDigit = false ∧ d ≠ '.') :
    mantissa ((mantissa cs).raw ++ ds) = { mantissa cs with rest := ds } := by
  obtain ⟨hwhole, hfraction, hpoint⟩ := mantissa_parts cs
  generalize mantissa cs = m at hwhole hfraction hpoint
  obtain ⟨whole, hasPoint, fraction, rest⟩ := m
  cases hasPoint with
  | true =>
    have hcut := mantissa_of_point hwhole hfraction fun d hd => (hds d hd).1
    simpa [Mantissa.raw] using hcut
  | false =>
    obtain rfl : fraction = [] := hpoint rfl
    simpa [Mantissa.raw] using mantissa_of_digits hwhole hds

theorem exponent?_again {cs : List Char} {e : Exponent} (h : exponent? cs = some e) :
    exponent? e.raw = some { e with rest := [] } := by
  fun_cases exponent? cs with
  | case1 mark hmark ds | case2 mark hmark ds =>
    obtain rfl : _ = e := by simpa [exponent?, hmark] using h
    simp [Exponent.raw, exponent?, hmark, List.takeWhile_idem, dropWhile_takeWhile_self]
  | case3 mark hmark ds hplus hminus =>
    obtain rfl : _ = e := by simpa [exponent?, hmark] using h
    have hsign (c : Char) (hc : c.isDigit = false) :
        ∀ es, ds.takeWhile Char.isDigit = c :: es → False := by
      intro es heq
      have hdigit : c.isDigit = true := List.mem_takeWhile_imp (heq ▸ List.mem_cons_self)
      rw [hc] at hdigit
      cases hdigit
    rw [Exponent.raw, List.singleton_append, exponent?.eq_def]
    simp only [if_pos hmark]
    split
    · next heq => exact (hsign '+' rfl _ heq).elim
    · next heq => exact (hsign '-' rfl _ heq).elim
    · simp only [List.takeWhile_idem, dropWhile_takeWhile_self]
  | case4 mark ds hmark => simp [exponent?, hmark] at h
  | case5 => cases h

theorem head?_exponent_raw {cs : List Char} {e : Exponent} (h : exponent? cs = some e) :
    ∀ d ∈ e.raw.head?, d.isDigit = false ∧ d ≠ '.' := by
  have hmark {mark : Char} (hmark : mark = 'e' ∨ mark = 'E') :
      mark.isDigit = false ∧ mark ≠ '.' := by
    rcases hmark with rfl | rfl <;> decide
  fun_cases exponent? cs with
  | case1 mark hm ds | case2 mark hm ds | case3 mark hm ds =>
    obtain rfl : _ = e := by simpa [exponent?, hm] using h
    simpa [Exponent.raw] using hmark hm
  | case4 mark ds hm => simp [exponent?, hm] at h
  | case5 => cases h

/-- A literal without a radix mark, in terms of its mantissa and exponent. -/
def ofParts (m : Mantissa) : Option Exponent → Piece
  | some e => ⟨m.raw ++ e.raw, e.rest,
      if e.digits = [] then .error (.malformedNumber (String.ofList (m.raw ++ e.raw)))
      else .ok (.float (decimal m e.value).toFloat)⟩
  | none =>
    if m.hasPoint then ⟨m.raw, m.rest, .ok (.float (decimal m 0).toFloat)⟩
    else integer m.raw m.rest

theorem plain_eq_ofParts (cs : List Char) :
    plain cs = ofParts (mantissa cs) (exponent? (mantissa cs).rest) := by
  rw [plain]
  cases exponent? (mantissa cs).rest <;> rfl

theorem plain_again (cs : List Char) :
    plain (plain cs).raw = ⟨(plain cs).raw, [], (plain cs).outcome⟩ := by
  rw [plain_eq_ofParts cs]
  cases hexponent : exponent? (mantissa cs).rest with
  | some e =>
    rw [plain_eq_ofParts, ofParts, mantissa_again cs (head?_exponent_raw hexponent),
      exponent?_again hexponent]
    rfl
  | none =>
    have hagain : mantissa (mantissa cs).raw = { mantissa cs with rest := [] } := by
      have hnil : ∀ d ∈ ([] : List Char).head?, d.isDigit = false ∧ d ≠ '.' := by simp
      simpa using mantissa_again cs hnil
    have hraw : (ofParts (mantissa cs) none).raw = (mantissa cs).raw := by
      rw [ofParts]
      split <;> rfl
    rw [hraw, plain_eq_ofParts, hagain]
    simp only [ofParts, exponent?]
    split <;> rfl

theorem eq_of_plain_raw {cs es : List Char} (h : (plain cs).raw = es) :
    cs = es ++ (plain cs).rest := by
  rw [← h, plain_raw_append_rest]

theorem scan_again (cs : List Char) :
    scan (scan cs).raw = ⟨(scan cs).raw, [], (scan cs).outcome⟩ := by
  have hplain (h : ∀ c es, cs = '0' :: c :: es → radix? c = none) :
      scan (plain cs).raw = ⟨(plain cs).raw, [], (plain cs).outcome⟩ := by
    rw [scan_eq_plain, plain_again]
    intro c es heq
    exact h c (es ++ (plain cs).rest) (eq_of_plain_raw heq)
  fun_cases scan cs with
  | case1 c cs hmark =>
    simp [scan, hmark, integer, List.takeWhile_idem, dropWhile_takeWhile_self]
  | case2 c cs hmark =>
    apply hplain
    rintro _ _ ⟨⟩
    simpa using hmark
  | case3 cs hshort => exact hplain fun c es heq => (hshort c es heq).elim

theorem scan_of_point {d : Char} (cs : List Char) (hd : d.isDigit = true) :
    ∃ es, (scan ('.' :: d :: cs)).raw = '.' :: d :: es := by
  have hmantissa : ∃ fs, (mantissa ('.' :: d :: cs)).raw = '.' :: d :: fs :=
    ⟨cs.takeWhile Char.isDigit, by simp [mantissa, Mantissa.raw, hd]⟩
  obtain ⟨fs, hfs⟩ := hmantissa
  have hscan : scan ('.' :: d :: cs) = plain ('.' :: d :: cs) := scan_eq_plain (by simp)
  rw [hscan, plain]
  split
  · next e _ => exact ⟨fs ++ e.raw, by simp [hfs]⟩
  · split
    · exact ⟨fs, hfs⟩
    · exact ⟨fs, hfs⟩

end NumberLiteral
end Token

namespace Scanner

variable {depth : Nat} {c : Char} {cs : List Char}

theorem startsNumber_again {ds : List Char} (h : startsNumber c cs = true)
    (hraw : (Token.NumberLiteral.scan (c :: cs)).raw = c :: ds) : startsNumber c ds = true := by
  cases hdigit : c.isDigit with
  | true => simp [startsNumber, hdigit]
  | false =>
    cases cs with
    | nil => simp [startsNumber, hdigit] at h
    | cons d cs =>
      obtain ⟨rfl, hd⟩ : c = '.' ∧ d.isDigit = true := by simpa [startsNumber, hdigit] using h
      obtain ⟨es, hes⟩ := Token.NumberLiteral.scan_of_point cs hd
      obtain rfl : d :: es = ds := (List.cons.inj (hes.symm.trans hraw)).2
      simp [startsNumber, hd]

theorem exists_piece_raw (h : (piece depth c cs).outcome ≠ .error .unmatchedClose) :
    ∃ ds, (piece depth c cs).raw = c :: ds := by
  have hcut := piece_raw_append_rest depth c cs
  cases hraw : (piece depth c cs).raw with
  | nil => exact absurd hraw (piece_raw_ne_nil h)
  | cons d ds =>
    rw [hraw, List.cons_append] at hcut
    exact ⟨ds, by rw [(List.cons.inj hcut).1]⟩

theorem stringPiece_again {ds : List Char} {content : Token.Content}
    (h : (stringPiece cs).outcome = .ok content) (hraw : (stringPiece cs).raw = '"' :: ds) :
    stringPiece ds = ⟨'"' :: ds, [], .ok content⟩ := by
  cases hsplit : Token.StringLiteral.split? cs with
  | none => simp [stringPiece, hsplit] at h
  | some split =>
    obtain ⟨body, rest⟩ := split
    obtain rfl : body ++ ['"'] = ds := by simpa [stringPiece, hsplit] using hraw
    have hagain := Token.StringLiteral.split?_again [] hsplit
    simp only [stringPiece, hsplit] at h
    simp only [stringPiece, hagain, h]

/-- The text of a token, alone, is cut as the same token. -/
theorem piece_again {content : Token.Content} (h : (piece depth c cs).outcome = .ok content) :
    ∃ ds, (piece depth c cs).raw = c :: ds ∧
      piece depth c ds = ⟨c :: ds, [], .ok content⟩ := by
  obtain ⟨ds, hraw⟩ := exists_piece_raw fun hout => nomatch h.symm.trans hout
  refine ⟨ds, hraw, ?_⟩
  revert h hraw
  fun_cases piece depth c cs with
  | case1 | case3 | case4 | case5 =>
    rintro ⟨⟩ ⟨⟩
    simp [piece, *]
  | case2 => simp
  | case6 hopen hclose hfeed hblank hquote =>
    intro h hraw
    simpa [piece, hquote] using stringPiece_again h (hquote ▸ hraw)
  | case7 hopen hclose hfeed hblank hquote hnumber =>
    intro h hraw
    have hscan := Token.NumberLiteral.scan_again (c :: cs)
    rw [hraw, h] at hscan
    simp [piece, hopen, hclose, hfeed, hblank, hquote, startsNumber_again hnumber hraw, hscan]
  | case8 hopen hclose hfeed hblank hquote hnumber hsymbol =>
    rintro ⟨⟩ ⟨⟩
    have hagain : startsNumber c (cs.takeWhile isSymbolChar) = false := by
      cases cs with
      | nil => simpa using hnumber
      | cons d cs =>
        by_cases hd : isSymbolChar d = true <;> simp_all [startsNumber]
    simp [piece, hopen, hclose, hfeed, hblank, hquote, hagain, hsymbol, List.takeWhile_idem,
      dropWhile_takeWhile_self]
  | case9 hopen hclose hfeed hblank hquote hnumber hsymbol =>
    rintro ⟨⟩ ⟨⟩
    have hagain : startsNumber c [] = false := by
      simp only [startsNumber, Bool.or_eq_true, not_or] at hnumber
      simp [startsNumber, hnumber.1]
    simp [piece, hopen, hclose, hfeed, hblank, hquote, hagain, hsymbol]

end Scanner
end PairLisp
