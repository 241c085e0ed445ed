import Mathlib.Tactic.SplitIfs
import PairLisp.Proofs.Scanner.Run

/-! # How far a token reaches

No token runs on into a character that cannot stand in a symbol, however far it looks ahead: such a
character ends symbols, numbers and their exponents alike. So what is scanned before it does not
depend on it or on anything after it. The one exception is a string literal that is never closed.
-/

namespace PairLisp

/-- A text that starts with no character that a token before it could take in. -/
def Separated (ds : List Char) : Prop := ∀ c ∈ ds.head?, isSymbolChar c = false

theorem isSymbolChar_of_isDigit {c : Char} (h : c.isDigit = true) : isSymbolChar c = true := by
  rw [isSymbolChar, h, Bool.true_or]

theorem isSymbolChar_of_isAlpha {c : Char} (h : c.isAlpha = true) : isSymbolChar c = true := by
  have hcode : (0x41 ≤ c.toNat ∧ c.toNat ≤ 0x5A) ∨ (0x61 ≤ c.toNat ∧ c.toNat ≤ 0x7A) := by
    rcases Bool.or_eq_true_iff.1 h with hupper | hlower
    · obtain ⟨hlo, hhi⟩ := of_decide_eq_true hupper
      exact .inl ⟨UInt32.le_iff_toNat_le.1 hlo, UInt32.le_iff_toNat_le.1 hhi⟩
    · obtain ⟨hlo, hhi⟩ := Bool.and_eq_true_iff.1 hlower
      exact .inr ⟨UInt32.le_iff_toNat_le.1 (of_decide_eq_true hlo),
        UInt32.le_iff_toNat_le.1 (of_decide_eq_true hhi)⟩
  have halphabetic : Text.isAlphabetic c = true := by
    rw [Text.isAlphabetic_iff]
    rcases hcode with hcode | hcode
    · exact ⟨(0x41, 0x5A), .head _, hcode⟩
    · exact ⟨(0x61, 0x7A), .tail _ (.head _), hcode⟩
  rw [isSymbolChar, isSymbolStart, halphabetic, Bool.or_true, Bool.or_true]

theorem isSymbolChar_of_isRadixDigit {c : Char}
    (h : Token.NumberLiteral.isRadixDigit c = true) : isSymbolChar c = true := by
  simp only [Token.NumberLiteral.isRadixDigit, Char.isAlphanum, Bool.or_eq_true,
    decide_eq_true_eq] at h
  rcases h with (halpha | hdigit) | rfl
  · exact isSymbolChar_of_isAlpha halpha
  · exact isSymbolChar_of_isDigit hdigit
  · decide

namespace Separated

variable {d : Char} {ds : List Char} {p : Char → Bool}

theorem cons (hd : isSymbolChar d = false) (ds : List Char) : Separated (d :: ds) := by
  intro c hc
  cases hc
  exact hd

theorem of_newline (cs : List Char) : Separated ('\n' :: cs) := .cons (by decide +kernel) cs

theorem of_space (cs : List Char) : Separated (' ' :: cs) := .cons (by decide +kernel) cs

theorem eq_false (h : Separated (d :: ds)) (hp : ∀ c, p c = true → isSymbolChar c = true) :
    p d = false := by
  refine Bool.eq_false_iff.2 fun hd => ?_
  have hsymbol := hp d hd
  rw [h d rfl] at hsymbol
  cases hsymbol

theorem ne (h : Separated (d :: ds)) {c : Char} (hc : isSymbolChar c = true) : d ≠ c := by
  rintro rfl
  rw [h d rfl] at hc
  cases hc

theorem append_ne_cons {c : Char} {cs : List Char} (h : Separated ds)
    (hc : isSymbolChar c = true) (hcs : ∀ es, cs = c :: es → False) :
    ∀ es, cs ++ ds = c :: es → False := by
  rintro es heq
  cases cs with
  | nil =>
    rw [List.nil_append] at heq
    exact (heq ▸ h : Separated (c :: es)).ne hc rfl
  | cons d cs => exact hcs cs (congrArg (· :: cs) (List.cons.inj heq).1)

theorem takeWhile_append (h : Separated ds) (hp : ∀ c, p c = true → isSymbolChar c = true)
    (cs : List Char) : (cs ++ ds).takeWhile p = cs.takeWhile p := by
  induction cs with
  | nil =>
    cases ds with
    | nil => rfl
    | cons d ds => simp [h.eq_false hp]
  | cons c cs ih => simp only [List.cons_append, List.takeWhile_cons, ih]

theorem dropWhile_append (h : Separated ds) (hp : ∀ c, p c = true → isSymbolChar c = true)
    (cs : List Char) : (cs ++ ds).dropWhile p = cs.dropWhile p ++ ds := by
  induction cs with
  | nil =>
    cases ds with
    | nil => rfl
    | cons d ds => simp [h.eq_false hp]
  | cons c cs ih =>
    simp only [List.cons_append, List.dropWhile_cons, ih]
    split <;> rfl

end Separated

namespace Token

/-- The same piece in front of a longer text. -/
def Piece.extend (p : Piece) (ds : List Char) : Piece := { p with rest := p.rest ++ ds }

theorem StringLiteral.split?_append {cs body rest : List Char} (ds : List Char)
    (h : StringLiteral.split? cs = some (body, rest)) :
    StringLiteral.split? (cs ++ ds) = some (body, rest ++ ds) := by
  fun_induction StringLiteral.split? cs generalizing body rest with
  | case1 => cases h
  | case2 cs =>
    obtain ⟨rfl, rfl⟩ : [] = body ∧ cs = rest := by simpa using h
    rfl
  | case3 c cs ih =>
    obtain ⟨⟨inner, after⟩, hsplit, heq⟩ := Option.map_eq_some_iff.1 h
    obtain ⟨rfl, rfl⟩ := Prod.mk.inj heq
    rw [List.cons_append, List.cons_append, StringLiteral.split?, ih hsplit]
    rfl
  | case4 c cs hquote hescape ih =>
    obtain ⟨⟨inner, after⟩, hsplit, heq⟩ := Option.map_eq_some_iff.1 h
    obtain ⟨rfl, rfl⟩ := Prod.mk.inj heq
    have hne : ∀ e es, c = '\\' → cs ++ ds = e :: es → False := by
      rintro e es rfl hes
      cases cs with
      | nil => cases hsplit
      | cons c cs => exact hescape c cs rfl rfl
    rw [List.cons_append, StringLiteral.split?, ih hsplit]
    · rfl
    · exact hquote
    · exact hne

namespace NumberLiteral

variable {ds : List Char}

theorem mantissa_append (h : Separated ds) (cs : List Char) :
    mantissa (cs ++ ds) = { mantissa cs with rest := (mantissa cs).rest ++ ds } := by
  have hdigit : ∀ c : Char, c.isDigit = true → isSymbolChar c = true :=
    fun _ => isSymbolChar_of_isDigit
  simp only [mantissa, h.takeWhile_append hdigit, h.dropWhile_append hdigit]
  cases cs.dropWhile Char.isDigit with
  | nil =>
    cases ds with
    | nil => rfl
    | cons d ds =>
      have hpoint : d ≠ '.' := h.ne (by decide)
      simp [hpoint]
  | cons c fs =>
    by_cases hpoint : c = '.'
    · simp [hpoint, h.takeWhile_append hdigit, h.dropWhile_append hdigit]
    · simp [hpoint]

theorem exponent?_append (h : Separated ds) (cs : List Char) :
    exponent? (cs ++ ds) = (exponent? cs).map fun e => { e with rest := e.rest ++ ds } := by
  have hdigit : ∀ c : Char, c.isDigit = true → isSymbolChar c = true :=
    fun _ => isSymbolChar_of_isDigit
  fun_cases exponent? cs with
  | case1 mark hmark cs | case2 mark hmark cs =>
    simp [exponent?, hmark, h.takeWhile_append hdigit, h.dropWhile_append hdigit]
  | case3 mark hmark cs hplus hminus =>
    have hplus' := h.append_ne_cons (by decide) hplus
    have hminus' := h.append_ne_cons (by decide) hminus
    rw [List.cons_append, exponent?.eq_def]
    simp only [if_pos hmark, h.takeWhile_append hdigit, h.dropWhile_append hdigit]
    rfl
  | case4 mark cs hmark => simp [exponent?, hmark]
  | case5 =>
    cases ds with
    | nil => rfl
    | cons d ds =>
      have hlower : d ≠ 'e' := h.ne (by decide +kernel)
      have hupper : d ≠ 'E' := h.ne (by decide +kernel)
      simp [exponent?, hlower, hupper]

theorem radix?_eq_none {d : Char} (h : Separated (d :: ds)) : radix? d = none := by
  have hne : ∀ c : Char, c.isAlpha = true → d ≠ c :=
    fun c hc => h.ne (isSymbolChar_of_isAlpha hc)
  simp [radix?, hne 'x' rfl, hne 'X' rfl, hne 'o' rfl, hne 'O' rfl, hne 'b' rfl, hne 'B' rfl]

theorem plain_append (h : Separated ds) (cs : List Char) :
    plain (cs ++ ds) = (plain cs).extend ds := by
  simp only [plain, mantissa_append h, exponent?_append h]
  cases exponent? (mantissa cs).rest with
  | none =>
    simp only [Option.map_none, Mantissa.raw, decimal]
    split <;> rfl
  | some e => rfl

theorem scan_eq_plain {cs : List Char}
    (h : ∀ c es, cs = '0' :: c :: es → radix? c = none) : scan cs = plain cs := by
  unfold scan
  split
  · next c es => simp [h c es rfl]
  · rfl

theorem scan_append (h : Separated ds) (cs : List Char) :
    scan (cs ++ ds) = (scan cs).extend ds := by
  have hplain := plain_append h cs
  have hradix : ∀ c, isRadixDigit c = true → isSymbolChar c = true :=
    fun _ => isSymbolChar_of_isRadixDigit
  fun_cases scan cs with
  | case1 c cs hmark =>
    simp only [List.cons_append, scan, hmark, if_true, h.takeWhile_append hradix,
      h.dropWhile_append hradix]
    rfl
  | case2 c cs hmark => simpa [scan, hmark] using hplain
  | case3 cs hshort =>
    rw [← hplain]
    refine scan_eq_plain fun c es heq => ?_
    match cs, hshort, heq with
    | [], _, heq => exact absurd rfl ((heq ▸ h : Separated ('0' :: c :: es)).ne (by decide))
    | [_], _, heq =>
      obtain rfl : ds = c :: es := (List.cons.inj heq).2
      exact radix?_eq_none h
    | a :: b :: bs, hshort, heq =>
      exact absurd (congrArg (· :: b :: bs) (List.cons.inj heq).1) (hshort b bs)

end NumberLiteral
end Token

namespace Scanner

variable {depth : Nat} {c : Char} {cs ds : List Char}

theorem startsNumber_append (h : Separated ds) (c : Char) (cs : List Char) :
    startsNumber c (cs ++ ds) = startsNumber c cs := by
  cases cs with
  | nil =>
    cases ds with
    | nil => rfl
    | cons d ds => simp [startsNumber, h.eq_false fun _ => isSymbolChar_of_isDigit]
  | cons => rfl

theorem stringPiece_append (ds : List Char)
    (hclosed : (stringPiece cs).outcome ≠ .error .unterminatedString) :
    stringPiece (cs ++ ds) = (stringPiece cs).extend ds := by
  cases hsplit : Token.StringLiteral.split? cs with
  | none => simp [stringPiece, hsplit] at hclosed
  | some split =>
    obtain ⟨body, rest⟩ := split
    rw [stringPiece, stringPiece, Token.StringLiteral.split?_append ds hsplit, hsplit]
    rfl

/-- A piece stays what it is when something follows that it cannot take in. -/
theorem piece_append (h : Separated ds)
    (hclosed : (piece depth c cs).outcome ≠ .error .unterminatedString) :
    piece depth c (cs ++ ds) = (piece depth c cs).extend ds := by
  have hstring : c = '"' → (stringPiece cs).outcome ≠ .error .unterminatedString := by
    rintro rfl
    exact hclosed
  simp only [piece, startsNumber_append h]
  split_ifs with _ _ _ _ _ hquote
  · rfl
  · rfl
  · rfl
  · rfl
  · rfl
  · exact stringPiece_append ds (hstring hquote)
  · exact Token.NumberLiteral.scan_append h (c :: cs)
  · have hsymbol : ∀ c, isSymbolChar c = true → isSymbolChar c = true := fun _ => id
    rw [h.takeWhile_append hsymbol, h.dropWhile_append hsymbol]
    rfl
  · rfl

/-! ## Calls and runs -/

variable {s t : Scanner} {token : Token} {tokens : List Token}

def extend (s : Scanner) (ds : List Char) : Scanner := { s with rest := s.rest ++ ds }

theorem ofText_append (t u : String) : ofText (t ++ u) = (ofText t).extend u.toList := by
  simp [ofText, extend]

theorem next_extend_of_ok (h : Separated ds) (hnext : s.next = (.ok token, t))
    (hkind : token.kind ≠ .endOfText) : (s.extend ds).next = (.ok token, t.extend ds) := by
  obtain ⟨c, cs, hrest, hout, hraw, hposition, rfl⟩ := exists_piece_of_next hnext hkind
  have hpiece : piece s.depth c (cs ++ ds) = (piece s.depth c cs).extend ds :=
    piece_append h (by simp [hout])
  have hlong : (s.extend ds).rest = c :: (cs ++ ds) := congrArg (· ++ ds) hrest
  have hlongOut : (piece (s.extend ds).depth c (cs ++ ds)).outcome = .ok token.content :=
    (congrArg Token.Piece.outcome hpiece).trans hout
  obtain ⟨content, raw, position⟩ := token
  obtain rfl : raw = String.ofList (piece s.depth c cs).raw := hraw
  obtain rfl : position = s.position := hposition
  rw [next_of_ok hlong hlongOut, show (s.extend ds).depth = s.depth from rfl, hpiece]
  rfl

theorem next_extend_of_error {fault : ScanFault} (h : Separated ds)
    (hnext : s.next = (.error fault, t)) (hreason : fault.reason ≠ .unterminatedString) :
    ∃ u, (s.extend ds).next = (.error fault, u) := by
  obtain ⟨c, cs, hrest, hout, hposition⟩ := exists_piece_of_next_error hnext
  have hpiece : piece s.depth c (cs ++ ds) = (piece s.depth c cs).extend ds :=
    piece_append h (by simpa [hout] using hreason)
  have hlong : (s.extend ds).rest = c :: (cs ++ ds) := congrArg (· ++ ds) hrest
  have hlongOut : (piece (s.extend ds).depth c (cs ++ ds)).outcome = .error fault.reason :=
    (congrArg Token.Piece.outcome hpiece).trans hout
  obtain ⟨reason, position⟩ := fault
  obtain rfl : position = s.position := hposition
  exact ⟨_, next_of_error hlong hlongOut⟩

/-- The tokens of a text stay what they are when something follows that none of them can take
in. -/
theorem Steps.extend (h : Separated ds) (hsteps : Steps s tokens t) :
    Steps (s.extend ds) tokens (t.extend ds) := by
  induction hsteps with
  | refl s => exact .refl (s.extend ds)
  | head hnext hkind _ ih => exact .head (next_extend_of_ok h hnext hkind) hkind ih

end Scanner
end PairLisp
