import PairLisp.Expr.Basic
import PairLisp.Proofs.Scanner.Spelling

/-! # Literals for values

The decimal text of an integer that is not negative is a literal for it: no digit but a lone zero
starts with a zero, so the base is ten. Quoted text is a literal for what was quoted, unless it has
an escape that literals know under another meaning or not at all.
-/

namespace PairLisp

open Scanner (piece stringPiece)

namespace Text.Numeral

theorem isDigit_bounds {c : Char} (h : c.isDigit = true) : 48 ≤ c.toNat ∧ c.toNat ≤ 57 := by
  obtain ⟨hlo, hhi⟩ : 48 ≤ c.val ∧ c.val ≤ 57 := by simpa [Char.isDigit] using h
  exact ⟨UInt32.le_iff_toNat_le.1 hlo, UInt32.le_iff_toNat_le.1 hhi⟩

theorem ne_of_isDigit {c d : Char} (hc : c.isDigit = true) (hd : d.isDigit = false) : c ≠ d := by
  rintro rfl
  rw [hc] at hd
  cases hd

theorem digitValue_of_isDigit {c : Char} (h : c.isDigit = true) :
    digitValue c = some (c.toNat - 48) := by
  obtain ⟨hlo, hhi⟩ : 48 ≤ c.val ∧ c.val ≤ 57 := by simpa [Char.isDigit] using h
  exact if_pos ⟨hlo, hhi⟩

theorem isDigitIn_ten {c : Char} (h : c.isDigit = true) : isDigitIn 10 c = true := by
  have hbounds := isDigit_bounds h
  rw [isDigitIn, digitValue_of_isDigit h, Option.any_some, decide_eq_true_eq]
  omega

theorem isDigit_of_mem_toDigits {n : Nat} : ∀ c ∈ Nat.toDigits 10 n, c.isDigit = true :=
  fun _ => Nat.isDigit_of_mem_toDigits (by decide) (by decide)

theorem digitValue_digitChar {k : Nat} (h : k < 16) : digitValue k.digitChar = some k := by
  revert k
  decide

theorem value_toDigits {b : Nat} (hb : 1 < b) (hle : b ≤ 16) (n : Nat) :
    value b (Nat.toDigits b n) = n := by
  induction n using Nat.strongRecOn with
  | ind n ih =>
    rw [Nat.toDigits_eq_if hb]
    split
    · next hn => simp [value, digitValue_digitChar (Nat.lt_of_lt_of_le hn hle)]
    · have hdigit : n % b < 16 := Nat.lt_of_lt_of_le (Nat.mod_lt n (by omega)) hle
      rw [value_append_singleton, ih (n / b) (Nat.div_lt_self (by omega) hb),
        digitValue_digitChar hdigit, Option.getD_some, Nat.div_add_mod']

theorem read?_toDigits (n : Nat) : read? 10 (Nat.toDigits 10 n) = some n :=
  read?_eq_some_iff.2 ⟨Nat.toDigits_ne_nil,
    fun c hc => isDigitIn_ten (isDigit_of_mem_toDigits c hc),
    value_toDigits (by decide) (by decide) n⟩

theorem eq_zero_of_head?_toDigits {n : Nat} (h : (Nat.toDigits 10 n).head? = some '0') : n = 0 := by
  induction n using Nat.strongRecOn with
  | ind n ih =>
    have hdigit : ∀ k < 10, k.digitChar = '0' → k = 0 := by decide
    by_cases hn : n < 10
    · rw [Nat.toDigits_of_lt_base hn] at h
      exact hdigit n hn (Option.some.inj h)
    · have hlonger : (Nat.toDigits 10 (n / 10)).head? = some '0' := by
        rw [Nat.toDigits_eq_if (by decide), if_neg hn, List.head?_append] at h
        cases hfront : Nat.toDigits 10 (n / 10) with
        | nil => exact absurd hfront Nat.toDigits_ne_nil
        | cons c cs => simpa [hfront] using h
      have hzero := ih (n / 10) (by omega) hlonger
      omega

end Text.Numeral

namespace Token.NumberLiteral

open Text.Numeral (isDigit_of_mem_toDigits eq_zero_of_head?_toDigits read?_toDigits)

theorem toDigits_ne_marked {n : Nat} {c : Char} {cs : List Char} :
    Nat.toDigits 10 n ≠ '0' :: c :: cs := by
  intro h
  obtain rfl : n = 0 := eq_zero_of_head?_toDigits (by rw [h]; rfl)
  simp at h

theorem baseAndDigits_toDigits (n : Nat) :
    baseAndDigits (Nat.toDigits 10 n) = (10, Nat.toDigits 10 n) := by
  unfold baseAndDigits
  split
  · next h => exact absurd h toDigits_ne_marked
  · rfl

theorem integer?_toDigits {n : Nat} (h : n ≤ largestInteger) :
    integer? (Nat.toDigits 10 n) = some (Int64.ofNat n) := by
  rw [integer?_eq_filter, natural?, baseAndDigits_toDigits, read?_toDigits,
    Option.filter_some, if_pos (decide_eq_true h), Option.map_some]

theorem scan_toDigits {n : Nat} (h : n ≤ largestInteger) :
    scan (Nat.toDigits 10 n) = ⟨Nat.toDigits 10 n, [], .ok (.int (Int64.ofNat n))⟩ := by
  have hmantissa : mantissa (Nat.toDigits 10 n) = ⟨Nat.toDigits 10 n, false, [], []⟩ := by
    have hnil : ∀ d ∈ ([] : List Char).head?, d.isDigit = false ∧ d ≠ '.' := by simp
    simpa using mantissa_of_digits isDigit_of_mem_toDigits hnil
  rw [scan_eq_plain fun c cs heq => absurd heq toDigits_ne_marked, plain_eq_ofParts, hmantissa]
  simp [ofParts, exponent?, integer, Mantissa.raw, integer?_toDigits h]

end Token.NumberLiteral

namespace Text

/-- The characters with a short escape, each with its letter. -/
def shortEscapes : List (Char × Char) :=
  [('\x00', '0'), ('\t', 't'), ('\n', 'n'), ('\r', 'r'), ('"', '"'), ('\\', '\\')]

theorem mem_shortEscapes {c letter : Char} (h : shortEscape? c = some letter) :
    (c, letter) ∈ shortEscapes := by
  unfold shortEscape? at h
  split_ifs at h
  all_goals
    obtain rfl := Option.some.inj h
    simp_all [shortEscapes]

theorem encodeChar_cases (c : Char) :
    (∃ letter, (c, letter) ∈ shortEscapes ∧ encodeChar c = ['\\', letter]) ∨
      encodeChar c = '\\' :: 'u' :: '\x7b' :: (Nat.toDigits 16 c.toNat ++ ['\x7d']) ∨
      (encodeChar c = [c] ∧ c ≠ '\\' ∧ c ≠ '"') := by
  rw [encodeChar]
  cases hshort : shortEscape? c with
  | some letter => exact .inl ⟨letter, mem_shortEscapes hshort, rfl⟩
  | none =>
    by_cases hnumbered : isNumbered c = true
    · exact .inr (.inl (if_pos hnumbered))
    · refine .inr (.inr ⟨if_neg hnumbered, ?_, ?_⟩) <;>
        rintro rfl <;> simp [shortEscape?] at hshort

end Text

namespace Token.StringLiteral

/-- A character that is quoted as itself, or by an escape that stands for it in literals too. -/
def IsQuotable (c : Char) : Prop := c ≠ '\x00' ∧ ¬['\\', 'u'] <+: Text.encodeChar c

instance : DecidablePred IsQuotable := fun _ => inferInstanceAs (Decidable (_ ∧ ¬_))

theorem IsQuotable.encodeChar_cases {c : Char} (h : IsQuotable c) :
    (∃ letter, Text.encodeChar c = ['\\', letter] ∧ simpleEscape? letter = some c) ∨
      (Text.encodeChar c = [c] ∧ c ≠ '"' ∧ c ≠ '\\') := by
  obtain ⟨hzero, hnumbered⟩ := h
  have hletters : ∀ e ∈ Text.shortEscapes, e.1 ≠ '\x00' → simpleEscape? e.2 = some e.1 := by decide
  rcases Text.encodeChar_cases c with ⟨letter, hletter, hc⟩ | hc | ⟨hc, hbackslash, hquote⟩
  · exact .inl ⟨letter, hc, hletters _ hletter hzero⟩
  · simp [hc] at hnumbered
  · exact .inr ⟨hc, hquote, hbackslash⟩

theorem decodeFrom_encodeChar {c : Char} (h : IsQuotable c) (cs : List Char) :
    decodeFrom 0 (Text.encodeChar c ++ cs) = (decodeFrom 0 cs).map (c :: ·) := by
  rcases h.encodeChar_cases with ⟨letter, hencode, hletter⟩ | ⟨hencode, -, hbackslash⟩
  · have hread : readEscape letter cs = .ok (c, 1) := by simp [readEscape, hletter]
    simp [hencode, decodeFrom, hread]
  · rw [hencode, List.singleton_append]
    cases cs <;> simp [decodeFrom, hbackslash]

theorem decode_encode {cs : List Char} (h : ∀ c ∈ cs, IsQuotable c) :
    decode (Text.encode cs) = .ok cs := by
  induction cs with
  | nil => rfl
  | cons c cs ih =>
    obtain ⟨hc, hcs⟩ := List.forall_mem_cons.1 h
    have hrest : decodeFrom 0 (Text.encode cs) = .ok cs := ih hcs
    rw [decode, Text.encode, List.flatMap_cons, decodeFrom_encodeChar hc, ← Text.encode, hrest]
    rfl

theorem split?_encodeChar {c : Char} (h : IsQuotable c) {cs body rest : List Char}
    (hcs : split? cs = some (body, rest)) :
    split? (Text.encodeChar c ++ cs) = some (Text.encodeChar c ++ body, rest) := by
  rcases h.encodeChar_cases with ⟨letter, hencode, -⟩ | ⟨hencode, hquote, hbackslash⟩
  · simp [hencode, split?, hcs]
  · rw [hencode, List.singleton_append, split?, hcs]
    · rfl
    · exact hquote
    · exact fun _ _ hc _ => hbackslash hc

theorem split?_encode {cs : List Char} (h : ∀ c ∈ cs, IsQuotable c) (ds : List Char) :
    split? (Text.encode cs ++ '"' :: ds) = some (Text.encode cs, ds) := by
  induction cs with
  | nil => rfl
  | cons c cs ih =>
    obtain ⟨hc, hcs⟩ := List.forall_mem_cons.1 h
    rw [Text.encode, List.flatMap_cons, List.append_assoc]
    exact split?_encodeChar hc (ih hcs)

end Token.StringLiteral

theorem Scanner.piece_of_isDigit {depth : Nat} {c : Char} {cs : List Char}
    (h : c.isDigit = true) : piece depth c cs = Token.NumberLiteral.scan (c :: cs) := by
  have hne : ∀ d : Char, d.isDigit = false → c ≠ d := fun _ => Text.Numeral.ne_of_isDigit h
  simp [piece, startsNumber, h, hne '(' rfl, hne ')' rfl, hne '\n' rfl, hne '\r' rfl, hne ' ' rfl,
    hne '\t' rfl, hne '"' rfl]

namespace Token

open Atom (intText)

theorem isLexeme_int {n : Int64} (h : 0 ≤ n.toInt) :
    IsLexeme ⟨.int n, intText n, .start⟩ := by
  have hle : n.toInt.natAbs ≤ NumberLiteral.largestInteger := by
    have hlt := n.toInt_lt
    rw [NumberLiteral.largestInteger]
    omega
  have hvalue : Int64.ofNat n.toInt.natAbs = n := by
    rw [← Int64.ofInt_eq_ofNat, Int.natAbs_of_nonneg h, Int64.ofInt_toInt]
  have hscan := NumberLiteral.scan_toDigits hle
  rw [hvalue] at hscan
  have htext : (intText n).toList = Nat.toDigits 10 n.toInt.natAbs := by
    simp [intText, Int.not_lt.2 h]
  cases hdigits : Nat.toDigits 10 n.toInt.natAbs with
  | nil => exact absurd hdigits Nat.toDigits_ne_nil
  | cons c cs =>
    have hc : c.isDigit = true :=
      Text.Numeral.isDigit_of_mem_toDigits c (hdigits ▸ List.mem_cons_self)
    refine ⟨c, cs, by rw [htext, hdigits], fun depth => ?_⟩
    rw [hdigits] at hscan
    rw [Scanner.piece_of_isDigit hc, hscan]

theorem isLexeme_string {s : String} (h : ∀ c ∈ s.toList, StringLiteral.IsQuotable c) :
    IsLexeme ⟨.string s, Text.quoted s, .start⟩ := by
  refine ⟨'"', Text.encode s.toList ++ ['"'], Text.toList_quoted s, fun depth => ?_⟩
  have hsplit := StringLiteral.split?_encode h []
  simp [piece, stringPiece, hsplit, StringLiteral.decode_encode h]

theorem Content.kind_eq_symbol {content : Content} :
    content.kind = .symbol ↔ content = .symbol := by
  cases content <;> simp [kind]

/-- A name that, alone, is scanned as one symbol. -/
def IsSymbolName (name : String) : Prop :=
  ∃ t last, scanText name = [.ok t, .ok last] ∧ t.kind = .symbol ∧ last.kind = .endOfText

theorem isSymbolName_nil : IsSymbolName "nil" :=
  ⟨⟨.symbol, "nil", .start⟩, ⟨.endOfText, "", ⟨1, 4⟩⟩, by rfl, rfl, rfl⟩

theorem isLexeme_symbol {name : String} (h : IsSymbolName name) :
    IsLexeme ⟨.symbol, name, .start⟩ := by
  obtain ⟨t, last, hscan, hsymbol, hend⟩ := h
  have houtcomes : (Scanner.ofText name).outcomes = [t].map .ok ++ [.ok last] := hscan
  obtain ⟨s, hsteps, hlast⟩ := Scanner.exists_steps_of_outcomes houtcomes
  obtain ⟨u, hnext⟩ := Scanner.next_of_outcomes hlast
  have hrest : s.rest = [] := (Scanner.kind_eq_endOfText_iff hnext).1 hend
  have hcontent : t.content = .symbol := Content.kind_eq_symbol.1 hsymbol
  have hleaf : t.leaf? = some (.symbol t.raw) := by rw [leaf?, hcontent]
  obtain rfl : t.raw = name := by
    have htext := hsteps.rest_eq.1
    rw [hrest, List.append_nil, chars_cons, chars_nil, List.append_nil] at htext
    exact String.toList_inj.1 htext.symm
  have hmem : t.unplaced ∈ (significant [t]).map unplaced :=
    List.mem_map_of_mem (by simp [significant, isBlank, hsymbol])
  have hlexeme := (Spells.of_steps hsteps hrest).isLexeme hmem hleaf
  rwa [unplaced, hcontent] at hlexeme

end Token
end PairLisp
