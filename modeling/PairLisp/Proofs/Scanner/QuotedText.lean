import PairLisp.Proofs.Scanner.Escapes
import PairLisp.Proofs.Scanner.Literals
import PairLisp.Proofs.Text.Bytes

/-! # Quoted text, scanned

Quoted text is a string literal, but it is written and read by different escapes. A character that
is written by its number is refused. A zero character is written as the start of an octal escape,
which takes the two characters behind it for digits and is refused if they are none. All else is
read as it was before it was quoted.
-/

open Computability

namespace PairLisp

namespace Text

variable {c : Char}

/-- A character that quoted text writes by its number. -/
def IsByNumber (c : Char) : Prop := ['\\', 'u'] <+: encodeChar c

instance : DecidablePred IsByNumber :=
  fun c => inferInstanceAs (Decidable (['\\', 'u'] <+: encodeChar c))

theorem exists_digitChar_of_mem_toDigits {b n : Nat} (hb : 1 < b) (h : c ∈ Nat.toDigits b n) :
    ∃ k : Nat, c = k.digitChar := by
  induction n using Nat.strongRecOn with
  | ind n ih =>
    rw [Nat.toDigits_eq_if hb] at h
    by_cases hn : n < b
    · rw [if_pos hn] at h
      exact ⟨n, List.mem_singleton.1 h⟩
    · rw [if_neg hn] at h
      rcases List.mem_append.1 h with h | h
      · exact ih (n / b) (Nat.div_lt_self (by omega) hb) h
      · exact ⟨n % b, List.mem_singleton.1 h⟩

theorem IsByNumber.encodeChar_eq (h : IsByNumber c) :
    encodeChar c = '\\' :: 'u' :: '\x7b' :: (Nat.toDigits 16 c.toNat ++ ['\x7d']) := by
  have hletters : ∀ e ∈ shortEscapes, e.2 ≠ 'u' := by decide
  rw [IsByNumber] at h
  rcases encodeChar_cases c with ⟨letter, hletter, hc⟩ | hc | ⟨hc, -⟩
  · simp [hc, (hletters _ hletter).symm] at h
  · exact hc
  · simp [hc] at h

theorem plain_of_mem_toDigits {n : Nat} : ∀ c ∈ Nat.toDigits 16 n, c ≠ '"' ∧ c ≠ '\\' := by
  intro c hc
  obtain ⟨k, rfl⟩ := exists_digitChar_of_mem_toDigits (by decide) hc
  exact ⟨Nat.digitChar_ne '"' rfl, Nat.digitChar_ne '\\' rfl⟩

end Text

namespace Token.StringLiteral

open Text (encode encodeChar IsByNumber utf8ByteSize_cons)
open Text.Numeral (isDigitIn value)

variable {c : Char} {body cs ds rest : List Char}

theorem eq_zero_or_isByNumber_or_isQuotable (c : Char) :
    c = '\x00' ∨ IsByNumber c ∨ IsQuotable c := by
  by_cases hzero : c = '\x00'
  · exact .inl hzero
  · by_cases hnumber : IsByNumber c
    · exact .inr (.inl hnumber)
    · exact .inr (.inr ⟨hzero, hnumber⟩)

/-! ## Quoted text is a literal -/

theorem append_mem_stringBody {cs ds : List Char} (hcs : cs ∈ Lexeme.stringBody)
    (hds : ds ∈ Lexeme.stringBody) : cs ++ ds ∈ Lexeme.stringBody := by
  rw [Lexeme.stringBody, ← kstar_mul_kstar]
  exact Language.append_mem_mul hcs hds

theorem escape_mem_stringBody (c : Char) : ['\\', c] ∈ Lexeme.stringBody := by
  have hpart : ['\\', c] ∈ Lexeme.stringPart :=
    .inr (Lexeme.mem_one_mul.2 ⟨'\\', rfl, [c], ⟨c, rfl, rfl⟩, rfl⟩)
  exact Lexeme.append_mem_stringBody hpart (Language.nil_mem_kstar _)

theorem plain_mem_stringBody (h : ∀ c ∈ cs, c ≠ '"' ∧ c ≠ '\\') : cs ∈ Lexeme.stringBody := by
  induction cs with
  | nil => exact Language.nil_mem_kstar _
  | cons c cs ih =>
    obtain ⟨hc, hcs⟩ := List.forall_mem_cons.1 h
    have hpart : [c] ∈ Lexeme.stringPart := .inl ⟨c, by simpa using hc, rfl⟩
    exact Lexeme.append_mem_stringBody hpart (ih hcs)

theorem encodeChar_mem_stringBody (c : Char) : encodeChar c ∈ Lexeme.stringBody := by
  rcases eq_zero_or_isByNumber_or_isQuotable c with rfl | hnumber | hquotable
  · exact escape_mem_stringBody '0'
  · rw [hnumber.encodeChar_eq]
    apply append_mem_stringBody (escape_mem_stringBody 'u')
    apply plain_mem_stringBody
    have hdigits := Text.plain_of_mem_toDigits (n := c.toNat)
    simpa [or_imp, forall_and] using hdigits
  · rcases hquotable.encodeChar_cases with ⟨letter, hencode, -⟩ | ⟨hencode, hplain⟩
    · rw [hencode]
      exact escape_mem_stringBody letter
    · rw [hencode]
      apply plain_mem_stringBody
      simpa using hplain

theorem encode_mem_stringBody (cs : List Char) : encode cs ∈ Lexeme.stringBody := by
  induction cs with
  | nil => exact Language.nil_mem_kstar _
  | cons c cs ih => exact append_mem_stringBody (encodeChar_mem_stringBody c) ih

/-! ## What it is read as -/

/-- What is left of a text that is quoted and read. -/
inductive ReadsBack : List Char → List Char → Prop where
  | nil : ReadsBack [] []
  | char {c : Char} {cs ds : List Char} : IsQuotable c → ReadsBack cs ds →
      ReadsBack (c :: cs) (c :: ds)
  | zero {a b : Char} {cs ds : List Char} : isDigitIn 8 a = true → isDigitIn 8 b = true →
      ReadsBack cs ds →
      ReadsBack ('\x00' :: a :: b :: cs) (Char.ofNat (value 8 ['0', a, b]) :: ds)

theorem isQuotable_of_octal (h : isDigitIn 8 c = true) :
    IsQuotable c ∧ encodeChar c = [c] ∧ c.utf8Size = 1 := by
  obtain ⟨hlo, hhi⟩ := isDigitIn_eight_iff.1 h
  have hcode : c.toNat ∈ List.range' 48 8 := by
    rw [List.mem_range'_1]
    exact ⟨UInt32.le_iff_toNat_le.1 hlo, Nat.lt_succ_of_le (UInt32.le_iff_toNat_le.1 hhi)⟩
  have hall : ∀ n ∈ List.range' 48 8, IsQuotable (Char.ofNat n) ∧
      encodeChar (Char.ofNat n) = [Char.ofNat n] ∧ (Char.ofNat n).utf8Size = 1 := by
    decide +kernel
  have hc := hall c.toNat hcode
  rwa [Char.ofNat_toNat] at hc

/-- Where quoted text starts with an octal digit, so did the text. -/
theorem eq_cons_of_encode {a : Char} {tail : List Char} (ha : isDigitIn 8 a = true)
    (h : encode cs = a :: tail) : ∃ rest, cs = a :: rest ∧ tail = encode rest := by
  have hbackslash : a ≠ '\\' := by
    rintro rfl
    revert ha
    decide
  cases cs with
  | nil => cases h
  | cons c cs =>
    rw [encode, List.flatMap_cons, ← encode] at h
    rcases eq_zero_or_isByNumber_or_isQuotable c with rfl | hnumber | hquotable
    · exact absurd (List.cons.inj h).1.symm hbackslash
    · rw [hnumber.encodeChar_eq] at h
      exact absurd (List.cons.inj h).1.symm hbackslash
    · rcases hquotable.encodeChar_cases with ⟨letter, hencode, -⟩ | ⟨hencode, -⟩
      · rw [hencode] at h
        exact absurd (List.cons.inj h).1.symm hbackslash
      · rw [hencode] at h
        obtain ⟨rfl, rfl⟩ := List.cons.inj h
        exact ⟨cs, rfl, rfl⟩

theorem ReadableEscape.of_zero {es : List Char} {d : Char} (h : ReadableEscape ('0' :: es) d) :
    ∃ a b, es = [a, b] ∧ isDigitIn 8 a = true ∧ isDigitIn 8 b = true ∧
      d = Char.ofNat (value 8 ['0', a, b]) := by
  have hletter : ∀ e ∈ letterEscapes, e.1 ≠ '0' := by decide
  have hhex : ∀ e ∈ hexEscapes, e.1 ≠ '0' := by decide
  rcases h with h | h
  · generalize htext : '0' :: es = text at h
    cases h with
    | letter hmem => exact absurd (List.cons.inj htext).1.symm (hletter _ hmem)
    | hex hmem => exact absurd (List.cons.inj htext).1.symm (hhex _ hmem)
    | octal hlength hdigits =>
      subst htext
      obtain ⟨a, b, rfl⟩ := List.length_eq_two.1 (Nat.succ.inj hlength)
      simp only [List.forall_mem_cons] at hdigits
      exact ⟨a, b, rfl, hdigits.2.1, hdigits.2.2.1, rfl⟩
  · generalize htext : '0' :: es = text at h
    cases h with
    | mk hmem => exact absurd (List.cons.inj htext).1.symm (hhex _ hmem)

theorem decode_brace : decode ('\\' :: 'u' :: '\x7b' :: cs) ≠ .ok ds := by
  have hbrace : isDigitIn 16 '\x7b' = false := by decide
  intro h
  obtain ⟨es, d, rest, -, htext, -, hescape, -⟩ := (decode_eq_ok_iff.1 h).of_escape
  obtain ⟨c, tail, rfl, hread⟩ := hescape.readEscape_eq rest
  obtain ⟨rfl, htail⟩ : 'u' = c ∧ '\x7b' :: cs = tail ++ rest := List.cons.inj htext
  rw [← htail, readEscape_of_hex (n := 4) (by decide), numberedEscape_eq_ok_iff] at hread
  obtain ⟨k, hcode, -⟩ := hread
  split at hcode
  · next hlength =>
    have hdigits := (hexCode?_eq_some_iff (by omega)).1 hcode
    simp [hbrace] at hdigits
  · cases hcode

theorem value_zero_lt {a b : Char} (ha : isDigitIn 8 a = true) (hb : isDigitIn 8 b = true) :
    value 8 ['0', a, b] < 64 := by
  have hzero : Text.Numeral.digitValue '0' = some 0 := by decide
  have hvalue {c : Char} (hc : isDigitIn 8 c = true) :
      (Text.Numeral.digitValue c).getD 0 < 8 := by
    rw [isDigitIn] at hc
    cases hd : Text.Numeral.digitValue c <;> simp_all
  have ha := hvalue ha
  have hb := hvalue hb
  simp only [value, List.foldl_cons, List.foldl_nil, hzero, Option.getD_some]
  omega

/-! ## Reading quoted text -/

theorem decode_encodeChar (h : IsQuotable c) (cs : List Char) :
    decode (encodeChar c ++ cs) = (decode cs).map (c :: ·) :=
  decodeFrom_encodeChar h cs

theorem encode_cons (c : Char) (cs : List Char) : encode (c :: cs) = encodeChar c ++ encode cs :=
  List.flatMap_cons

theorem ReadsBack.decode_eq (h : ReadsBack cs ds) : decode (encode cs) = .ok ds := by
  induction h with
  | nil => rfl
  | char hc _ ih =>
    rw [encode_cons, decode_encodeChar hc, ih]
    rfl
  | @zero a b cs ds ha hb _ ih =>
    have hescape : ReadableEscape ['0', a, b] (Char.ofNat (value 8 ['0', a, b])) := by
      refine .inl (.octal rfl ?_ ?_)
      · simpa [ha, hb] using (by decide : isDigitIn 8 '0' = true)
      · exact Nat.le_trans (Nat.le_of_lt (value_zero_lt ha hb)) (by decide)
    have hencode : encode ('\x00' :: a :: b :: cs) = '\\' :: (['0', a, b] ++ encode cs) := by
      rw [encode_cons, encode_cons, encode_cons, (isQuotable_of_octal ha).2.1,
        (isQuotable_of_octal hb).2.1]
      rfl
    rw [hencode, decode_escape hescape, ih]
    rfl

theorem readsBack_of_decode (h : decode (encode cs) = .ok ds) : ReadsBack cs ds := by
  induction hn : cs.length using Nat.strongRecOn generalizing cs ds with
  | ind n ih =>
    cases cs with
    | nil =>
      cases h
      exact .nil
    | cons c cs =>
      rw [List.length_cons] at hn
      rw [encode_cons] at h
      rcases eq_zero_or_isByNumber_or_isQuotable c with rfl | hnumber | hquotable
      · -- The escape takes two digits, which stand for themselves in the quoted text.
        obtain ⟨es, d, rest, es, htext, rfl, hescape, hrest⟩ := (decode_eq_ok_iff.1 h).of_escape
        obtain ⟨z, tail, rfl, -⟩ := hescape.readEscape_eq rest
        obtain ⟨rfl, htail⟩ : '0' = z ∧ encode cs = tail ++ rest := List.cons.inj htext
        obtain ⟨a, b, rfl, ha, hb, rfl⟩ := hescape.of_zero
        obtain ⟨cs, rfl, hcs⟩ := eq_cons_of_encode ha htail
        obtain ⟨cs, rfl, rfl⟩ := eq_cons_of_encode hb hcs.symm
        rw [← decode_eq_ok_iff] at hrest
        exact .zero ha hb (ih cs.length (by simp only [List.length_cons] at hn; omega) hrest rfl)
      · rw [hnumber.encodeChar_eq] at h
        exact absurd h decode_brace
      · rw [decode_encodeChar hquotable] at h
        obtain ⟨es, hes, rfl⟩ := map_cons_eq_ok h
        exact .char hquotable (ih cs.length (by omega) hes rfl)

/-- Quoted text is read as what is left of the text. -/
theorem decode_encode_eq_ok_iff : decode (encode cs) = .ok ds ↔ ReadsBack cs ds :=
  ⟨readsBack_of_decode, ReadsBack.decode_eq⟩

namespace ReadsBack

theorem not_isByNumber (h : ReadsBack cs ds) : ∀ c ∈ cs, ¬ IsByNumber c := by
  induction h with
  | nil => simp
  | char hc _ ih => exact List.forall_mem_cons.2 ⟨hc.2, ih⟩
  | zero ha hb _ ih =>
    have hzero : ¬ IsByNumber '\x00' := by decide +kernel
    simp only [List.forall_mem_cons]
    exact ⟨hzero, (isQuotable_of_octal ha).1.2, (isQuotable_of_octal hb).1.2, ih⟩

theorem of_isQuotable (h : ∀ c ∈ cs, IsQuotable c) : ReadsBack cs cs := by
  induction cs with
  | nil => exact .nil
  | cons c cs ih =>
    obtain ⟨hc, hcs⟩ := List.forall_mem_cons.1 h
    exact .char hc (ih hcs)

/-- Three characters become one for each zero character. -/
theorem length_eq (h : ReadsBack cs ds) : cs.length = ds.length + 2 * cs.count '\x00' := by
  induction h with
  | nil => rfl
  | char hc _ ih =>
    rw [List.length_cons, List.length_cons, List.count_cons_of_ne hc.1, ih]
    omega
  | zero ha hb _ ih =>
    rw [List.count_cons_self, List.count_cons_of_ne (isQuotable_of_octal ha).1.1,
      List.count_cons_of_ne (isQuotable_of_octal hb).1.1]
    simp only [List.length_cons]
    omega

theorem utf8ByteSize_eq (h : ReadsBack cs ds) : (String.ofList cs).utf8ByteSize =
    (String.ofList ds).utf8ByteSize + 2 * cs.count '\x00' := by
  induction h with
  | nil => rfl
  | char hc _ ih =>
    rw [utf8ByteSize_cons, utf8ByteSize_cons, List.count_cons_of_ne hc.1, ih, Nat.add_assoc]
  | zero ha hb _ ih =>
    have hall : ∀ n < 64, (Char.ofNat n).utf8Size = 1 := by decide
    have hzero : ('\x00').utf8Size = 1 := by decide
    rw [List.count_cons_self, List.count_cons_of_ne (isQuotable_of_octal ha).1.1,
      List.count_cons_of_ne (isQuotable_of_octal hb).1.1]
    simp only [utf8ByteSize_cons, hall _ (value_zero_lt ha hb), hzero,
      (isQuotable_of_octal ha).2.2, (isQuotable_of_octal hb).2.2]
    omega

end ReadsBack
end Token.StringLiteral

/-! ## Scanning quoted text -/

open Token.StringLiteral

variable {s text : String} {body ds : List Char}

/-- A text that is a string literal is one token, or a fault where it starts. -/
theorem scanText_of_literal (hbody : body ∈ Lexeme.stringBody)
    (h : text.toList = '"' :: (body ++ ['"'])) :
    scanText text = match decode body with
      | .ok ds => [.ok ⟨.string (String.ofList ds), text, .start⟩,
          .ok ⟨.endOfText, "", Position.start.advance text.toList⟩]
      | .error escape => [.error ⟨.invalidEscape escape, .start⟩] := by
  have hnext := Scanner.next_of_literal (s := Scanner.ofText text) hbody h
  rw [Lexeme.stringOutcome, ← h] at hnext
  cases hdecode : decode body with
  | ok ds =>
    simp only [hdecode, Scanner.report, String.ofList_toList] at hnext
    rw [Scanner.scanText_eq_outcomes, Scanner.outcomes_of_token hnext (by simp [Token.kind,
      Token.Content.kind]), Scanner.outcomes_of_nil rfl]
    rfl
  | error escape =>
    simp only [hdecode, Scanner.report] at hnext
    rw [Scanner.scanText_eq_outcomes, Scanner.outcomes_of_error hnext]
    rfl

/-- The text is one string literal, which stands for `value`. -/
def ScansAs (text value : String) : Prop :=
  ∃ t last, scanText text = [.ok t, .ok last] ∧ t.content = .string value ∧
    last.kind = .endOfText

def ScanRefuses (text : String) : Prop :=
  ∃ escape, scanText text = [.error ⟨.invalidEscape escape, .start⟩]

theorem scansAs_quoted_iff {value : String} :
    ScansAs (Text.quoted s) value ↔ ReadsBack s.toList value.toList := by
  have hscan := scanText_of_literal (encode_mem_stringBody s.toList) (Text.toList_quoted s)
  rw [← decode_encode_eq_ok_iff, ScansAs, hscan]
  cases decode (Text.encode s.toList) with
  | ok ds =>
    constructor
    · rintro ⟨t, last, hresult, hcontent, -⟩
      obtain rfl := Except.ok.inj (List.cons.inj hresult).1
      obtain rfl := Token.Content.string.inj hcontent
      rw [String.toList_ofList]
    · intro heq
      obtain rfl := Except.ok.inj heq
      exact ⟨_, _, rfl, by simp, rfl⟩
  | error escape => simp

theorem scanRefuses_quoted (h : ∀ ds, ¬ ReadsBack s.toList ds) : ScanRefuses (Text.quoted s) := by
  have hscan := scanText_of_literal (encode_mem_stringBody s.toList) (Text.toList_quoted s)
  cases hdecode : decode (Text.encode s.toList) with
  | ok ds => exact absurd (decode_encode_eq_ok_iff.1 hdecode) (h ds)
  | error escape =>
    rw [hdecode] at hscan
    exact ⟨escape, hscan⟩

/-- The displayed text of a string is scanned as that string exactly if the string has no zero
character and none that is written by its number. One that is written by its number is refused. A
zero character alone is refused or takes other characters with it. -/
theorem scansAs_leafText_iff (s : String) :
    (ScansAs (Expr.string s).leafText s ↔
        ∀ c ∈ s.toList, c ≠ '\x00' ∧ ¬ Text.IsByNumber c) ∧
      ((∃ c ∈ s.toList, Text.IsByNumber c) → ScanRefuses (Expr.string s).leafText) ∧
      ('\x00' ∈ s.toList → (∀ c ∈ s.toList, ¬ Text.IsByNumber c) →
        ScanRefuses (Expr.string s).leafText ∨
          ∃ value, ScansAs (Expr.string s).leafText value ∧ value.length < s.length ∧
            value.utf8ByteSize < s.utf8ByteSize) := by
  have htext : (Expr.string s).leafText = Text.quoted s := rfl
  simp only [htext, scansAs_quoted_iff]
  refine ⟨⟨fun h c hc => ⟨?_, h.not_isByNumber c hc⟩, ReadsBack.of_isQuotable⟩, ?_, ?_⟩
  · rintro rfl
    have hlength := h.length_eq
    have hcount := List.count_pos_iff.2 hc
    omega
  · rintro ⟨c, hc, hnumber⟩
    exact scanRefuses_quoted fun ds h => h.not_isByNumber c hc hnumber
  · intro hzero _
    by_cases hread : ∃ ds, ReadsBack s.toList ds
    · obtain ⟨ds, h⟩ := hread
      have hlength := h.length_eq
      have hbytes := h.utf8ByteSize_eq
      have hcount := List.count_pos_iff.2 hzero
      rw [String.ofList_toList] at hbytes
      rw [String.length_toList] at hlength
      refine .inr ⟨String.ofList ds, by rwa [String.toList_ofList], ?_, ?_⟩
      · rw [String.length_ofList]
        omega
      · omega
    · exact .inl (scanRefuses_quoted (not_exists.1 hread))

/-- A text with short escapes, one with a mark that is written by its number, and a zero character
before two digits. -/
theorem scansAs_leafText_iff_of_texts :
    ((∀ c ∈ "a\"\n".toList, c ≠ '\x00' ∧ ¬ Text.IsByNumber c) ∧
        ScansAs (Expr.string "a\"\n").leafText "a\"\n") ∧
      ((∃ c ∈ "e\u0301".toList, Text.IsByNumber c) ∧
        ScanRefuses (Expr.string "e\u0301").leafText) ∧
      ('\x00' ∈ "\x0012".toList ∧ (∀ c ∈ "\x0012".toList, ¬ Text.IsByNumber c) ∧
        (ScanRefuses (Expr.string "\x0012").leafText ∨
          ∃ value, ScansAs (Expr.string "\x0012").leafText value ∧
            value.length < "\x0012".length ∧ value.utf8ByteSize < "\x0012".utf8ByteSize)) := by
  have hshort : ∀ c ∈ "a\"\n".toList, c ≠ '\x00' ∧ ¬ Text.IsByNumber c := by
    have hall : "a\"\n".toList.all (fun c => c ≠ '\x00' ∧ ¬ Text.IsByNumber c) = true := by
      decide +kernel
    exact fun c hc => of_decide_eq_true (List.all_eq_true.1 hall c hc)
  have hmark : ∃ c ∈ "e\u0301".toList, Text.IsByNumber c :=
    ⟨'\u0301', by decide +kernel, by decide +kernel⟩
  have hzero : '\x00' ∈ "\x0012".toList := by decide +kernel
  have hplain : ∀ c ∈ "\x0012".toList, ¬ Text.IsByNumber c := by
    have hall : "\x0012".toList.all (fun c => ¬ Text.IsByNumber c) = true := by decide +kernel
    exact fun c hc => of_decide_eq_true (List.all_eq_true.1 hall c hc)
  obtain ⟨hscans, -, -⟩ := scansAs_leafText_iff "a\"\n"
  obtain ⟨-, hrefuses, -⟩ := scansAs_leafText_iff "e\u0301"
  obtain ⟨-, -, htakes⟩ := scansAs_leafText_iff "\x0012"
  exact ⟨⟨hshort, hscans.2 hshort⟩, ⟨hmark, hrefuses hmark⟩, hzero, hplain, htakes hzero hplain⟩

end PairLisp
