import PairLisp.Proofs.Decimal.Shortest
import PairLisp.Proofs.Decimal.Written
import PairLisp.Proofs.Scanner.Integers

/-! # Printed floating-point numbers

The text of a number that is not negative is one token. It has a point or an exponent, or else it is
a whole number below `10 ^ 6` whose digits start with no zero, so it is never taken for octal. The
number that is scanned need not be the one that was written: how a literal with a point or an
exponent is rounded is not looked at here.
-/

namespace PairLisp

open Text.Numeral
open Decimal (Binary64 standardLayout Written)

namespace Token.NumberLiteral

variable {c sign : Char} {ws fs ps : List Char}

theorem radix?_of_isDigit (h : c.isDigit = true) : radix? c = none := by
  simp [radix?, ne_of_isDigit h]

theorem scan_of_whole_point (hne : ws ≠ []) (hws : ∀ c ∈ ws, c.isDigit = true)
    (hfs : ∀ c ∈ fs, c.isDigit = true) :
    ∃ v, scan (ws ++ '.' :: fs) = ⟨ws ++ '.' :: fs, [], .ok (.float v)⟩ := by
  have hmark : ∀ c es, ws ++ '.' :: fs = '0' :: c :: es → radix? c = none := by
    intro c es heq
    match ws, hne, hws, heq with
    | [_], _, _, heq =>
      obtain ⟨-, rfl, -⟩ := by simpa using heq
      rfl
    | _ :: d :: _, _, hws, heq =>
      obtain ⟨-, rfl, -⟩ := by simpa using heq
      exact radix?_of_isDigit (hws d (by simp))
  have hmantissa : mantissa (ws ++ '.' :: (fs ++ [])) = ⟨ws, true, fs, []⟩ :=
    mantissa_of_point hws hfs (by simp)
  rw [List.append_nil] at hmantissa
  have hscan : scan (ws ++ '.' :: fs) = ofParts ⟨ws, true, fs, []⟩ none := by
    rw [scan_eq_plain hmark, plain_eq_ofParts, hmantissa]
    rfl
  exact ⟨_, hscan⟩

theorem exponent?_of_sign (hsign : sign = '+' ∨ sign = '-') (hps : ∀ p ∈ ps, p.isDigit = true) :
    exponent? ('e' :: sign :: ps) = some ⟨['e', sign], ps, []⟩ := by
  have htake : ps.takeWhile Char.isDigit = ps := List.takeWhile_eq_self_iff.2 hps
  have hdrop : ps.dropWhile Char.isDigit = [] := List.dropWhile_eq_nil_iff.2 hps
  rcases hsign with rfl | rfl <;> simp [exponent?, htake, hdrop]

theorem exists_mantissa_of_pointed (hc : c.isDigit = true) (hfs : ∀ d ∈ fs, d.isDigit = true)
    (ps : List Char) : ∃ m, mantissa (c :: (pointed fs ++ 'e' :: ps)) = m ∧
      m.raw = c :: pointed fs ∧ m.rest = 'e' :: ps := by
  have hone : ∀ d ∈ [c], d.isDigit = true := by simpa using hc
  refine ⟨_, rfl, ?_⟩
  rw [pointed]
  split
  · have hcut : mantissa ([c] ++ 'e' :: ps) = ⟨[c], false, [], 'e' :: ps⟩ :=
      mantissa_of_digits hone (by simp)
    rw [List.nil_append, ← List.singleton_append, hcut]
    simp [Mantissa.raw]
  · have hcut : mantissa ([c] ++ '.' :: (fs ++ 'e' :: ps)) = ⟨[c], true, fs, 'e' :: ps⟩ :=
      mantissa_of_point hone hfs (by simp)
    rw [List.cons_append, ← List.singleton_append, hcut]
    simp [Mantissa.raw]

theorem scan_of_power (hc : c.isDigit = true) (hfs : ∀ d ∈ fs, d.isDigit = true)
    (hsign : sign = '+' ∨ sign = '-') (hne : ps ≠ []) (hps : ∀ p ∈ ps, p.isDigit = true) :
    ∃ v, scan (c :: (pointed fs ++ 'e' :: sign :: ps)) =
      ⟨c :: (pointed fs ++ 'e' :: sign :: ps), [], .ok (.float v)⟩ := by
  have hmark : ∀ d es, c :: (pointed fs ++ 'e' :: sign :: ps) = '0' :: d :: es →
      radix? d = none := by
    intro d es heq
    obtain ⟨-, heq⟩ := List.cons.inj heq
    rw [pointed] at heq
    split at heq <;> obtain ⟨rfl, -⟩ := List.cons.inj heq <;> rfl
  obtain ⟨m, hm, hraw, hrest⟩ := exists_mantissa_of_pointed hc hfs (sign :: ps)
  have hscan : scan (c :: (pointed fs ++ 'e' :: sign :: ps)) =
      ofParts m (some ⟨['e', sign], ps, []⟩) := by
    rw [scan_eq_plain hmark, plain_eq_ofParts, hm, hrest, exponent?_of_sign hsign hps]
  rw [ofParts, hraw, if_neg hne] at hscan
  exact ⟨_, hscan⟩

end Token.NumberLiteral

open Token.NumberLiteral

theorem scanText_of_scan {text : String} {c : Char} {cs : List Char} {content : Token.Content}
    (htext : text.toList = c :: cs) (hc : c.isDigit = true) (hkind : content.kind ≠ .endOfText)
    (hscan : scan (c :: cs) = ⟨c :: cs, [], .ok content⟩) :
    scanText text = [.ok ⟨content, text, .start⟩,
      .ok ⟨.endOfText, "", Position.start.advance text.toList⟩] := by
  have hpiece : Scanner.piece 0 c cs = ⟨c :: cs, [], .ok content⟩ := by
    rw [Scanner.piece_of_isDigit hc, hscan]
  have houtcome : (Scanner.piece (Scanner.ofText text).depth c cs).outcome = .ok content :=
    congrArg Token.Piece.outcome hpiece
  have hdepth : (Scanner.ofText text).depth = 0 := rfl
  have hnext := Scanner.next_of_ok htext houtcome
  rw [hdepth, hpiece, ← htext, String.ofList_toList] at hnext
  rw [Scanner.scanText_eq_outcomes, Scanner.outcomes_of_token hnext hkind,
    Scanner.outcomes_of_nil rfl]
  rfl

/-- What the text of a number is to be scanned as. -/
def Token.Content.IsNumber (content : Content) (cs : List Char) (q : ℚ) : Prop :=
  if '.' ∈ cs ∨ 'e' ∈ cs then ∃ v, content = .float v else ∃ n, content = .int n ∧ n.toInt = q

variable {content : Token.Content} {cs : List Char} {q : ℚ}

theorem Token.Content.isNumber_float {v : Float} (h : '.' ∈ cs ∨ 'e' ∈ cs) :
    (float v).IsNumber cs q := by
  rw [IsNumber, if_pos h]
  exact ⟨v, rfl⟩

theorem Token.Content.IsNumber.kind_ne (h : content.IsNumber cs q) : content.kind ≠ .endOfText := by
  rw [IsNumber] at h
  split at h
  · obtain ⟨v, rfl⟩ := h
    simp [kind]
  · obtain ⟨n, rfl, -⟩ := h
    simp [kind]

namespace Decimal.Written

variable {d : Decimal}

theorem exists_cons (h : Written d cs) : ∃ c ds, cs = c :: ds ∧ c.isDigit = true := by
  cases h with
  | @whole n =>
    obtain ⟨c, ds, hdigits⟩ := List.exists_cons_of_ne_nil (Nat.toDigits_ne_nil (b := 10) (n := n))
    exact ⟨c, ds, hdigits, isDigit_of_mem_toDigits c (hdigits ▸ List.mem_cons_self)⟩
  | point _ hne hws =>
    obtain ⟨c, ds, rfl⟩ := List.exists_cons_of_ne_nil hne
    exact ⟨c, _, rfl, hws c List.mem_cons_self⟩
  | power _ hdigits =>
    exact ⟨_, _, rfl, isDigit_of_mem_toDigits _ (hdigits ▸ List.mem_cons_self)⟩

theorem exists_scan (h : Written d cs) :
    ∃ content : Token.Content, content.IsNumber cs d.value ∧ scan cs = ⟨cs, [], .ok content⟩ := by
  cases h with
  | @whole n _ hlt hvalue =>
    have hle : n ≤ 2 ^ 63 - 1 := by omega
    have hmark : ¬('.' ∈ Nat.toDigits 10 n ∨ 'e' ∈ Nat.toDigits 10 n) := by
      rintro (hmem | hmem) <;> exact absurd (isDigit_of_mem_toDigits _ hmem) (by decide)
    refine ⟨_, ?_, scan_toDigits hle⟩
    rw [Token.Content.IsNumber, if_neg hmark]
    refine ⟨_, rfl, ?_⟩
    rw [toInt_ofNat_of_le hle, ← hvalue]
    rfl
  | point _ hne hws hfs =>
    obtain ⟨v, hscan⟩ := scan_of_whole_point hne hws hfs
    exact ⟨_, Token.Content.isNumber_float (by simp), hscan⟩
  | power _ hdigits hlength hps hsign =>
    obtain ⟨hc, hfs⟩ := List.forall_mem_cons.1 (hdigits ▸ isDigit_of_mem_toDigits)
    have hne := List.ne_nil_of_length_pos (Nat.zero_lt_of_lt hlength)
    obtain ⟨v, hscan⟩ := scan_of_power hc hfs (hsign.imp And.left And.left) hne hps
    exact ⟨_, Token.Content.isNumber_float (by simp), hscan⟩

theorem scanText_eq {text : String} (h : Written d text.toList) :
    ∃ content : Token.Content, content.IsNumber text.toList d.value ∧
      scanText text = [.ok ⟨content, text, .start⟩,
        .ok ⟨.endOfText, "", Position.start.advance text.toList⟩] := by
  obtain ⟨c, ds, htext, hc⟩ := h.exists_cons
  obtain ⟨content, hnumber, hscan⟩ := h.exists_scan
  exact ⟨content, hnumber, scanText_of_scan htext hc hnumber.kind_ne (htext ▸ hscan)⟩

end Decimal.Written

/-- A text for a number that is not negative. It is in exponent form exactly if the power of ten of
the first digit is below `-4` or at least `6`, and it is scanned as that one number. -/
structure IsTextOf (text : String) (q : ℚ) : Prop where
  denotes : rational? text.toList = some q
  power : ∀ p, IsExponentForm text.toList p ↔ Decimal.HasPower q p ∧ (p < -4 ∨ 6 ≤ p)
  mark : 'e' ∈ text.toList → ∃ p, IsExponentForm text.toList p
  scans : ∃ content : Token.Content, content.IsNumber text.toList q ∧
    scanText text = [.ok ⟨content, text, .start⟩,
      .ok ⟨.endOfText, "", Position.start.advance text.toList⟩]

theorem Decimal.Written.isTextOf {d : Decimal} {text : String} (hd : d.IsCanonical)
    (h : Written d text.toList) : IsTextOf text d.value where
  denotes := h.rational?_eq
  power p := by
    rw [h.isExponentForm_iff, Decimal.hasPower_iff hd]
    refine and_congr_right fun hp => ?_
    rw [Decimal.InPlace, ← hp]
    omega
  mark hmark := ⟨d.leading, (h.isExponentForm_iff _).2 ⟨rfl, h.mem_iff.1 hmark⟩⟩
  scans := h.scanText_eq

/-- The text of a finite number without sign bit is one for the shortest decimal that rounds to the
number. -/
theorem standardLayout_text_denotes (x : Float) (hnan : x.isNaN = false) (hinf : x.isInf = false)
    (hsign : x.toBits >>> 63 = 0) :
    (Binary64.ofBits x.toBits).IsShortest (Binary64.ofBits x.toBits).shortest ∧
      IsTextOf (standardLayout.text x) (Binary64.ofBits x.toBits).shortest.value := by
  have hshortest := Binary64.isShortest_shortest (Binary64.wellFormed_ofBits x.toBits)
  have htext : (standardLayout.text x).toList =
      standardLayout.write (Binary64.ofBits x.toBits).shortest := by
    have hnegative : x.toBits >>> 63 ≠ 1 := by
      rw [hsign]
      decide
    rw [Decimal.Layout.text, if_neg (ne_true_of_eq_false hnan), if_neg (ne_true_of_eq_false hinf),
      String.toList_ofList, if_neg hnegative]
  refine ⟨hshortest, Written.isTextOf hshortest.canonical ?_⟩
  rw [htext]
  exact Decimal.written_write hshortest.canonical

/-- `1e-7` is written with an exponent, and `100000` is the last power of ten that is not. -/
theorem standardLayout_text_denotes_of_powers :
    let tiny := Float.ofBits 0x3E7AD7F29ABCAF48
    let whole := Float.ofBits 0x40F86A0000000000
    (tiny.isNaN = false ∧ tiny.isInf = false ∧ tiny.toBits >>> 63 = 0 ∧
      standardLayout.text tiny = "1e-07" ∧ rational? "1e-07".toList = some (1 * 10 ^ (-7 : Int)) ∧
      IsExponentForm "1e-07".toList (-7) ∧
      ∃ v, scanText "1e-07" = [.ok ⟨.float v, "1e-07", .start⟩, .ok ⟨.endOfText, "", ⟨1, 6⟩⟩]) ∧
    (whole.isNaN = false ∧ whole.isInf = false ∧ whole.toBits >>> 63 = 0 ∧
      standardLayout.text whole = "100000" ∧ rational? "100000".toList = some (1 * 10 ^ (5 : Int)) ∧
      (∀ p, ¬ IsExponentForm "100000".toList p) ∧
      ∃ n : Int64, (n.toInt : ℚ) = 1 * 10 ^ (5 : Int) ∧ scanText "100000" =
        [.ok ⟨.int n, "100000", .start⟩, .ok ⟨.endOfText, "", ⟨1, 7⟩⟩]) := by
  intro tiny whole
  constructor
  · obtain ⟨hnan, hinf, hsign⟩ :
        tiny.isNaN = false ∧ tiny.isInf = false ∧ tiny.toBits >>> 63 = 0 := by decide +kernel
    have htext : standardLayout.text tiny = "1e-07" := by decide +kernel
    have hd : (Binary64.ofBits tiny.toBits).shortest = ⟨1, -7⟩ := by decide +kernel
    obtain ⟨-, hall⟩ := standardLayout_text_denotes tiny hnan hinf hsign
    rw [htext, hd, Decimal.value, Nat.cast_one] at hall
    obtain ⟨content, hnumber, hscan⟩ := hall.scans
    rw [Token.Content.IsNumber, if_pos (by decide +kernel)] at hnumber
    obtain ⟨v, rfl⟩ := hnumber
    have hpower : Decimal.HasPower (1 * 10 ^ (-7 : Int)) (-7) := .inl (by norm_num)
    exact ⟨hnan, hinf, hsign, htext, hall.denotes, (hall.power _).2 ⟨hpower, .inl (by decide)⟩, v,
      hscan⟩
  · obtain ⟨hnan, hinf, hsign⟩ :
        whole.isNaN = false ∧ whole.isInf = false ∧ whole.toBits >>> 63 = 0 := by decide +kernel
    have htext : standardLayout.text whole = "100000" := by decide +kernel
    have hd : (Binary64.ofBits whole.toBits).shortest = ⟨1, 5⟩ := by decide +kernel
    obtain ⟨-, hall⟩ := standardLayout_text_denotes whole hnan hinf hsign
    rw [htext, hd, Decimal.value, Nat.cast_one] at hall
    obtain ⟨content, hnumber, hscan⟩ := hall.scans
    rw [Token.Content.IsNumber, if_neg (by decide +kernel)] at hnumber
    obtain ⟨n, rfl, hn⟩ := hnumber
    refine ⟨hnan, hinf, hsign, htext, hall.denotes, fun p hp => ?_, n, hn, hscan⟩
    exact absurd hp.mem (by decide +kernel)

end PairLisp
