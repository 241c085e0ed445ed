import PairLisp.Proofs.Scanner.Again
import PairLisp.Proofs.Scanner.Fronts

/-! # Number literals by longest match

The parts that a number literal is cut into are the longest of their kind that stand there: the
mantissa at the front, and the exponent behind it.
-/

open Computability

namespace PairLisp.Lexeme

open Token (Content)
open Token.NumberLiteral hiding mantissa
open Token.NumberLiteral renaming mantissa → mantissaAt

variable {c : Char} {cs ds text raw : List Char} {outcome : Except ScanReason Content}

/-! ## Starts -/

theorem starts_digits_cons : Starts digits (c :: cs) ↔ c.isDigit = true := by
  rw [digits, starts_one_mul_cons, and_iff_left starts_kstar]

theorem starts_digits_iff : Starts digits text ↔ text.takeWhile Char.isDigit ≠ [] := by
  cases text with
  | nil => simp [digits, not_starts_one_mul_nil]
  | cons c cs => simp [starts_digits_cons, List.takeWhile_cons]

theorem starts_numberStart_cons :
    Starts numberStart (c :: cs) ↔ Scanner.startsNumber c cs = true := by
  rw [numberStart, starts_add, starts_one_cons, point, starts_one_mul_cons]
  cases cs with
  | nil => simp [Scanner.startsNumber, not_starts_one_nil]
  | cons d ds => simp [Scanner.startsNumber, starts_one_cons]

theorem isSome_radix? (c : Char) :
    (radix? c).isSome = ['x', 'X', 'o', 'O', 'b', 'B'].contains c := by
  rw [Bool.eq_iff_iff, radix?, List.contains_iff_mem]
  grind

theorem starts_radixMark_cons :
    Starts radixMark (c :: cs) ↔ c = '0' ∧ ∃ d ds, cs = d :: ds ∧ (radix? d).isSome = true := by
  rw [radixMark, starts_one_mul_cons, decide_eq_true_eq]
  cases cs with
  | nil => simp [not_starts_one_nil]
  | cons d ds => simp [starts_one_cons, isSome_radix?]

theorem starts_exponentMark_cons : Starts exponentMark (c :: cs) ↔ c = 'e' ∨ c = 'E' := by
  simp [exponentMark, starts_one_cons]

theorem not_starts_sign_mul {L : Language Char} (hplus : ∀ cs, text = '+' :: cs → False)
    (hminus : ∀ cs, text = '-' :: cs → False) : ¬ Starts (sign * L) text := by
  cases text with
  | nil => exact not_starts_one_mul_nil
  | cons c cs =>
    have hc : c ≠ '+' ∧ c ≠ '-' :=
      ⟨fun h => hplus cs (by rw [h]), fun h => hminus cs (by rw [h])⟩
    simp [sign, starts_one_mul_cons, hc]

theorem exponent?_eq_none_iff : exponent? text = none ↔ ¬ Starts exponentMark text := by
  fun_cases exponent? text with
  | case1 mark hmark | case2 mark hmark | case3 mark hmark =>
    simp [starts_exponentMark_cons, hmark]
  | case4 mark cs hmark => simp [starts_exponentMark_cons, hmark]
  | case5 => simp [exponentMark, not_starts_one_nil]

/-! ## Longest parts -/

theorem longest_radixLiteral {d : Char} (h : (radix? d).isSome = true) :
    Longest radixLiteral ('0' :: d :: ds) ('0' :: d :: ds.takeWhile isRadixDigit) := by
  rw [radixLiteral, radixMark, mul_assoc]
  exact .cons rfl (.cons (isSome_radix? d ▸ h) (.takeWhile isRadixDigit ds))

theorem longest_digits (h : Starts digits text) :
    Longest digits text (text.takeWhile Char.isDigit) := by
  cases text with
  | nil => exact absurd h not_starts_one_mul_nil
  | cons c cs =>
    have hc := starts_digits_cons.1 h
    rw [List.takeWhile_cons_of_pos hc]
    exact .cons hc (.takeWhile Char.isDigit cs)

theorem isDigit_head?_dropWhile (text : List Char) :
    ∀ c ∈ (text.dropWhile Char.isDigit).head?, c.isDigit = false := by
  intro c hc
  have hnot := List.head?_dropWhile_not Char.isDigit text
  rw [hc] at hnot
  exact hnot

theorem mantissa_raw (text : List Char) :
    (mantissaAt text).raw =
      text.takeWhile Char.isDigit ++ (mantissaAt (text.dropWhile Char.isDigit)).raw := by
  have hstop := isDigit_head?_dropWhile text
  rw [mantissaAt]
  cases hrest : text.dropWhile Char.isDigit with
  | nil => simp [mantissaAt, Mantissa.raw]
  | cons c cs =>
    have hc : c.isDigit = false := hstop c (by rw [hrest]; rfl)
    by_cases hpoint : c = '.' <;>
      simp [mantissaAt, Mantissa.raw, hc, hpoint]

theorem longest_fraction (h : ∀ c ∈ text.head?, c.isDigit = false) :
    Longest (1 + point * (one Char.isDigit)∗) text (mantissaAt text).raw := by
  cases text with
  | nil => exact .one_nil not_starts_one_mul_nil
  | cons c cs =>
    have hc := h c rfl
    by_cases hpoint : c = '.'
    · rw [hpoint]
      exact .one_add (.cons rfl (.takeWhile Char.isDigit cs))
    · have hnone : ¬ Starts (point * (one Char.isDigit)∗) (c :: cs) := by
        simp [point, starts_one_mul_cons, hpoint]
      have hraw : (mantissaAt (c :: cs)).raw = [] := by
        simp [mantissaAt, Mantissa.raw, hc, hpoint]
      rw [hraw]
      exact .one_nil hnone

theorem head?_fraction {w : List Char} (h : w ∈ 1 + point * (one Char.isDigit)∗) :
    ∀ c ∈ w.head?, c.isDigit = false := by
  rcases h with rfl | h
  · simp
  · obtain ⟨c, hc, v, _, rfl⟩ := mem_one_mul.1 h
    obtain rfl : c = '.' := of_decide_eq_true hc
    simp

/-- The mantissa that is cut off is the longest, if there is one. -/
theorem longest_mantissa (h : Starts numberStart text) :
    Longest mantissa text (mantissaAt text).raw := by
  cases text with
  | nil =>
    rw [numberStart, starts_add] at h
    exact (h.elim not_starts_one_nil not_starts_one_mul_nil).elim
  | cons c cs =>
    cases hc : c.isDigit with
    | true =>
      have hpoint : ¬ Starts (point * digits) (c :: cs) := by
        rw [point, starts_one_mul_cons, decide_eq_true_eq]
        rintro ⟨rfl, _⟩
        cases hc
      rw [mantissa_raw, List.takeWhile_cons_of_pos hc, List.dropWhile_cons_of_pos hc, mantissa,
        digits, mul_assoc]
      exact .add_right (.cons hc (.takeWhile_append
        (longest_fraction (isDigit_head?_dropWhile cs)) fun _ => head?_fraction)) hpoint
    | false =>
      rw [numberStart, starts_add, starts_one_cons, hc, point, starts_one_mul_cons] at h
      obtain ⟨hpoint, w, ⟨d, hd, rfl⟩, hfront⟩ := h.resolve_left Bool.false_ne_true
      obtain rfl : c = '.' := of_decide_eq_true hpoint
      obtain ⟨ds, rfl⟩ := hfront
      have hdigits : Starts digits ([d] ++ ds) := starts_digits_cons.2 hd
      have hwhole {L : Language Char} : ¬ Starts (digits * L) ('.' :: ([d] ++ ds)) := by
        rw [digits, mul_assoc, starts_one_mul_cons]
        exact fun hstart => Bool.false_ne_true hstart.1
      exact .add_left (.cons rfl (longest_digits hdigits)) hwhole

theorem longest_exponent {e : Exponent} (h : exponent? text = some e) (hdigits : e.digits ≠ []) :
    Longest exponent text e.raw := by
  rw [exponent, exponentLead, mul_assoc, add_mul, one_mul]
  fun_cases exponent? text with
  | case1 mark hmark ds | case2 mark hmark ds =>
    obtain rfl : _ = e := by simpa [exponent?, hmark] using h
    have hds := longest_digits (starts_digits_iff.2 hdigits)
    refine .cons (by simpa using hmark) (.add_right (.cons (by decide) hds) ?_)
    simp [starts_digits_cons]
  | case3 mark hmark ds hplus hminus =>
    obtain rfl : _ = e := by simpa [exponent?, hmark] using h
    have hds := longest_digits (starts_digits_iff.2 hdigits)
    exact .cons (by simpa using hmark) (.add_left hds (not_starts_sign_mul hplus hminus))
  | case4 mark cs hmark => simp [exponent?, hmark] at h
  | case5 => cases h

/-- Without digits its mark and sign are all there is of an exponent. -/
theorem longest_exponentLead {e : Exponent} (h : exponent? text = some e)
    (hdigits : e.digits = []) : Longest exponentLead text e.raw ∧ ¬ Starts exponent text := by
  rw [Exponent.raw, hdigits, List.append_nil, exponent, exponentLead, mul_assoc, add_mul, one_mul]
  fun_cases exponent? text with
  | case1 mark hmark ds | case2 mark hmark ds =>
    obtain rfl : _ = e := by simpa [exponent?, hmark] using h
    refine ⟨.cons (by simpa using hmark) (.one_add (.one_cons (by decide) ds)), ?_⟩
    have hds : ¬ Starts digits ds := mt starts_digits_iff.1 (not_not_intro hdigits)
    rw [exponentMark, starts_one_mul_cons, starts_add, starts_digits_cons, sign,
      starts_one_mul_cons]
    simp [hds]
  | case3 mark hmark ds hplus hminus =>
    obtain rfl : _ = e := by simpa [exponent?, hmark] using h
    have hds : ¬ Starts digits ds := mt starts_digits_iff.1 (not_not_intro hdigits)
    have hsign := not_starts_sign_mul (L := 1) hplus hminus
    rw [mul_one] at hsign
    refine ⟨.cons (by simpa using hmark) (.one_nil hsign), ?_⟩
    rw [exponentMark, starts_one_mul_cons, starts_add]
    simp [hds, not_starts_sign_mul hplus hminus]
  | case4 mark cs hmark => simp [exponent?, hmark] at h
  | case5 => cases h

/-! ## Literals -/

theorem mem_mantissa_raw (text : List Char) :
    '.' ∈ (mantissaAt text).raw ↔ (mantissaAt text).hasPoint = true := by
  obtain ⟨hwhole, -, -⟩ := mantissa_parts text
  have hpoint : '.' ∉ (mantissaAt text).whole :=
    fun hmem => Bool.false_ne_true (hwhole _ hmem)
  rw [Mantissa.raw]
  split <;> simp [*]

theorem floatValue_raw (text : List Char) :
    floatValue (mantissaAt text).raw = (decimal (mantissaAt text) 0).toFloat := by
  have hagain : mantissaAt ((mantissaAt text).raw ++ []) = { mantissaAt text with rest := [] } :=
    mantissa_again text (by simp)
  rw [List.append_nil] at hagain
  rw [floatValue, hagain]
  rfl

theorem floatValue_raw_append {e : Exponent} (h : exponent? (mantissaAt text).rest = some e) :
    floatValue ((mantissaAt text).raw ++ e.raw) =
      (decimal (mantissaAt text) e.value).toFloat := by
  rw [floatValue, mantissa_again text (head?_exponent_raw h)]
  simp only [exponent?_again h]
  rfl

theorem scan_of_radixMark (h : Starts radixMark text) :
    Longest radixLiteral text (scan text).raw ∧
      (scan text).outcome = integerOutcome (scan text).raw := by
  cases text with
  | nil => exact absurd h.of_mul not_starts_one_nil
  | cons c cs =>
    obtain ⟨rfl, d, ds, rfl, hd⟩ := starts_radixMark_cons.1 h
    rw [scan, if_pos hd]
    exact ⟨longest_radixLiteral hd, rfl⟩

theorem scan_of_not_radixMark (h : ¬ Starts radixMark text) :
    scan text = ofParts (mantissaAt text) (exponent? (mantissaAt text).rest) := by
  rw [scan_eq_plain, plain_eq_ofParts]
  rintro c cs rfl
  rw [← Option.not_isSome_iff_eq_none]
  exact fun hsome => h (starts_radixMark_cons.2 ⟨rfl, c, cs, rfl, hsome⟩)

/-- The literal that the scanner cuts off is the one that the grammar tells. -/
theorem lexesNumber_scan (h : Starts numberStart text) :
    LexesNumber text (scan text).raw (scan text).outcome := by
  by_cases hradix : Starts radixMark text
  · obtain ⟨hlongest, houtcome⟩ := scan_of_radixMark hradix
    rw [houtcome]
    exact .radix hradix hlongest
  · have hmantissa := longest_mantissa h
    have htext := (mantissa_raw_append_rest text).symm
    rw [scan_of_not_radixMark hradix]
    cases hexponent : exponent? (mantissaAt text).rest with
    | some e =>
      by_cases hdigits : e.digits = []
      · obtain ⟨hlead, hnone⟩ := longest_exponentLead hexponent hdigits
        rw [ofParts, if_pos hdigits]
        exact .malformed hradix hmantissa htext hlead hnone
      · rw [ofParts, if_neg hdigits, ← floatValue_raw_append hexponent]
        exact .power hradix hmantissa htext (longest_exponent hexponent hdigits)
    | none =>
      have hmark := exponent?_eq_none_iff.1 hexponent
      by_cases hpoint : (mantissaAt text).hasPoint = true
      · rw [ofParts, if_pos hpoint, ← floatValue_raw]
        exact .fraction hradix hmantissa htext hmark ((mem_mantissa_raw text).2 hpoint)
      · rw [ofParts, if_neg hpoint]
        exact .integer hradix hmantissa htext hmark (mt (mem_mantissa_raw text).1 hpoint)

theorem exists_exponent? (h : Starts exponentMark text) : ∃ e, exponent? text = some e :=
  Option.ne_none_iff_exists'.1 (mt exponent?_eq_none_iff.1 (not_not_intro h))

/-- There is one longest mantissa, and one text behind it. -/
theorem mantissaAt_of_longest {m rest : List Char} (hstart : Starts numberStart text)
    (hm : Longest mantissa text m) (htext : text = m ++ rest) :
    (mantissaAt text).raw = m ∧ (mantissaAt text).rest = rest := by
  have hraw := (longest_mantissa hstart).unique hm
  have hcut := mantissa_raw_append_rest text
  rw [hraw] at hcut
  exact ⟨hraw, List.append_cancel_left (hcut.trans htext)⟩

theorem LexesNumber.scan_eq (h : LexesNumber text raw outcome) (hstart : Starts numberStart text) :
    (scan text).raw = raw ∧ (scan text).outcome = outcome := by
  cases h with
  | radix hradix hraw =>
    obtain ⟨hlongest, houtcome⟩ := scan_of_radixMark hradix
    rw [houtcome, hlongest.unique hraw]
    exact ⟨rfl, rfl⟩
  | integer hradix hm htext hmark hpoint =>
    obtain ⟨rfl, rfl⟩ := mantissaAt_of_longest hstart hm htext
    rw [scan_of_not_radixMark hradix, exponent?_eq_none_iff.2 hmark, ofParts,
      if_neg (mt (mem_mantissa_raw text).2 hpoint)]
    exact ⟨rfl, rfl⟩
  | fraction hradix hm htext hmark hpoint =>
    obtain ⟨rfl, rfl⟩ := mantissaAt_of_longest hstart hm htext
    rw [scan_of_not_radixMark hradix, exponent?_eq_none_iff.2 hmark, ofParts,
      if_pos ((mem_mantissa_raw text).1 hpoint), floatValue_raw]
    exact ⟨rfl, rfl⟩
  | power hradix hm htext he =>
    obtain ⟨rfl, rfl⟩ := mantissaAt_of_longest hstart hm htext
    obtain ⟨e, hexponent⟩ := exists_exponent? he.starts.of_mul.of_mul
    -- A mark without digits behind it would start no exponent.
    have hdigits : e.digits ≠ [] := fun hnone =>
      (longest_exponentLead hexponent hnone).2 he.starts
    obtain rfl := he.unique (longest_exponent hexponent hdigits)
    rw [scan_of_not_radixMark hradix, hexponent, ofParts, if_neg hdigits,
      floatValue_raw_append hexponent]
    exact ⟨rfl, rfl⟩
  | malformed hradix hm htext he hnone =>
    obtain ⟨rfl, rfl⟩ := mantissaAt_of_longest hstart hm htext
    obtain ⟨e, hexponent⟩ := exists_exponent? he.starts.of_mul
    have hdigits : e.digits = [] := by
      by_contra hdigits
      exact hnone (longest_exponent hexponent hdigits).starts
    obtain rfl := he.unique (longest_exponentLead hexponent hdigits).1
    rw [scan_of_not_radixMark hradix, hexponent, ofParts, if_pos hdigits]
    exact ⟨rfl, rfl⟩

/-! ## Floating-point numbers -/

theorem of_mem_digits {w : List Char} (h : w ∈ digits) : ∀ c ∈ w, c.isDigit = true := by
  obtain ⟨c, hc, v, hv, rfl⟩ := mem_one_mul.1 h
  exact List.forall_mem_cons.2 ⟨hc, mem_kstar_one.1 hv⟩

theorem of_mem_mantissa {w : List Char} (h : w ∈ mantissa) :
    ∀ c ∈ w, c.isDigit = true ∨ c = '.' := by
  have hpoint {L : Language Char} (hL : ∀ v ∈ L, ∀ c ∈ v, c.isDigit = true) {v : List Char}
      (hv : v ∈ point * L) : ∀ c ∈ v, c.isDigit = true ∨ c = '.' := by
    obtain ⟨c, hc, u, hu, rfl⟩ := mem_one_mul.1 hv
    exact List.forall_mem_cons.2 ⟨.inr (of_decide_eq_true hc), fun c hc => .inl (hL u hu c hc)⟩
  rcases h with h | h
  · exact hpoint (fun _ => of_mem_digits) h
  · obtain ⟨a, ha, b, hb, rfl⟩ := Language.mem_mul.1 h
    refine List.forall_mem_append.2 ⟨fun c hc => .inl (of_mem_digits ha c hc), ?_⟩
    rcases hb with rfl | hb
    · simp
    · exact hpoint (fun _ => mem_kstar_one.1) hb

theorem not_mem_mul_exponent {w : List Char} (h : w ∈ mantissa) (hpoint : '.' ∉ w) :
    w ∉ mantissa * exponent := by
  intro hmem
  obtain ⟨a, -, b, hb, rfl⟩ := Language.mem_mul.1 hmem
  rw [exponent, exponentLead, mul_assoc] at hb
  obtain ⟨c, hc, v, -, rfl⟩ := mem_one_mul.1 hb
  have hmark : c ∈ a ++ c :: v := List.mem_append_right _ List.mem_cons_self
  rcases of_mem_mantissa h c hmark with hdigit | rfl
  · rcases List.mem_pair.1 (List.contains_iff_mem.1 hc) with rfl | rfl <;> cases hdigit
  · exact hpoint hmark

theorem kind_of_integerOutcome {w : List Char} {content : Content}
    (h : integerOutcome w = .ok content) : content.kind = .int := by
  rw [integerOutcome] at h
  split at h <;> cases h
  rfl

/-- A number is in floating point exactly if it has no radix mark and a point or an exponent. -/
theorem LexesNumber.kind_eq_float_iff {content : Content}
    (h : LexesNumber text raw (.ok content)) :
    content.kind = .float ↔
      ¬ Starts radixMark text ∧ ('.' ∈ raw ∨ raw ∈ mantissa * exponent) := by
  generalize houtcome : Except.ok content = outcome at h
  cases h with
  | radix hradix _ => simp [kind_of_integerOutcome houtcome.symm, hradix]
  | integer _ hm _ _ hpoint =>
    simp [kind_of_integerOutcome houtcome.symm, hpoint, not_mem_mul_exponent hm.mem hpoint]
  | fraction hradix _ _ _ hpoint =>
    cases houtcome
    simp [Content.kind, hradix, hpoint]
  | power hradix hm _ he =>
    cases houtcome
    simp [Content.kind, hradix, Language.append_mem_mul hm.mem he.mem]
  | malformed => cases houtcome

theorem mem_floatNumber {w : List Char} (h : w ∈ mantissa * (1 + exponent)) : w ∈ floatNumber := by
  obtain ⟨m, hm, e, he, rfl⟩ := Language.mem_mul.1 h
  refine Language.append_mem_mul (a := []) (.inl rfl) (Language.append_mem_mul ?_ he)
  rcases hm with hm | hm
  · refine .inr ?_
    rw [mul_assoc]
    exact Language.append_mem_mul (a := []) (Language.nil_mem_kstar _) hm
  · rw [mul_add, mul_one, ← mul_assoc] at hm
    exact .inl hm

/-- What is converted to a floating-point number is the text of one. -/
theorem LexesNumber.mem_floatNumber {content : Content} (h : LexesNumber text raw (.ok content))
    (hkind : content.kind = .float) : raw ∈ floatNumber := by
  apply Lexeme.mem_floatNumber
  generalize houtcome : Except.ok content = outcome at h
  cases h with
  | radix | integer =>
    rw [kind_of_integerOutcome houtcome.symm] at hkind
    cases hkind
  | fraction _ hm =>
    rw [← List.append_nil raw]
    exact Language.append_mem_mul hm.mem (.inl rfl)
  | power _ hm _ he => exact Language.append_mem_mul hm.mem (.inr he.mem)
  | malformed => cases houtcome

end PairLisp.Lexeme
