import Mathlib.Data.Nat.Digits.Lemmas
import PairLisp.Proofs.Scanner.LongestMatch

/-! # Integer literals

An integer literal denotes the value of its digits in the base that its start announces, and no
underscore counts. The scanner gives that value whenever it is small enough for a machine integer,
and refuses the literal in every other case, so that no value wraps around.
-/

open Computability

namespace PairLisp

namespace Text.Numeral

/-- The digits of a numeral, the lowest first. -/
def places (cs : List Char) : List Nat := cs.reverse.map fun c => (digitValue c).getD 0

theorem value_eq_ofDigits (base : Nat) (cs : List Char) :
    value base cs = Nat.ofDigits base (places cs) := by
  induction cs using List.reverseRecOn with
  | nil => rfl
  | append_singleton cs c ih =>
    have hplaces : places (cs ++ [c]) = (digitValue c).getD 0 :: places cs := by simp [places]
    rw [value_append_singleton, hplaces, Nat.ofDigits_cons, ← ih, Nat.add_comm, Nat.mul_comm]

end Text.Numeral

namespace Token.NumberLiteral

open Text.Numeral (isDigitIn places read?_eq_some_iff value_eq_ofDigits)

variable {c : Char} {raw digits : List Char} {base n : Nat}

/-! ## The value of a literal -/

def radixMarks : List (Char × Nat) :=
  [('x', 16), ('X', 16), ('o', 8), ('O', 8), ('b', 2), ('B', 2)]

/-- The base that the start of a literal announces, and the characters that stand for digits. -/
inductive IsForm : List Char → Nat → List Char → Prop where
  | zero : IsForm ['0'] 10 ['0']
  | decimal {c : Char} (cs : List Char) : c ≠ '0' → IsForm (c :: cs) 10 (c :: cs)
  | octal (c : Char) (cs : List Char) : IsForm ('0' :: c :: cs) 8 (c :: cs)
  | marked {c : Char} {base : Nat} (cs : List Char) : (c, base) ∈ radixMarks →
      IsForm ('0' :: c :: cs) base (cs.filter (· ≠ '_'))

/-- The literal is a numeral in the base that it announces, and `n` is its value. -/
def Denotes (raw : List Char) (n : Nat) : Prop :=
  ∃ base digits, IsForm raw base digits ∧ digits ≠ [] ∧ (∀ d ∈ digits, isDigitIn base d = true) ∧
    Nat.ofDigits base (places digits) = n

theorem radix?_eq_some_iff : radix? c = some base ↔ (c, base) ∈ radixMarks := by
  constructor
  · intro h
    unfold radix? at h
    split_ifs at h with hx ho hb
    all_goals
      obtain rfl := Option.some.inj h
      simp_all [radixMarks]
  · have hall : ∀ m ∈ radixMarks, radix? m.1 = some m.2 := by decide
    exact fun h => hall (c, base) h

theorem isForm_baseAndDigits (h : raw ≠ []) :
    IsForm raw (baseAndDigits raw).1 (baseAndDigits raw).2 := by
  fun_cases baseAndDigits raw with
  | case1 c cs base hmark => exact .marked cs (radix?_eq_some_iff.1 hmark)
  | case2 c cs => exact .octal c cs
  | case3 raw hshort =>
    cases raw with
    | nil => exact absurd rfl h
    | cons c cs =>
      by_cases hzero : c = '0'
      · subst hzero
        cases cs with
        | nil => exact .zero
        | cons d ds => exact (hshort d ds rfl).elim
      · exact .decimal cs hzero

theorem IsForm.baseAndDigits_eq (h : IsForm raw base digits)
    (hdigits : ∀ d ∈ digits, isDigitIn base d = true) : baseAndDigits raw = (base, digits) := by
  cases h with
  | zero => rfl
  | decimal cs hc =>
    unfold baseAndDigits
    split
    · next heq => exact absurd (List.cons.inj heq).1 hc
    · rfl
  | octal c cs =>
    have hmark : radix? c = none := by
      have hall : ∀ m ∈ radixMarks, isDigitIn 8 m.1 = false := by decide
      have hc := hdigits c List.mem_cons_self
      rw [Option.eq_none_iff_forall_ne_some]
      intro base hbase
      exact Bool.false_ne_true ((hall _ (radix?_eq_some_iff.1 hbase)).symm.trans hc)
    simp only [baseAndDigits, hmark]
  | marked cs hmark => simp only [baseAndDigits, radix?_eq_some_iff.2 hmark]

theorem natural?_eq_some_iff : natural? raw = some n ↔ Denotes raw n := by
  rw [natural?, read?_eq_some_iff, value_eq_ofDigits]
  constructor
  · rintro ⟨hne, hdigits, hvalue⟩
    refine ⟨_, _, isForm_baseAndDigits ?_, hne, hdigits, hvalue⟩
    rintro rfl
    exact hne rfl
  · rintro ⟨base, digits, hform, hne, hdigits, hvalue⟩
    rw [hform.baseAndDigits_eq hdigits]
    exact ⟨hne, hdigits, hvalue⟩

theorem toInt_ofNat_of_le (h : n ≤ 2 ^ 63 - 1) : (Int64.ofNat n).toInt = n :=
  Int64.toInt_ofNat_of_lt (by omega)

theorem integer?_eq_some_iff {m : Int64} :
    integer? raw = some m ↔ ∃ n, Denotes raw n ∧ n ≤ 2 ^ 63 - 1 ∧ m.toInt = n := by
  rw [integer?_eq_filter, Option.map_eq_some_iff]
  constructor
  · rintro ⟨n, hn, rfl⟩
    obtain ⟨hn, hle⟩ := Option.filter_eq_some_iff.1 hn
    have hle : n ≤ 2 ^ 63 - 1 := of_decide_eq_true hle
    exact ⟨n, natural?_eq_some_iff.1 hn, hle, toInt_ofNat_of_le hle⟩
  · rintro ⟨n, hn, hle, hm⟩
    have hsmall : decide (n ≤ largestInteger) = true := decide_eq_true hle
    refine ⟨n, Option.filter_eq_some_iff.2 ⟨natural?_eq_some_iff.2 hn, hsmall⟩, ?_⟩
    exact Int64.toInt_inj.1 ((toInt_ofNat_of_le hle).trans hm.symm)

theorem integer?_eq_none_iff :
    integer? raw = none ↔ ∀ n, Denotes raw n → 2 ^ 63 - 1 < n := by
  rw [Option.eq_none_iff_forall_ne_some]
  constructor
  · intro h n hn
    by_contra hlarge
    have hle : n ≤ 2 ^ 63 - 1 := Nat.le_of_not_lt hlarge
    exact h (Int64.ofNat n) (integer?_eq_some_iff.2 ⟨n, hn, hle, toInt_ofNat_of_le hle⟩)
  · intro h m hm
    obtain ⟨n, hn, hle, -⟩ := integer?_eq_some_iff.1 hm
    exact absurd (h n hn) (Nat.not_lt_of_le hle)

end Token.NumberLiteral

namespace Lexeme

open Token (Content)
open Token.NumberLiteral (Denotes integer?_eq_some_iff integer?_eq_none_iff)

variable {depth : Nat} {text raw : List Char} {outcome : Except ScanReason Content}

/-! ## Where integer literals stand -/

/-- The literal at the front of a text, if it can only be an integer: it has a radix mark, or it is
a mantissa without a point before no exponent. -/
inductive LexesInteger (text : List Char) : List Char → Prop where
  | marked {raw : List Char} : Starts radixMark text → Longest radixLiteral text raw →
      LexesInteger text raw
  | unmarked {raw rest : List Char} : Starts numberStart text → ¬ Starts radixMark text →
      Longest mantissa text raw → text = raw ++ rest → ¬ Starts exponentMark rest → '.' ∉ raw →
      LexesInteger text raw

theorem starts_numberStart_of_radixMark (h : Starts radixMark text) : Starts numberStart text := by
  cases text with
  | nil => exact absurd h.of_mul not_starts_one_nil
  | cons c cs =>
    obtain ⟨rfl, -⟩ := starts_radixMark_cons.1 h
    exact starts_numberStart_cons.2 (by simp [Scanner.startsNumber])

theorem LexesInteger.lexes (h : LexesInteger text raw) (depth : Nat) :
    Lexes depth text raw (integerOutcome raw) := by
  cases h with
  | marked hmark hraw =>
    exact .number (starts_numberStart_of_radixMark hmark) (.radix hmark hraw)
  | unmarked hstart hmark hraw htext hexponent hpoint =>
    exact .number hstart (.integer hmark hraw htext hexponent hpoint)

theorem LexesInteger.next_eq {s : Scanner} (h : LexesInteger s.rest raw) :
    s.next.1 = Scanner.report s.position raw (integerOutcome raw) := by
  have hlexes := h.lexes s.depth
  cases hrest : s.rest with
  | nil =>
    rw [hrest] at h
    cases h with
    | marked hmark => exact absurd hmark.of_mul not_starts_one_nil
    | unmarked hstart =>
      exact absurd (starts_add.1 hstart) (not_or.2 ⟨not_starts_one_nil, not_starts_one_mul_nil⟩)
  | cons c cs =>
    rw [hrest] at hlexes
    obtain ⟨hraw, houtcome⟩ := hlexes.piece_eq
    rw [Scanner.next_of_cons hrest, hraw, houtcome]

theorem Lexes.lexesInteger {n : Int64} (h : Lexes depth text raw (.ok (.int n))) :
    LexesInteger text raw := by
  generalize houtcome : Except.ok (Content.int n) = outcome at h
  cases h with
  | string =>
    rw [stringOutcome] at houtcome
    split at houtcome <;> cases houtcome
  | number hstart hnumber =>
    cases hnumber with
    | radix hmark hraw => exact .marked hmark hraw
    | integer hmark hraw htext hexponent hpoint =>
      exact .unmarked hstart hmark hraw htext hexponent hpoint
    | fraction | power | malformed => cases houtcome
  | _ => cases houtcome

end Lexeme

open Lexeme Token.NumberLiteral

/-- An integer literal gives the number that it denotes, or is refused as a whole if that is too
large or it denotes none; and every integer that the scanner gives is that of such a literal. -/
theorem next_of_lexesInteger (s : Scanner) :
    (∀ raw, LexesInteger s.rest raw →
      (∀ m : Int64, s.next.1 = .ok ⟨.int m, String.ofList raw, s.position⟩ ↔
        ∃ n, Denotes raw n ∧ n ≤ 2 ^ 63 - 1 ∧ m.toInt = n) ∧
      ((∀ n, Denotes raw n → 2 ^ 63 - 1 < n) →
        s.next.1 = .error ⟨.malformedNumber (String.ofList raw), s.position⟩)) ∧
    ∀ t m, s.next.1 = .ok t → t.content = .int m → LexesInteger s.rest t.raw.toList := by
  refine ⟨fun raw h => ?_, fun t m ht hm => ?_⟩
  · rw [h.next_eq, integerOutcome, ← integer?_eq_none_iff]
    simp only [← integer?_eq_some_iff]
    cases hvalue : integer? raw with
    | some k => simp [Scanner.report]
    | none => simp [Scanner.report]
  · cases hrest : s.rest with
    | nil =>
      rw [Scanner.next_of_nil hrest] at ht
      obtain rfl := Except.ok.inj ht
      cases hm
    | cons c cs =>
      have hlexes := lexes_piece s.depth c cs
      rw [Scanner.next_of_cons hrest] at ht
      cases hout : (Scanner.piece s.depth c cs).outcome with
      | error reason =>
        rw [hout] at ht
        cases ht
      | ok content =>
        rw [hout] at ht hlexes
        obtain rfl := Except.ok.inj ht
        obtain rfl : content = .int m := hm
        rw [String.toList_ofList]
        exact hlexes.lexesInteger

/-- A hexadecimal literal with an underscore, and a decimal one that is one above the limit. -/
theorem next_of_lexesInteger_of_limits :
    (LexesInteger (Scanner.ofText "0x_fF)").rest "0x_fF".toList ∧
      Denotes "0x_fF".toList 255 ∧
      (Scanner.ofText "0x_fF)").next.1 = .ok ⟨.int 255, "0x_fF", .start⟩) ∧
    (LexesInteger (Scanner.ofText "9223372036854775808").rest "9223372036854775808".toList ∧
      (∀ n, Denotes "9223372036854775808".toList n → 2 ^ 63 - 1 < n) ∧
      (Scanner.ofText "9223372036854775808").next.1 =
        .error ⟨.malformedNumber "9223372036854775808", .start⟩) := by
  have hhex : LexesInteger (Scanner.ofText "0x_fF)").rest "0x_fF".toList :=
    .marked (starts_radixMark_cons.2 ⟨rfl, 'x', _, rfl, rfl⟩) (longest_radixLiteral rfl)
  have hvalue : Denotes "0x_fF".toList 255 := natural?_eq_some_iff.1 (by decide +kernel)
  have hdecimal : LexesInteger (Scanner.ofText "9223372036854775808").rest
      "9223372036854775808".toList := by
    have hstart : Starts numberStart "9223372036854775808".toList :=
      starts_numberStart_cons.2 rfl
    have hmark : ¬ Starts radixMark "9223372036854775808".toList :=
      fun h => absurd (starts_radixMark_cons.1 h).1 (by decide)
    exact .unmarked hstart hmark (longest_mantissa hstart) (List.append_nil _).symm
      not_starts_one_nil (by decide +kernel)
  have hlarge : ∀ n, Denotes "9223372036854775808".toList n → 2 ^ 63 - 1 < n := by
    intro n hn
    have hlimit : natural? "9223372036854775808".toList = some (2 ^ 63) := by decide +kernel
    obtain rfl := Option.some.inj (hlimit.symm.trans (natural?_eq_some_iff.2 hn))
    decide
  obtain ⟨hhexes, -⟩ := next_of_lexesInteger (Scanner.ofText "0x_fF)")
  obtain ⟨hdecimals, -⟩ := next_of_lexesInteger (Scanner.ofText "9223372036854775808")
  exact ⟨⟨hhex, hvalue, ((hhexes _ hhex).1 255).2 ⟨255, hvalue, by decide, rfl⟩⟩,
    hdecimal, hlarge, (hdecimals _ hdecimal).2 hlarge⟩

end PairLisp
