import PairLisp.Decimal.Layout
import PairLisp.Proofs.Decimal.Values
import PairLisp.Proofs.Scanner.Literals

/-! # The numbers that decimal texts denote

A decimal text is read exactly: its digits make a natural number, the digits behind the point say
how far that is to be divided, and the exponent is a power of ten. What a layout writes is a whole
number, digits around a point, or a number in exponent form, and read so it is the number that was
written.
-/

namespace PairLisp

open Text.Numeral

namespace Text.Numeral

/-- The number that digits denote, with a point somewhere among them or none. -/
def fixed? (cs : List Char) : Option ℚ :=
  let fraction := (cs.dropWhile (· ≠ '.')).tail
  (read? 10 (cs.takeWhile (· ≠ '.') ++ fraction)).map fun n : Nat => (n : ℚ) / 10 ^ fraction.length

def signed? : List Char → Option Int
  | '-' :: ds => (read? 10 ds).map fun n : Nat => -(n : Int)
  | '+' :: ds => (read? 10 ds).map Int.ofNat
  | ds => (read? 10 ds).map Int.ofNat

/-- The number that a decimal text denotes, with a power of ten behind a mark or none. -/
def rational? (cs : List Char) : Option ℚ :=
  match cs.dropWhile (· ≠ 'e') with
  | [] => fixed? cs
  | _ :: power => do
    let mantissa ← fixed? (cs.takeWhile (· ≠ 'e'))
    let power ← signed? power
    return mantissa * 10 ^ power

def pointed (fs : List Char) : List Char := if fs = [] then [] else '.' :: fs

/-- One digit before the point, if there is one, then the mark, a sign and at least two digits. -/
def IsExponentForm (cs : List Char) (power : Int) : Prop :=
  ∃ c fs sign ps, cs = c :: (pointed fs ++ 'e' :: sign :: ps) ∧
    c.isDigit = true ∧ (∀ d ∈ fs, d.isDigit = true) ∧ 2 ≤ ps.length ∧
    (∀ p ∈ ps, p.isDigit = true) ∧
    (sign = '+' ∧ power = value 10 ps ∨ sign = '-' ∧ power = -value 10 ps)

variable {cs ws fs ps : List Char}

theorem read?_of_digits (hne : cs ≠ []) (h : ∀ c ∈ cs, c.isDigit = true) :
    read? 10 cs = some (value 10 cs) :=
  read?_eq_some_iff.2 ⟨hne, fun c hc => isDigitIn_ten (h c hc), rfl⟩

theorem fixed?_of_digits (hne : ws ≠ []) (hws : ∀ c ∈ ws, c.isDigit = true) :
    fixed? ws = some (value 10 ws : ℚ) := by
  have hpoint : ∀ c ∈ ws, decide (c ≠ '.') = true :=
    fun c hc => decide_eq_true (ne_of_isDigit (hws c hc) rfl)
  have hdrop : ws.dropWhile (· ≠ '.') = [] := List.dropWhile_eq_nil_iff.2 hpoint
  have htake : ws.takeWhile (· ≠ '.') = ws := List.takeWhile_eq_self_iff.2 hpoint
  rw [fixed?, hdrop, htake, List.tail_nil, List.append_nil, read?_of_digits hne hws,
    Option.map_some, List.length_nil, pow_zero, div_one]

theorem fixed?_of_point (hne : ws ≠ []) (hws : ∀ c ∈ ws, c.isDigit = true)
    (hfs : ∀ c ∈ fs, c.isDigit = true) :
    fixed? (ws ++ '.' :: fs) = some ((value 10 (ws ++ fs) : ℚ) / 10 ^ fs.length) := by
  have hpoint : ∀ c ∈ ws, decide (c ≠ '.') = true :=
    fun c hc => decide_eq_true (ne_of_isDigit (hws c hc) rfl)
  have hstop : ∀ d ∈ ('.' :: fs).head?, decide (d ≠ '.') = false := by simp
  have hdigits : ∀ c ∈ ws ++ fs, c.isDigit = true := List.forall_mem_append.2 ⟨hws, hfs⟩
  rw [fixed?, dropWhile_append_stop hpoint hstop, takeWhile_append_stop hpoint hstop,
    List.tail_cons, read?_of_digits (by simp [hne]) hdigits, Option.map_some]

theorem fixed?_of_pointed {c : Char} (hc : c.isDigit = true) (hfs : ∀ d ∈ fs, d.isDigit = true) :
    fixed? (c :: pointed fs) = some ((value 10 (c :: fs) : ℚ) / 10 ^ fs.length) := by
  have hone : ∀ d ∈ [c], d.isDigit = true := by simpa using hc
  rw [pointed]
  split
  · next hnil =>
    rw [hnil, fixed?_of_digits (List.cons_ne_nil c []) hone]
    simp
  · exact fixed?_of_point (List.cons_ne_nil c []) hone hfs

theorem rational?_of_not_mem (h : 'e' ∉ cs) : rational? cs = fixed? cs := by
  have hdrop : cs.dropWhile (· ≠ 'e') = [] :=
    List.dropWhile_eq_nil_iff.2 fun c hc => decide_eq_true (ne_of_mem_of_not_mem hc h)
  rw [rational?, hdrop]

theorem rational?_of_mark {q : ℚ} {power : List Char} {k : Int} (h : 'e' ∉ cs)
    (hq : fixed? cs = some q) (hk : signed? power = some k) :
    rational? (cs ++ 'e' :: power) = some (q * 10 ^ k) := by
  have hmark : ∀ c ∈ cs, decide (c ≠ 'e') = true :=
    fun c hc => decide_eq_true (ne_of_mem_of_not_mem hc h)
  have hstop : ∀ d ∈ ('e' :: power).head?, decide (d ≠ 'e') = false := by simp
  rw [rational?, dropWhile_append_stop hmark hstop, takeWhile_append_stop hmark hstop]
  simp only [hq, hk]
  rfl

theorem signed?_of_sign {sign : Char} {k : Int} (hne : ps ≠ [])
    (hps : ∀ p ∈ ps, p.isDigit = true)
    (hsign : sign = '+' ∧ k = value 10 ps ∨ sign = '-' ∧ k = -value 10 ps) :
    signed? (sign :: ps) = some k := by
  rcases hsign with ⟨rfl, rfl⟩ | ⟨rfl, rfl⟩ <;> simp [signed?, read?_of_digits hne hps]

theorem not_mem_of_digits (h : ∀ c ∈ cs, c.isDigit = true) : 'e' ∉ cs :=
  fun hmem => absurd (h _ hmem) (by decide)

theorem not_mem_pointed (h : ∀ c ∈ fs, c.isDigit = true) : 'e' ∉ pointed fs := by
  have hfs := not_mem_of_digits h
  rw [pointed]
  split <;> simp [hfs]

theorem IsExponentForm.signed?_eq {power : Int} (h : IsExponentForm cs power) :
    signed? (cs.dropWhile (· ≠ 'e')).tail = some power := by
  obtain ⟨c, fs, sign, ps, rfl, hc, hfs, hlength, hps, hsign⟩ := h
  have hmark : ∀ d ∈ c :: pointed fs, decide (d ≠ 'e') = true := by
    refine fun d hd => decide_eq_true (ne_of_mem_of_not_mem hd ?_)
    exact List.not_mem_cons_of_ne_of_not_mem (ne_of_isDigit hc rfl).symm (not_mem_pointed hfs)
  have hstop : ∀ d ∈ ('e' :: sign :: ps).head?, decide (d ≠ 'e') = false := by simp
  rw [← List.cons_append, dropWhile_append_stop hmark hstop, List.tail_cons]
  exact signed?_of_sign (List.ne_nil_of_length_pos (by omega)) hps hsign

theorem IsExponentForm.mem {power : Int} (h : IsExponentForm cs power) : 'e' ∈ cs := by
  obtain ⟨c, fs, sign, ps, rfl, -⟩ := h
  simp

/-! ## Digits with zeros -/

theorem value_replicate_zero (k : Nat) (cs : List Char) :
    value 10 (List.replicate k '0' ++ cs) = value 10 cs := by
  induction k with
  | zero => rfl
  | succ k ih =>
    rw [List.replicate_succ, List.cons_append]
    exact ih

theorem value_padded (w n : Nat) : value 10 (padded w n) = n := by
  rw [padded, value_replicate_zero, value_toDigits (by decide) (by decide)]

theorem isDigit_of_mem_replicate (k : Nat) : ∀ c ∈ List.replicate k '0', c.isDigit = true :=
  fun _ hc => List.eq_of_mem_replicate hc ▸ rfl

theorem isDigit_of_mem_padded (w n : Nat) : ∀ c ∈ padded w n, c.isDigit = true :=
  List.forall_mem_append.2 ⟨isDigit_of_mem_replicate _, isDigit_of_mem_toDigits⟩

theorem le_length_padded (w n : Nat) : w ≤ (padded w n).length := by
  rw [padded, List.length_append, List.length_replicate]
  omega

theorem toDigits_mul_pow {n : Nat} (hn : n ≠ 0) (k : Nat) :
    Nat.toDigits 10 (n * 10 ^ k) = Nat.toDigits 10 n ++ List.replicate k '0' := by
  induction k with
  | zero => simp
  | succ k ih =>
    have hpos : 0 < n * 10 ^ k := Nat.mul_pos (Nat.pos_of_ne_zero hn) (Nat.pow_pos (by decide))
    have hnext := Nat.toDigits_append_toDigits (b := 10) (by decide) hpos (by decide : 0 < 10)
    rw [ih] at hnext
    rw [Nat.pow_succ, ← Nat.mul_assoc, Nat.mul_comm, ← Nat.add_zero (10 * _), ← hnext,
      List.append_assoc, List.replicate_succ']
    rfl

end Text.Numeral

namespace Decimal

/-! ## What a layout writes -/

def InPlace (d : Decimal) : Prop := -4 ≤ d.leading ∧ d.leading < 6

/-- The forms of a text for a decimal: digits, digits around a point, or with an exponent. -/
inductive Written (d : Decimal) : List Char → Prop where
  | whole {n : Nat} : d.InPlace → n < 10 ^ 6 → (n : ℚ) = d.value → Written d (Nat.toDigits 10 n)
  | point {ws fs : List Char} : d.InPlace → ws ≠ [] → (∀ c ∈ ws, c.isDigit = true) →
      (∀ c ∈ fs, c.isDigit = true) → Text.Numeral.value 10 (ws ++ fs) = d.digits →
      d.exponent = -fs.length → Written d (ws ++ '.' :: fs)
  | power {c sign : Char} {fs ps : List Char} : ¬ d.InPlace → Nat.toDigits 10 d.digits = c :: fs →
      2 ≤ ps.length → (∀ p ∈ ps, p.isDigit = true) →
      (sign = '+' ∧ d.leading = Text.Numeral.value 10 ps ∨
        sign = '-' ∧ d.leading = -Text.Numeral.value 10 ps) →
      Written d (c :: (pointed fs ++ 'e' :: sign :: ps))

variable {d : Decimal} {text : List Char}

theorem exists_whole (hd : d.IsCanonical) (h : 0 ≤ d.exponent) : ∃ n : Nat, (n : ℚ) = d.value ∧
    Nat.toDigits 10 n = Nat.toDigits 10 d.digits ++ List.replicate d.exponent.toNat '0' := by
  obtain ⟨k, hk⟩ := Int.eq_ofNat_of_zero_le h
  refine ⟨d.digits * 10 ^ k, ?_, ?_⟩
  · rw [value, hk]
    push_cast
    rfl
  · rw [hk, Int.toNat_natCast]
    rcases hd with hd | rfl
    · exact toDigits_mul_pow (fun hzero => hd (by rw [hzero])) k
    · obtain rfl : k = 0 := by simpa using hk.symm
      rfl

theorem InPlace.lt_of_value_eq (h : d.InPlace) {n : Nat} (hn : (n : ℚ) = d.value) :
    n < 10 ^ 6 := by
  have hpow : (10 : ℚ) ^ (d.leading + 1) ≤ 10 ^ (6 : Int) :=
    zpow_le_zpow_right₀ (by norm_num) h.2
  have hlt : (n : ℚ) < 10 ^ (6 : Int) := hn ▸ d.value_lt_pow_leading.trans_le hpow
  exact_mod_cast hlt

theorem length_toDigits (d : Decimal) :
    ((Nat.toDigits 10 d.digits).length : Int) = d.leading - d.exponent + 1 := by
  rw [leading]
  omega

theorem written_pointAfter (h : d.InPlace) (hexponent : d.exponent < 0) (hleading : 0 ≤ d.leading) :
    Written d (Layout.pointAfter (d.leading.toNat + 1) (Nat.toDigits 10 d.digits)) := by
  have hlength := d.length_toDigits
  have hlonger : d.leading.toNat + 1 < (Nat.toDigits 10 d.digits).length := by omega
  rw [Layout.pointAfter, if_neg (Nat.not_le.2 hlonger)]
  refine .point h ?_ ?_ ?_ ?_ ?_
  · exact List.ne_nil_of_length_pos (by rw [List.length_take]; omega)
  · exact fun c hc => isDigit_of_mem_toDigits c (List.mem_of_mem_take hc)
  · exact fun c hc => isDigit_of_mem_toDigits c (List.mem_of_mem_drop hc)
  · rw [List.take_append_drop, value_toDigits (by decide) (by decide)]
  · rw [List.length_drop]
    omega

theorem written_zeros (h : d.InPlace) (hleading : d.leading < 0) : Written d
    ('0' :: '.' :: (List.replicate (-d.leading - 1).toNat '0' ++ Nat.toDigits 10 d.digits)) := by
  have hlength := d.length_toDigits
  refine .point h (List.cons_ne_nil _ []) (List.forall_mem_singleton.2 rfl) ?_ ?_ ?_
  · exact List.forall_mem_append.2 ⟨isDigit_of_mem_replicate _, isDigit_of_mem_toDigits⟩
  · exact (value_replicate_zero (_ + 1) _).trans (value_toDigits (by decide) (by decide) _)
  · rw [List.length_append, List.length_replicate]
    omega

theorem written_plain (hd : d.IsCanonical) (h : d.InPlace) : Written d (Layout.plain d) := by
  rw [Layout.plain]
  split
  · next hexponent =>
    obtain ⟨n, hn, hdigits⟩ := exists_whole hd hexponent
    rw [← hdigits]
    exact .whole h (h.lt_of_value_eq hn) hn
  · next hexponent =>
    split
    · next hleading => exact written_pointAfter h (Int.lt_of_not_ge hexponent) hleading
    · next hleading => exact written_zeros h (Int.lt_of_not_ge hleading)

theorem written_scientific (h : ¬ d.InPlace) : Written d (standardLayout.scientific d) := by
  rw [Layout.scientific]
  cases hdigits : Nat.toDigits 10 d.digits with
  | nil => exact absurd hdigits Nat.toDigits_ne_nil
  | cons c fs =>
    have hpoint : Layout.pointAfter 1 (c :: fs) = c :: pointed fs := by
      cases fs <;> rfl
    rw [hpoint]
    refine .power h hdigits (le_length_padded 2 _) (isDigit_of_mem_padded 2 _) ?_
    rw [value_padded]
    split
    · exact .inr ⟨rfl, by omega⟩
    · exact .inl ⟨rfl, by omega⟩

theorem written_write (hd : d.IsCanonical) : Written d (standardLayout.write d) := by
  rw [Layout.write]
  split
  · next h => exact written_plain hd h
  · next h => exact written_scientific h

namespace Written

theorem rational?_eq (h : Written d text) : rational? text = some d.value := by
  cases h with
  | @whole n _ _ hvalue =>
    rw [rational?_of_not_mem (not_mem_of_digits isDigit_of_mem_toDigits),
      fixed?_of_digits Nat.toDigits_ne_nil isDigit_of_mem_toDigits,
      value_toDigits (by decide) (by decide), hvalue]
  | @point ws fs _ hne hws hfs hdigits hexponent =>
    have hmark : 'e' ∉ ws ++ '.' :: fs := by
      simp [not_mem_of_digits hws, not_mem_of_digits hfs]
    rw [rational?_of_not_mem hmark, fixed?_of_point hne hws hfs, hdigits, value, hexponent,
      zpow_neg, zpow_natCast, div_eq_mul_inv]
  | @power c sign fs ps _ hdigits hlength hps hsign =>
    have hall : ∀ b ∈ c :: fs, b.isDigit = true := hdigits ▸ isDigit_of_mem_toDigits
    obtain ⟨hc, hfs⟩ := List.forall_mem_cons.1 hall
    have hvalue : Text.Numeral.value 10 (c :: fs) = d.digits := by
      rw [← hdigits, value_toDigits (by decide) (by decide)]
    have hleading : d.leading = d.exponent + fs.length := by
      rw [leading, hdigits, List.length_cons]
      omega
    have hmark : 'e' ∉ c :: pointed fs :=
      List.not_mem_cons_of_ne_of_not_mem (ne_of_isDigit hc rfl).symm (not_mem_pointed hfs)
    have hpower := signed?_of_sign (List.ne_nil_of_length_pos (by omega)) hps hsign
    rw [← List.cons_append, rational?_of_mark hmark (fixed?_of_pointed hc hfs) hpower, hvalue,
      hleading, zpow_add₀ (by norm_num), zpow_natCast, value]
    field_simp

theorem mem_iff (h : Written d text) : 'e' ∈ text ↔ ¬ d.InPlace := by
  cases h with
  | whole hplace => simp [hplace, not_mem_of_digits isDigit_of_mem_toDigits]
  | point hplace hne hws hfs => simp [hplace, not_mem_of_digits hws, not_mem_of_digits hfs]
  | power hplace => simp [hplace]

theorem isExponentForm_iff (h : Written d text) (p : Int) :
    IsExponentForm text p ↔ p = d.leading ∧ ¬ d.InPlace := by
  have hform (hplace : ¬ d.InPlace) : IsExponentForm text d.leading := by
    cases h with
    | whole h | point h => exact absurd h hplace
    | power _ hdigits hlength hps hsign =>
      have hall := hdigits ▸ isDigit_of_mem_toDigits (n := d.digits)
      obtain ⟨hc, hfs⟩ := List.forall_mem_cons.1 hall
      exact ⟨_, _, _, _, rfl, hc, hfs, hlength, hps, hsign⟩
  constructor
  · intro hp
    have hplace := h.mem_iff.1 hp.mem
    exact ⟨Option.some.inj (hp.signed?_eq.symm.trans (hform hplace).signed?_eq), hplace⟩
  · rintro ⟨rfl, hplace⟩
    exact hform hplace

end Written
end Decimal
end PairLisp
