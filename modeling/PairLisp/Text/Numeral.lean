/-! # Numerals in bases up to sixteen

Reading is positional and accepts both cases of the letters; writing uses `Nat.toDigits`, whose
letters are lower case. A text is a numeral only if it is non-empty and every character of it is a
digit of the base. Reading up to a limit looks no further than the first digit that leads past it,
so that its numbers stay small however long the text is; `readUpTo?_eq_filter` says that this finds
the same numbers.
-/

namespace PairLisp.Text.Numeral

/-- The value of a digit, the letters `a` to `f` of either case standing for ten to fifteen. -/
def digitValue (c : Char) : Option Nat :=
  if '0' ≤ c ∧ c ≤ '9' then some (c.toNat - 48)
  else if 'a' ≤ c ∧ c ≤ 'f' then some (c.toNat - 87)
  else if 'A' ≤ c ∧ c ≤ 'F' then some (c.toNat - 55)
  else none

def isDigitIn (base : Nat) (c : Char) : Bool := (digitValue c).any (· < base)

/-- The positional value, with characters that are no digits counting zero. -/
def value (base : Nat) (cs : List Char) : Nat :=
  cs.foldl (fun n c => n * base + (digitValue c).getD 0) 0

def read? (base : Nat) (cs : List Char) : Option Nat :=
  if cs ≠ [] ∧ cs.all (isDigitIn base) = true then some (value base cs) else none

/-- One more digit behind a number, if it is a digit of the base and keeps within the limit. -/
def appendUpTo? (base limit n : Nat) (c : Char) : Option Nat :=
  let next := n * base + (digitValue c).getD 0
  if isDigitIn base c = true ∧ next ≤ limit then some next else none

/-- The number that a numeral denotes, if it is at most `limit`. -/
def readUpTo? (base limit : Nat) (cs : List Char) : Option Nat :=
  if cs = [] then none else cs.foldlM (appendUpTo? base limit) 0

theorem value_append_singleton (base : Nat) (cs : List Char) (c : Char) :
    value base (cs ++ [c]) = value base cs * base + (digitValue c).getD 0 := by
  simp [value]

theorem read?_eq_some_iff {base n : Nat} {cs : List Char} :
    read? base cs = some n ↔ cs ≠ [] ∧ (∀ c ∈ cs, isDigitIn base c) ∧ value base cs = n := by
  simp only [read?, List.all_eq_true]
  split <;> grind

theorem le_foldl_digits {base n : Nat} {cs : List Char} (h : ∀ c ∈ cs, isDigitIn base c = true) :
    n ≤ cs.foldl (fun n c => n * base + (digitValue c).getD 0) n := by
  induction cs generalizing n with
  | nil => exact Nat.le_refl n
  | cons c cs ih =>
    have hc : isDigitIn base c = true := h c (by simp only [List.mem_cons, true_or])
    have hb : 1 ≤ base := by
      simp only [isDigitIn] at hc
      cases base with
      | zero => cases hd : digitValue c <;> simp [hd] at hc
      | succ b => exact Nat.le_add_left 1 b
    have hn : n ≤ n * base + (digitValue c).getD 0 :=
      Nat.le_trans (Nat.le_mul_of_pos_right n hb) (Nat.le_add_right _ _)
    exact Nat.le_trans hn (ih fun d hd => h d (List.mem_cons_of_mem c hd))

theorem foldlM_appendUpTo? {base limit n : Nat} {cs : List Char} (hn : n ≤ limit) :
    cs.foldlM (appendUpTo? base limit) n =
      let whole := cs.foldl (fun n c => n * base + (digitValue c).getD 0) n
      if cs.all (isDigitIn base) = true ∧ whole ≤ limit then some whole else none := by
  induction cs generalizing n with
  | nil => simp [hn]
  | cons c cs ih =>
    simp only [List.foldlM_cons, List.foldl_cons, List.all_cons, appendUpTo?, Bool.and_eq_true]
    by_cases hc : isDigitIn base c = true
    · by_cases hle : n * base + (digitValue c).getD 0 ≤ limit
      · simpa [hc, hle] using ih hle
      · by_cases hcs : cs.all (isDigitIn base) = true
        · have hup := le_foldl_digits (n := n * base + (digitValue c).getD 0)
            (List.all_eq_true.1 hcs)
          simp [hle, Nat.not_le_of_lt (Nat.lt_of_lt_of_le (Nat.lt_of_not_le hle) hup)]
        · simp only [hle, hcs]
          simp
    · simp [hc]

theorem readUpTo?_eq_filter (base limit : Nat) (cs : List Char) :
    readUpTo? base limit cs = (read? base cs).filter (· ≤ limit) := by
  by_cases h : cs = []
  · simp [readUpTo?, read?, h]
  · by_cases hcs : cs.all (isDigitIn base) = true <;>
      simp [readUpTo?, read?, value, h, hcs, foldlM_appendUpTo?, Option.filter]

def padded (width n : Nat) : List Char :=
  List.replicate (width - (Nat.toDigits 10 n).length) '0' ++ Nat.toDigits 10 n

end PairLisp.Text.Numeral
