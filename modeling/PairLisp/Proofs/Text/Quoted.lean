import Mathlib.Data.List.Basic
import PairLisp.Proofs.Scanner.QuotedText

/-! # Quoted text tells texts apart

What stands for a character between quotes shows where it ends, and none of it starts with a quote.
So quoted text, whatever follows it, determines what was quoted. This holds of every text, also of
those whose quoted form is no literal for them.
-/

namespace PairLisp.Text

open Token.StringLiteral (encode_cons)

variable {c d : Char} {cs ds xs ys : List Char}

theorem encodeChar_append_ne (c : Char) (ds xs : List Char) : encodeChar c ++ ds ≠ '"' :: xs := by
  rcases encodeChar_cases c with ⟨_, -, hc⟩ | hc | ⟨hc, -, hquote⟩
  · simp [hc]
  · simp [hc]
  · simp [hc, hquote]

theorem braced_append_inj
    (h : Nat.toDigits 16 c.toNat ++ '\x7d' :: xs = Nat.toDigits 16 d.toNat ++ '\x7d' :: ys) :
    c = d ∧ xs = ys := by
  have hdigits (e : Char) (zs : List Char) :
      (Nat.toDigits 16 e.toNat ++ '\x7d' :: zs).takeWhile (· ≠ '\x7d') =
        Nat.toDigits 16 e.toNat := by
    refine takeWhile_append_stop (fun a ha => ?_) (by simp)
    obtain ⟨k, rfl⟩ := exists_digitChar_of_mem_toDigits (by decide) ha
    exact decide_eq_true (Nat.digitChar_ne '\x7d' rfl)
  have hnumber : Nat.toDigits 16 c.toNat = Nat.toDigits 16 d.toNat := by
    rw [← hdigits c xs, h, hdigits]
  have hvalue := congrArg (Numeral.value 16) hnumber
  rw [Numeral.value_toDigits (by decide) (by decide),
    Numeral.value_toDigits (by decide) (by decide)] at hvalue
  rw [hnumber] at h
  exact ⟨Char.toNat_inj.1 hvalue, (List.cons.inj (List.append_cancel_left h)).2⟩

/-- What stands for a character shows where it ends. -/
theorem encodeChar_append_inj (h : encodeChar c ++ xs = encodeChar d ++ ys) : c = d ∧ xs = ys := by
  have hnumber : ∀ e ∈ shortEscapes, e.2 ≠ 'u' := by decide
  have hletters : ∀ e ∈ shortEscapes, ∀ f ∈ shortEscapes, e.2 = f.2 → e.1 = f.1 := by decide
  -- What comes first tells the three forms apart, so that both are of one form.
  rcases encodeChar_cases c with ⟨l, hl, hc⟩ | hc | ⟨hc, hplain, -⟩ <;>
    rcases encodeChar_cases d with ⟨m, hm, hd⟩ | hd | ⟨hd, hplain', -⟩ <;>
    rw [hc, hd] at h <;>
    simp only [List.cons_append, List.nil_append, List.append_assoc, List.cons.injEq,
      true_and] at h
  · exact ⟨hletters _ hl _ hm h.1, h.2⟩
  · exact absurd h.1 (hnumber _ hl)
  · exact absurd h.1.symm hplain'
  · exact absurd h.1.symm (hnumber _ hm)
  · exact braced_append_inj h
  · exact absurd h.1.symm hplain'
  · exact absurd h.1 hplain
  · exact absurd h.1 hplain
  · exact h

/-- Encoded characters end at the first quote that starts none of them. -/
theorem encode_append_inj (h : encode cs ++ '"' :: xs = encode ds ++ '"' :: ys) :
    cs = ds ∧ xs = ys := by
  induction cs generalizing ds with
  | nil =>
    cases ds with
    | nil => exact ⟨rfl, (List.cons.inj h).2⟩
    | cons d ds =>
      rw [encode_cons, List.append_assoc] at h
      exact absurd h.symm (encodeChar_append_ne d _ _)
  | cons c cs ih =>
    cases ds with
    | nil =>
      rw [encode_cons, List.append_assoc] at h
      exact absurd h (encodeChar_append_ne c _ _)
    | cons d ds =>
      rw [encode_cons, encode_cons, List.append_assoc, List.append_assoc] at h
      obtain ⟨rfl, hrest⟩ := encodeChar_append_inj h
      obtain ⟨rfl, hxs⟩ := ih hrest
      exact ⟨rfl, hxs⟩

theorem quoted_append_inj {s t : String} (h : (quoted s).toList ++ xs = (quoted t).toList ++ ys) :
    s = t ∧ xs = ys := by
  rw [toList_quoted, toList_quoted, List.cons_append, List.cons_append, List.append_assoc,
    List.append_assoc] at h
  obtain ⟨hs, hxs⟩ := encode_append_inj (List.cons.inj h).2
  exact ⟨String.toList_inj.1 hs, hxs⟩

end PairLisp.Text
