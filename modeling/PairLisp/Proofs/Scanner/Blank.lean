import PairLisp.Proofs.Scanner.Spelling
import PairLisp.Text.Blank

/-! # White space

A blank character neither stands in a symbol nor starts another token, so white space is scanned
character by character. The four blanks of the language spell nothing at all, and every other one
spells an invalid token.
-/

namespace PairLisp

open Token
open Scanner (piece)

namespace Text

def blankCodes : List Nat := blankRanges.flatMap fun r => List.range' r.1 (r.2 + 1 - r.1)

theorem toNat_mem_blankCodes {c : Char} (h : isBlank c = true) : c.toNat ∈ blankCodes := by
  obtain ⟨r, hr, hlo, hhi⟩ := (isBlank_iff c).1 h
  refine List.mem_flatMap.2 ⟨r, hr, List.mem_range'_1.2 ⟨hlo, ?_⟩⟩
  omega

/-- A blank character neither stands in a symbol nor starts any other token. -/
theorem plain_of_isBlank {c : Char} (h : isBlank c = true) :
    isSymbolChar c = false ∧ c ≠ '(' ∧ c ≠ ')' ∧ c ≠ '"' := by
  have hall : ∀ n ∈ blankCodes, isSymbolChar (Char.ofNat n) = false ∧ Char.ofNat n ≠ '(' ∧
      Char.ofNat n ≠ ')' ∧ Char.ofNat n ≠ '"' := by
    decide +kernel
  have hc := hall c.toNat (toNat_mem_blankCodes h)
  rwa [Char.ofNat_toNat] at hc

end Text

theorem Scanner.startsNumber_of_not_isSymbolChar {c : Char} (h : isSymbolChar c = false)
    (cs : List Char) : startsNumber c cs = false := by
  have hdigit : c.isDigit = false := by
    rw [isSymbolChar, Bool.or_eq_false_iff] at h
    exact h.1
  have hpoint : c ≠ '.' := by
    rintro rfl
    revert h
    decide +kernel
  simp [startsNumber, hdigit, hpoint]

/-- White space that the scanner does not skip is an invalid token. -/
theorem Scanner.piece_of_foreign {c : Char} (h : Text.isBlank c = true) (hc : c ∉ spacing)
    (depth : Nat) (cs : List Char) : piece depth c cs = ⟨[c], cs, .ok .invalid⟩ := by
  obtain ⟨hsymbol, hopen, hclose, hquote⟩ := Text.plain_of_isBlank h
  have hnumber := startsNumber_of_not_isSymbolChar hsymbol cs
  have hstart : isSymbolStart c = false := by
    rw [isSymbolChar, Bool.or_eq_false_iff] at hsymbol
    exact hsymbol.2
  rw [mem_spacing_iff] at hc
  have hline : ¬(c = '\n' ∨ c = '\r') := fun hline => hc (.inr (.inr hline))
  have hspace : ¬(c = ' ' ∨ c = '\t') := fun hspace => hc (hspace.imp_right .inl)
  simp [piece, hopen, hclose, hquote, hnumber, hstart, hline, hspace]

namespace Spells

variable {m n : Nat} {cs : List Char} {ts : List Token}

theorem kind_of_isBlank (h : Spells m cs ts n) (hblank : ∀ c ∈ cs, Text.isBlank c = true) :
    ∀ t ∈ ts, t.kind = .invalid := by
  induction h with
  | nil => simp
  | @cons m n c cs content ts hout _ ih =>
    obtain ⟨hc, hcs⟩ := List.forall_mem_cons.1 hblank
    have hpiece : (piece m c cs = ⟨[c], cs, .ok .whitespace⟩ ∨
        piece m c cs = ⟨[c], cs, .ok .newline⟩) ∨ piece m c cs = ⟨[c], cs, .ok .invalid⟩ := by
      by_cases hspacing : c ∈ Scanner.spacing
      · exact .inl (Scanner.piece_of_mem_spacing hspacing m cs)
      · exact .inr (Scanner.piece_of_foreign hc hspacing m cs)
    rcases hpiece with (hpiece | hpiece) | hpiece
    all_goals
      rw [hpiece] at hout ih ⊢
      cases hout
      simpa [significant, isBlank, kind, Content.kind] using ih hcs

theorem of_spacing (h : ∀ c ∈ cs, c ∈ Scanner.spacing) (n : Nat) : Spells n cs [] n := by
  induction cs with
  | nil => exact .nil n
  | cons c cs ih =>
    obtain ⟨hc, hcs⟩ := List.forall_mem_cons.1 h
    exact (ih hcs).blank hc

theorem mem_spacing (h : Spells m cs [] n) : ∀ c ∈ cs, c ∈ Scanner.spacing := by
  generalize hts : ([] : List Token) = ts at h
  induction h with
  | nil => simp
  | @cons m n c cs content ts hout _ ih =>
    obtain ⟨hnone, rfl⟩ := List.append_eq_nil_iff.1 hts.symm
    have hend : content ≠ .endOfText := by
      rintro rfl
      exact Scanner.piece_outcome_ne_endOfText m c cs hout
    have hblank : content = .whitespace ∨ content = .newline := by
      cases content <;> simp [significant, isBlank, kind, Content.kind] at hnone hend ⊢
    obtain ⟨hc, hrest⟩ := Scanner.mem_spacing_of_piece hout hblank
    rw [hrest] at ih
    exact List.forall_mem_cons.2 ⟨hc, ih rfl⟩

end Spells
end PairLisp
