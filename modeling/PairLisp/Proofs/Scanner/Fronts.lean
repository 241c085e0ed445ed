import Mathlib.Data.List.TakeWhile
import PairLisp.Proofs.Scanner.Lexemes

/-! # Longest texts of a language

Which text of a language stands at the front, and how long the longest is, follows the way in which
the language is put together. A run of characters of one sort is as long as it can be if what comes
after it cannot start with one more of them.
-/

open Computability

namespace PairLisp.Lexeme

variable {p : Char → Bool} {c : Char} {cs text rest v w : List Char} {L M : Language Char}

/-! ## Members -/

theorem mem_one_mul : w ∈ one p * L ↔ ∃ c, p c = true ∧ ∃ v ∈ L, w = c :: v := by
  rw [Language.mem_mul]
  constructor
  · rintro ⟨_, ⟨c, hc, rfl⟩, v, hv, rfl⟩
    exact ⟨c, hc, v, hv, rfl⟩
  · rintro ⟨c, hc, v, hv, rfl⟩
    exact ⟨[c], ⟨c, hc, rfl⟩, v, hv, rfl⟩

theorem mem_kstar_one : w ∈ (one p)∗ ↔ ∀ c ∈ w, p c = true := by
  rw [Language.mem_kstar]
  constructor
  · rintro ⟨ws, rfl, hws⟩ c hc
    obtain ⟨v, hv, hcv⟩ := List.mem_flatten.1 hc
    obtain ⟨d, hd, rfl⟩ := hws v hv
    rwa [List.mem_singleton.1 hcv]
  · intro h
    refine ⟨w.map fun c => [c], ?_, fun v hv => ?_⟩
    · rw [← List.flatMap_def, List.flatMap_singleton']
    · obtain ⟨c, hc, rfl⟩ := List.mem_map.1 hv
      exact ⟨c, h c hc, rfl⟩

/-! ## Starts -/

theorem Longest.starts (h : Longest L text w) : Starts L text := ⟨w, h.mem, h.front⟩

theorem starts_one : Starts 1 text := ⟨[], rfl, List.nil_prefix⟩

theorem starts_kstar : Starts L∗ text := ⟨[], Language.nil_mem_kstar L, List.nil_prefix⟩

theorem starts_add : Starts (L + M) text ↔ Starts L text ∨ Starts M text := by
  constructor
  · rintro ⟨w, hL | hM, hw⟩
    · exact .inl ⟨w, hL, hw⟩
    · exact .inr ⟨w, hM, hw⟩
  · rintro (⟨w, hL, hw⟩ | ⟨w, hM, hw⟩)
    · exact ⟨w, .inl hL, hw⟩
    · exact ⟨w, .inr hM, hw⟩

theorem Starts.of_mul (h : Starts (L * M) text) : Starts L text := by
  obtain ⟨_, hmem, hfront⟩ := h
  obtain ⟨a, ha, b, _, rfl⟩ := Language.mem_mul.1 hmem
  exact ⟨a, ha, (List.prefix_append a b).trans hfront⟩

theorem starts_one_mul_cons : Starts (one p * L) (c :: cs) ↔ p c = true ∧ Starts L cs := by
  constructor
  · rintro ⟨_, hmem, hw⟩
    obtain ⟨d, hd, v, hv, rfl⟩ := mem_one_mul.1 hmem
    obtain ⟨rfl, hfront⟩ := List.cons_prefix_cons.1 hw
    exact ⟨hd, v, hv, hfront⟩
  · rintro ⟨hc, v, hv, hfront⟩
    exact ⟨c :: v, mem_one_mul.2 ⟨c, hc, v, hv, rfl⟩, List.cons_prefix_cons.2 ⟨rfl, hfront⟩⟩

theorem not_starts_one_mul_nil : ¬ Starts (one p * L) [] := by
  rintro ⟨_, hmem, hw⟩
  obtain ⟨d, _, v, _, rfl⟩ := mem_one_mul.1 hmem
  exact absurd (List.prefix_nil.1 hw) (List.cons_ne_nil d v)

theorem starts_one_cons : Starts (one p) (c :: cs) ↔ p c = true := by
  rw [← mul_one (one p), starts_one_mul_cons, and_iff_left starts_one]

theorem not_starts_one_nil : ¬ Starts (one p) [] := by
  rw [← mul_one (one p)]
  exact not_starts_one_mul_nil

/-! ## Longest texts -/

namespace Longest

theorem unique (hw : Longest L text w) (hv : Longest L text v) : w = v := by
  have hle := hv.length_le w hw.mem hw.front
  exact (List.prefix_of_prefix_length_le hw.front hv.front hle).eq_of_length
    (Nat.le_antisymm hle (hw.length_le v hv.mem hv.front))

theorem cons (hc : p c = true) (h : Longest L cs w) : Longest (one p * L) (c :: cs) (c :: w) := by
  refine ⟨mem_one_mul.2 ⟨c, hc, w, h.mem, rfl⟩, List.cons_prefix_cons.2 ⟨rfl, h.front⟩, ?_⟩
  intro _ hmem hfront
  obtain ⟨d, _, v, hv, rfl⟩ := mem_one_mul.1 hmem
  exact Nat.succ_le_succ (h.length_le v hv (List.cons_prefix_cons.1 hfront).2)

theorem one_cons (hc : p c = true) (cs : List Char) : Longest (one p) (c :: cs) [c] := by
  refine ⟨⟨c, hc, rfl⟩, List.cons_prefix_cons.2 ⟨rfl, List.nil_prefix⟩, ?_⟩
  rintro v ⟨d, _, rfl⟩ _
  exact Nat.le_refl 1

theorem add_left (h : Longest L text w) (hM : ¬ Starts M text) : Longest (L + M) text w := by
  refine ⟨.inl h.mem, h.front, ?_⟩
  rintro v (hv | hv) hfront
  · exact h.length_le v hv hfront
  · exact absurd ⟨v, hv, hfront⟩ hM

theorem add_right (h : Longest M text w) (hL : ¬ Starts L text) : Longest (L + M) text w := by
  rw [add_comm]
  exact h.add_left hL

theorem one_add (h : Longest L text w) : Longest (1 + L) text w := by
  refine ⟨.inr h.mem, h.front, ?_⟩
  rintro v (rfl | hv) hfront
  · exact Nat.zero_le _
  · exact h.length_le v hv hfront

theorem one_nil (hL : ¬ Starts L text) : Longest (1 + L) text [] := by
  refine ⟨.inl rfl, List.nil_prefix, ?_⟩
  rintro v (rfl | hv) hfront
  · exact Nat.le_refl 0
  · exact absurd ⟨v, hv, hfront⟩ hL

theorem takeWhile_append (h : Longest L (text.dropWhile p) w)
    (hL : ∀ v ∈ L, ∀ c ∈ v.head?, p c = false) :
    Longest ((one p)∗ * L) text (text.takeWhile p ++ w) := by
  have hcut : text.takeWhile p ++ text.dropWhile p = text := List.takeWhile_append_dropWhile
  refine ⟨Language.append_mem_mul (mem_kstar_one.2 fun _ => List.mem_takeWhile_imp) h.mem, ?_, ?_⟩
  · obtain ⟨rest, hrest⟩ := h.front
    exact ⟨rest, by rw [List.append_assoc, hrest, hcut]⟩
  · intro v hv hfront
    obtain ⟨a, ha, b, hb, rfl⟩ := Language.mem_mul.1 hv
    rw [mem_kstar_one] at ha
    obtain ⟨rest, rfl⟩ := hfront
    rw [List.append_assoc, List.takeWhile_append_of_pos ha]
    rw [List.append_assoc, List.dropWhile_append_of_pos ha] at h
    cases b with
    | nil => simp
    | cons c b =>
      -- The run ends where the text after it starts.
      have hc : p c = false := hL _ hb c rfl
      simp only [List.cons_append, hc, List.takeWhile_cons, List.dropWhile_cons] at h ⊢
      have hle := h.length_le (c :: b) hb (List.prefix_append _ _)
      simpa using hle

theorem takeWhile (p : Char → Bool) (text : List Char) :
    Longest (one p)∗ text (text.takeWhile p) := by
  have hone : Longest 1 (text.dropWhile p) [] :=
    ⟨rfl, List.nil_prefix, fun v hv _ => Nat.le_of_eq (congrArg List.length hv)⟩
  have hrun := hone.takeWhile_append fun v hv c hc => by
    rw [(Language.mem_one v).1 hv] at hc
    cases hc
  rwa [mul_one, List.append_nil] at hrun

end Longest
end PairLisp.Lexeme
