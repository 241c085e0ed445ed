import Mathlib.Data.List.DropRight
import PairLisp.Proofs.Scanner.Shift

/-! # Where tokens are in their text

The tokens of a run make up the text from its start on, without gaps, and each result is placed by
what comes before it: a line for every line end, a column for every character since the last one.
The scanner keeps count as it goes; here the place is counted on the text. In a text of fewer than
`2 ^ 32 - 1` characters no line or column outgrows 32 bits.
-/

namespace PairLisp

namespace Position

/-- The place behind some characters that a text starts with: one line further for each line end
among them, and one column further for each character after the last of these. -/
def behind (cs : List Char) : Position :=
  ⟨1 + breaks cs, 1 + (cs.rtakeWhile fun c => ¬(c = '\n' ∨ c = '\r')).length⟩

theorem behind_concat (cs : List Char) (c : Char) : behind (cs ++ [c]) = (behind cs).after c := by
  have hbreaks : breaks (cs ++ [c]) = breaks cs + breaks [c] := List.countP_append
  rw [after, behind, behind, List.rtakeWhile_concat, hbreaks, breaks_cons]
  by_cases hbreak : c = '\n' ∨ c = '\r'
  · simp [hbreak, breaks, Nat.add_assoc]
  · simp [hbreak, breaks, Nat.add_assoc]

/-- Moving on character by character leads to the place that counting gives. -/
theorem advance_start (cs : List Char) : start.advance cs = behind cs := by
  induction cs using List.reverseRecOn with
  | nil => rfl
  | append_singleton cs c ih => rw [advance_append, ih, behind_concat, advance_cons, advance_nil]

theorem line_behind_le (cs : List Char) : (behind cs).line ≤ 1 + cs.length :=
  Nat.add_le_add_left List.countP_le_length 1

theorem column_behind_le (cs : List Char) : (behind cs).column ≤ 1 + cs.length :=
  Nat.add_le_add_left (List.rtakeWhile_suffix _ cs).length_le 1

end Position

open Token

variable {text : String} {before after : List (Except ScanFault Token)}
  {r : Except ScanFault Token}

/-- The tokens before any result of a run are what the text starts with. -/
theorem among_prefix_of_cons (h : scanText text = before ++ r :: after) :
    chars (among before) <+: text.toList ∧ Scanner.place r = .behind (chars (among before)) := by
  rw [Scanner.scanText_eq_outcomes] at h
  obtain ⟨tokens, s, rfl, hsteps, hafter⟩ := Scanner.exists_tokens_of_outcomes h
  obtain ⟨t, hnext⟩ := Scanner.next_of_outcomes hafter
  obtain ⟨hrest, hposition⟩ := hsteps.rest_eq
  rw [among_map_ok, Scanner.place_of_next hnext, hposition]
  exact ⟨⟨s.rest, hrest.symm⟩, Position.advance_start _⟩

/-- The tokens of a whole run are what the text starts with, and all of it unless the run ends in a
fault. -/
theorem among_scanText (text : String) :
    chars (among (scanText text)) <+: text.toList ∧
      ∀ t, (scanText text).getLast? = some (.ok t) →
        t.kind = .endOfText ∧ chars (among (scanText text)) = text.toList := by
  obtain ⟨tokens, s, hsteps, hend⟩ := (Scanner.ofText text).exists_steps
  have htext : text.toList = chars tokens ++ s.rest := hsteps.rest_eq.1
  rw [Scanner.scanText_eq_outcomes, hsteps.outcomes_eq]
  rcases hend with hrest | ⟨fault, u, hnext⟩
  · rw [hrest, List.append_nil] at htext
    rw [Scanner.outcomes_of_nil hrest]
    have hall : chars (among (tokens.map .ok ++ [.ok ⟨.endOfText, "", s.position⟩])) =
        text.toList := by
      rw [among_append, among_map_ok, chars_append, htext]
      exact List.append_nil _
    refine ⟨hall ▸ List.prefix_rfl, fun t ht => ⟨?_, hall⟩⟩
    rw [List.getLast?_concat] at ht
    cases ht
    rfl
  · have hall : chars (among (tokens.map .ok ++ [.error fault])) = chars tokens := by
      rw [among_append, among_map_ok, chars_append]
      exact List.append_nil _
    rw [Scanner.outcomes_of_error hnext, hall]
    refine ⟨⟨s.rest, htext.symm⟩, fun t ht => ?_⟩
    rw [List.getLast?_concat] at ht
    cases ht

/-- What a run has given at any point is the text from its start on, and all of the text once it
ends without a fault. Every token and the fault are placed by the characters before them. Where
the text has fewer than `2 ^ 32 - 1` of these, every place that the scanner passes has a line and a
column that fit into 32 bits. -/
theorem scanText_places (text : String) :
    (∀ before after, scanText text = before ++ after → chars (among before) <+: text.toList) ∧
      (∀ t, (scanText text).getLast? = some (.ok t) →
        t.kind = .endOfText ∧ chars (among (scanText text)) = text.toList) ∧
      (∀ before r after, scanText text = before ++ r :: after →
        Scanner.place r = .behind (chars (among before))) ∧
      (text.length < 0xFFFFFFFF → ∀ cs, cs <+: text.toList →
        (Position.start.advance cs).line ≤ 0xFFFFFFFF ∧
          (Position.start.advance cs).column ≤ 0xFFFFFFFF) := by
  refine ⟨fun before after h => ?_, (among_scanText text).2,
    fun before r after h => (among_prefix_of_cons h).2, fun hlength cs hcs => ?_⟩
  · cases after with
    | nil =>
      rw [List.append_nil] at h
      exact h ▸ (among_scanText text).1
    | cons r after => exact (among_prefix_of_cons h).1
  · have hle := hcs.length_le
    have hline := Position.line_behind_le cs
    have hcolumn := Position.column_behind_le cs
    rw [String.length_toList] at hle
    rw [Position.advance_start]
    omega

/-- A string literal over two lines, a letter beyond one byte and a closing parenthesis without a
partner. -/
theorem scanText_places_of_lines :
    "\"a\r\n\" é )".length < 0xFFFFFFFF ∧
      (∃ fault, (scanText "\"a\r\n\" é )").getLast? = some (.error fault) ∧
        fault.position = .behind "\"a\r\n\" é ".toList ∧ fault.position = ⟨3, 5⟩) ∧
      (Position.start.advance "\"a\r\n\" é )".toList).column ≤ 0xFFFFFFFF := by
  obtain ⟨-, -, hplace, hbound⟩ := scanText_places "\"a\r\n\" é )"
  have hscan : scanText "\"a\r\n\" é )" =
      [.ok ⟨.string "a\r\n", "\"a\r\n\"", ⟨1, 1⟩⟩, .ok ⟨.whitespace, " ", ⟨3, 2⟩⟩,
        .ok ⟨.symbol, "é", ⟨3, 3⟩⟩, .ok ⟨.whitespace, " ", ⟨3, 4⟩⟩] ++
      .error ⟨.unmatchedClose, ⟨3, 5⟩⟩ :: [] := by rfl
  refine ⟨by decide, ⟨⟨.unmatchedClose, ⟨3, 5⟩⟩, by rw [hscan]; rfl, ?_, rfl⟩, ?_⟩
  · exact hplace _ _ _ hscan
  · exact (hbound (by decide) _ List.prefix_rfl).2

end PairLisp
