import PairLisp.Proofs.Repl.Segments

/-! # Texts that are dropped

The interactive loop drops a text if all its characters are white space in Unicode's sense. The
scanner skips four of these characters and takes every other one for an invalid token. So whatever
holds no form is dropped, but among the dropped texts are some that cannot be read: those with a
white space character that the scanner does not skip, which nobody is told of.
-/

namespace PairLisp

open Token
open Scanner (spacing)

/-! ## Texts without forms -/

variable {c : Char} {cs front : List Char} {text : String}

theorem isBlank_of_mem_spacing (h : c ∈ spacing) : Text.isBlank c = true := by
  rcases Scanner.mem_spacing_iff.1 h with rfl | rfl | rfl | rfl <;> decide +kernel

/-- A text is read without giving a form exactly if it is spacing. -/
theorem readText_eq_nil_iff : readText text = .ok [] ↔ ∀ c ∈ text.toList, c ∈ spacing := by
  rw [readText_iff_spells]
  constructor
  · rintro ⟨ts, hspells, hforms, -, -⟩
    cases hforms
    exact hspells.mem_spacing
  · intro h
    exact ⟨[], .of_spacing h 0, .nil, by simp [OpenAtMost], listsAtMost_nil⟩

theorem readText_of_foreign (htext : text.toList = front ++ c :: cs)
    (hfront : ∀ b ∈ front, b ∈ spacing) (hblank : Text.isBlank c = true) (hc : c ∉ spacing) :
    readText text = .error (.read ⟨.invalidToken (String.ofList [c]),
      Position.start.advance front⟩) := by
  obtain ⟨ts, ⟨rest, place, depth⟩, hsteps, rfl, rfl, hts⟩ :=
    (Spells.of_spacing hfront 0).exists_steps .start
  have hplace : place = Position.start.advance front := by
    obtain ⟨hchars, hplace⟩ := hsteps.rest_eq
    rw [List.append_nil] at hchars
    exact hplace.trans (by rw [← hchars])
  subst hplace
  -- The character belongs to none of the tokens before it.
  have hall : Scanner.Steps ⟨front ++ c :: cs, .start, 0⟩ ts
      ⟨c :: cs, Position.start.advance front, 0⟩ :=
    hsteps.extend (.cons (Text.plain_of_isBlank hblank).1 cs)
  have hpiece := Scanner.piece_of_foreign hblank hc 0 cs
  have hnext := Scanner.next_of_ok (s := ⟨c :: cs, Position.start.advance front, 0⟩) rfl
    (congrArg Piece.outcome hpiece)
  rw [hpiece] at hnext
  rw [readText, Scanner.scanText_eq_outcomes, Scanner.ofText, htext, hall.outcomes_eq,
    ← readTokens_significant hall.kind_ne_endOfText, List.map_eq_nil_iff.1 hts,
    Scanner.outcomes_of_token hnext (by simp [kind, Content.kind])]
  exact readTokens_of_error (by simp [kind, Content.kind]) rfl

theorem exists_front_of_not_spacing (h : ¬∀ c ∈ cs, c ∈ spacing) :
    ∃ front c rest, cs = front ++ c :: rest ∧ (∀ b ∈ front, b ∈ spacing) ∧ c ∉ spacing := by
  induction cs with
  | nil => simp at h
  | cons c cs ih =>
    by_cases hc : c ∈ spacing
    · obtain ⟨front, d, rest, rfl, hfront, hd⟩ := ih fun hcs => h (List.forall_mem_cons.2 ⟨hc, hcs⟩)
      exact ⟨c :: front, d, rest, rfl, List.forall_mem_cons.2 ⟨hc, hfront⟩, hd⟩
    · exact ⟨[], c, cs, rfl, by simp, hc⟩

/-! ## Lines -/

namespace Repl

variable {pending line : String} {lines : List String}

/-- A complete text is dropped exactly if it is all white space. -/
theorem dropped_iff_of_accept (h : (accept pending line).complete? = some text) :
    accept pending line = .dropped text ↔ ∀ c ∈ text.toList, Text.isBlank c = true := by
  refine ⟨isBlank_of_accept_dropped, fun hblank => ?_⟩
  rw [accept] at h ⊢
  split at h
  · cases h
  · split at h
    · cases h
      rw [if_neg ‹_›, if_pos ‹_›]
    · next hforeign =>
      cases h
      exact absurd (List.all_eq_true.2 hblank) hforeign

end Repl

/-- Every complete text of an input is dropped exactly if all its characters are white space, and is
read without giving a form exactly if all of them are spacing. So all that is read without giving a
form is dropped, and what else is dropped cannot be read, for its first white space character that
is not spacing. -/
theorem dropped_of_lines (lines : List String) {event : Repl.Event} {text : String}
    (h : event ∈ (Repl.events "" lines).1) (hcomplete : event.outcome.complete? = some text) :
    (event.outcome = .dropped text ↔ ∀ c ∈ text.toList, Text.isBlank c = true) ∧
      (readText text = .ok [] ↔ ∀ c ∈ text.toList, c ∈ spacing) ∧
      (readText text = .ok [] → event.outcome = .dropped text) ∧
      (event.outcome = .dropped text → readText text = .ok [] ∨
        ∃ front c rest, text.toList = front ++ c :: rest ∧ (∀ b ∈ front, b ∈ spacing) ∧
          Text.isBlank c = true ∧ c ∉ spacing ∧
          readText text = .error (.read ⟨.invalidToken (String.ofList [c]),
            Position.start.advance front⟩)) := by
  obtain ⟨before, line, haccept⟩ := Repl.exists_accept_of_mem_events h
  have hdropped : event.outcome = .dropped text ↔ ∀ c ∈ text.toList, Text.isBlank c = true := by
    rw [haccept] at hcomplete ⊢
    exact Repl.dropped_iff_of_accept hcomplete
  refine ⟨hdropped, readText_eq_nil_iff, fun hread => ?_, fun hdrop => ?_⟩
  · exact hdropped.2 fun c hc => isBlank_of_mem_spacing (readText_eq_nil_iff.1 hread c hc)
  · by_cases hspacing : ∀ c ∈ text.toList, c ∈ spacing
    · exact .inl (readText_eq_nil_iff.2 hspacing)
    · obtain ⟨front, c, rest, htext, hfront, hc⟩ := exists_front_of_not_spacing hspacing
      have hblank : Text.isBlank c = true := hdropped.1 hdrop c (by simp [htext])
      exact .inr ⟨front, c, rest, htext, hfront, hblank, hc,
        readText_of_foreign htext hfront hblank hc⟩

/-- A no-break space after a space, which is dropped although it cannot be read. -/
theorem dropped_of_lines_of_noBreakSpace :
    ⟨">> ", .dropped " \u00a0"⟩ ∈ (Repl.events "" ["(a", ")", " \u00a0"]).1 ∧
      (Repl.Outcome.dropped " \u00a0").complete? = some " \u00a0" ∧
      (∀ c ∈ " \u00a0".toList, Text.isBlank c = true) ∧ readText " \u00a0" ≠ .ok [] := by
  have h : ⟨">> ", .dropped " \u00a0"⟩ ∈ (Repl.events "" ["(a", ")", " \u00a0"]).1 := by
    decide +kernel
  obtain ⟨hdropped, hread, -, -⟩ := dropped_of_lines _ h rfl
  refine ⟨h, rfl, hdropped.1 rfl, fun hok => ?_⟩
  have hspace : '\u00a0' ∈ spacing := hread.1 hok _ (by decide)
  exact absurd hspace (by decide)

/-- Of the complete texts of an input, those are dropped that are read without giving a form, and
no others. -/
def Repl.DropsEmptyOnly (lines : List String) : Prop :=
  ∀ event ∈ (events "" lines).1, ∀ text, event.outcome.complete? = some text →
    (event.outcome = .dropped text ↔ readText text = .ok [])

/-- A no-break space on a line of its own is dropped, and is an invalid token to the reader. -/
theorem not_dropsEmptyOnly :
    ¬Repl.DropsEmptyOnly ["\u00a0"] ∧
      readText "\u00a0" = .error (.read ⟨.invalidToken "\u00a0", ⟨1, 1⟩⟩) := by
  have hread : readText "\u00a0" = .error (.read ⟨.invalidToken "\u00a0", ⟨1, 1⟩⟩) :=
    @readText_of_foreign '\u00a0' [] [] _ rfl (by simp) (by decide +kernel) (by decide +kernel)
  refine ⟨fun h => ?_, hread⟩
  have hevent : ⟨">> ", .dropped "\u00a0"⟩ ∈ (Repl.events "" ["\u00a0"]).1 := by decide +kernel
  have hok := (h _ hevent "\u00a0" rfl).1 rfl
  rw [hread] at hok
  cases hok

end PairLisp
