import PairLisp.Command
import PairLisp.Proofs.Eval.Sequence
import PairLisp.Proofs.Reader.Joined
import PairLisp.Proofs.Repl.Units
import PairLisp.Proofs.Text.Bytes

/-! # Line by line or all at once

A batch reads and evaluates each line on its own. If every line can be read, so can the whole text,
and what it does is the same: an evaluation goes on where the one before it left off, whichever text
its form stands in.
-/

namespace PairLisp

/-! ## Reading -/

/-- A carriage return that is dropped at the end of a line is no part of what is read. -/
theorem readText_of_endLine {cs : List Char} {forms : List Expr}
    (h : readText (String.ofList (Text.endLine '\r' cs)) = .ok forms) :
    readText (String.ofList cs) = .ok forms := by
  rcases Text.eq_endLine_or '\r' cs with heq | heq
  · rwa [← heq] at h
  · obtain ⟨ts, hspells, hlimits⟩ := readText_iff_spells.1 h
    rw [String.toList_ofList] at hspells
    have hpiece : Scanner.piece 0 '\r' [] = ⟨['\r'], [], .ok .newline⟩ := by simp [Scanner.piece]
    have hreturn : Spells 0 ['\r'] [] 0 := .of_piece hpiece (.nil 0)
    have hseparated : Separated ['\r'] := .cons (by decide +kernel) []
    have hall := hspells.append hseparated hreturn
    rw [← heq, List.append_nil] at hall
    exact readText_iff_spells.2 ⟨ts, by rwa [String.toList_ofList], hlimits⟩

theorem readText_of_charLines (cs : List Char)
    (h : ∀ line ∈ Repl.charLines cs, ∃ forms, readText line = .ok forms) :
    ∃ parts : List (List Expr), (Repl.charLines cs).map readText = parts.map .ok ∧
      readText (String.ofList cs) = .ok parts.flatten := by
  induction hn : cs.length using Nat.strongRecOn generalizing cs with
  | ind n ih =>
    by_cases hfeed : '\n' ∈ cs
    · -- The first line is read by itself, the text after its line feed by induction.
      obtain ⟨line, rest, rfl, hline⟩ := List.eq_append_cons_of_mem hfeed
      have hlt : rest.length < n := by
        rw [← hn, List.length_append, List.length_cons]
        omega
      rw [Repl.charLines_feed hline] at h ⊢
      obtain ⟨⟨forms, hforms⟩, hrest⟩ := List.forall_mem_cons.1 h
      obtain ⟨parts, hparts, hread⟩ := ih _ hlt rest hrest rfl
      refine ⟨forms :: parts, by rw [List.map_cons, hforms, hparts, List.map_cons], ?_⟩
      have htext : String.ofList (line ++ '\n' :: rest) =
          String.ofList line ++ "\n" ++ String.ofList rest := by
        rw [← String.toList_inj]
        simp
      rw [htext, readText_append_of_ok (readText_of_endLine hforms), hread, List.flatten_cons]
      rfl
    · by_cases hempty : cs = []
      · obtain rfl := hempty
        exact ⟨[], rfl, rfl⟩
      · rw [Repl.charLines_last hfeed hempty] at h ⊢
        obtain ⟨forms, hforms⟩ := h _ List.mem_cons_self
        exact ⟨[forms], by simp [hforms], by simp [hforms]⟩

/-! ## Evaluating -/

theorem Command.runLines_eq_interpretTexts (n : Nat) (texts : List String) (m : Machine) :
    runLines n (texts.map some) m =
      ((interpretTexts .none silent texts m).1.fault.map .fault,
        (interpretTexts .none silent texts m).2) := by
  induction texts generalizing n m with
  | nil => rfl
  | cons text texts ih =>
    rw [List.map_cons, runLines, interpretTexts]
    rcases interpret .none silent text m with ⟨⟨results, fault⟩, after⟩
    cases fault with
    | some fault => rfl
    | none => exact ih (n + 1) after

/-- A text each of whose lines can be read is read as a whole, and a batch of its lines and one
interpretation of the text do the same: they evaluate the same forms to the same values, stop with
the same fault if at all, and leave the same machine with its bindings and its output. -/
theorem batch_eq_interpret (text : String)
    (h : ∀ line ∈ Text.lines text, ∃ forms, readText line = .ok forms) :
    (∃ forms, readText text = .ok forms) ∧
      let whole := interpret .none silent text .start
      interpretTexts .none silent (Text.lines text) .start = whole ∧
        Command.runLines 1 ((Text.byteLines text.toUTF8).map String.fromUTF8?) .start =
          (whole.1.fault.map .fault, whole.2) ∧
        Command.batch text.toUTF8 = match whole.1.fault with
          | none => ⟨whole.2.output, "", 0⟩
          | some fault => Command.failure whole.2.output fault.text := by
  obtain ⟨parts, hparts, hread⟩ := readText_of_charLines text.toList h
  rw [String.ofList_toList] at hread
  have hwhole : interpretTexts .none silent (Text.lines text) .start =
      interpret .none silent text .start := by
    rw [interpret_of_ok hread]
    exact interpretTexts_eq_evalForms hparts
  have hlines : Command.runLines 1 ((Text.byteLines text.toUTF8).map String.fromUTF8?) .start =
      ((interpret .none silent text .start).1.fault.map .fault,
        (interpret .none silent text .start).2) := by
    rw [Text.fromUTF8?_byteLines, Command.runLines_eq_interpretTexts, hwhole]
  refine ⟨⟨_, hread⟩, hwhole, hlines, ?_⟩
  rw [Command.batch, hlines]
  cases (interpret .none silent text .start).1.fault <;> rfl

/-- Lines that end in different ways, the last of which fails after it has bound a name. -/
theorem batch_eq_interpret_of_lines :
    let text := "(setq a 01)\r\n\r(print a)\n(setq b a) c d"
    let whole := interpret .none silent text .start
    (∀ line ∈ Text.lines text, ∃ forms, readText line = .ok forms) ∧
      whole.1.fault.isSome = true ∧
      Command.runLines 1 ((Text.byteLines text.toUTF8).map String.fromUTF8?) .start =
        (whole.1.fault.map .fault, whole.2) := by
  intro text whole
  have hread : (Text.lines text).all (fun line => (readText line).toOption.isSome) = true := by
    decide +kernel
  have hlines : ∀ line ∈ Text.lines text, ∃ forms, readText line = .ok forms := by
    intro line hline
    have hsome := List.all_eq_true.1 hread line hline
    cases hforms : readText line with
    | ok forms => exact ⟨forms, rfl⟩
    | error fault =>
      rw [hforms] at hsome
      cases hsome
  have hfault : whole.1.fault.isSome = true := by decide +kernel
  exact ⟨hlines, hfault, (batch_eq_interpret text hlines).2.2.1⟩

end PairLisp
