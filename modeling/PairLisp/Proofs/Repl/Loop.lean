import PairLisp.Command
import PairLisp.Proofs.Repl.Echo
import PairLisp.Proofs.Repl.Units
import PairLisp.Proofs.Text.Bytes

/-! # Input that is not all text

The loop takes an input line by line. If all of it is text, what is shown is the transcript of its
lines. A line that is no text cuts the input in two: what is pending before it is lost, and the
machine goes on with the units of the lines behind it.
-/

namespace PairLisp

namespace Repl

variable {color : Bool} {l : Loop} {out : String}

/-- The lines before the first that is no text, and those behind each such line. -/
def stretches : List (Option String) → List String × List (List String)
  | [] => ([], [])
  | none :: lines => ([], (stretches lines).1 :: (stretches lines).2)
  | some line :: lines => (line :: (stretches lines).1, (stretches lines).2)

def textsOf (pending : String) (lines : List String) : List String :=
  unitTexts (events pending lines).1

theorem textsOf_cons (pending line : String) (lines : List String) :
    textsOf pending (line :: lines) =
      (accept pending line).unit?.toList ++ textsOf (accept pending line).rest lines := by
  rw [textsOf, events, unitTexts, List.filterMap_cons]
  cases (accept pending line).unit? <;> rfl

namespace Loop

theorem run_cons (l : Loop) (line : Option String) (lines : List (Option String)) :
    l.run color (line :: lines) = (l.ask.take color line).run color lines := rfl

theorem pending_take (l : Loop) (line : String) :
    (l.take color (some line)).pending = (accept l.pending line).rest := by
  rw [take]
  cases accept l.pending line <;> rfl

theorem exists_machine_take (l : Loop) (color : Bool) (line : String) :
    ∃ us : List InputUnit, us.map (·.text) = (accept l.pending line).unit?.toList ∧
      (l.take color (some line)).machine = answered color us l.machine := by
  rw [take]
  cases accept l.pending line with
  | unit text => exact ⟨[⟨l.shown, text⟩], rfl, rfl⟩
  | pending | dropped => exact ⟨[], rfl, rfl⟩

/-- The loop answers the units of each stretch of text, one after the other on its machine. -/
theorem exists_machine_run (l : Loop) (color : Bool) (lines : List (Option String)) :
    ∃ us : List InputUnit,
      us.map (·.text) = textsOf l.pending (stretches lines).1 ++
        (stretches lines).2.flatMap (textsOf "") ∧
      (l.run color lines).machine = answered color us l.machine := by
  induction lines generalizing l with
  | nil => exact ⟨[], rfl, rfl⟩
  | cons line lines ih =>
    obtain ⟨us, hus, hmachine⟩ := ih (l.ask.take color line)
    cases line with
    | none => exact ⟨us, hus, hmachine⟩
    | some line =>
      obtain ⟨first, hfirst, hanswer⟩ := exists_machine_take l.ask color line
      refine ⟨first ++ us, ?_, ?_⟩
      · rw [List.map_append, hfirst, hus, pending_take, stretches, textsOf_cons, List.append_assoc]
        rfl
      · rw [run_cons, hmachine, hanswer, answered_append]
        rfl

/-- Lines of text, by the units that they are joined to. -/
theorem run_map_some (l : Loop) (color : Bool) (lines : List String) :
    l.run color (lines.map some) =
      ⟨(events l.pending lines).2, (unitsOf l.shown (events l.pending lines).1).2,
        answered color (unitsOf l.shown (events l.pending lines).1).1 l.machine⟩ := by
  induction lines generalizing l with
  | nil => rfl
  | cons line lines ih =>
    rw [List.map_cons, run_cons, ih, events, unitsOf, take]
    have hpending : l.ask.pending = l.pending := rfl
    rw [hpending]
    cases accept l.pending line <;> rfl

/-! ## What is shown -/

theorem output_say (l : Loop) (text : String) : (l.say text).output = l.output ++ text :=
  String.append_assoc.symm

theorem output_take_none (l : Loop) (color : Bool) :
    (l.take color none).output = l.output ++ unreadableLine := output_say l unreadableLine

/-- What was shown starts with `out`, and nothing foreign is bound. -/
def Continues (out : String) (l : Loop) : Prop := (l.machine.write l.shown).Continues out

namespace Continues

theorem start : start.Continues "" := Machine.Continues.start.write ""

theorem exists_output (h : l.Continues out) : ∃ more, l.output = out ++ more := by
  obtain ⟨more, hmore⟩ := h.output
  exact ⟨more, by rw [output, ← Machine.output_write, hmore]⟩

theorem restart (h : l.Continues out) : l.Continues l.output := by
  rw [output, ← Machine.output_write]
  exact Machine.Continues.restart h

theorem say (h : l.Continues out) (text : String) : (l.say text).Continues out where
  output := by
    obtain ⟨more, hmore⟩ := h.exists_output
    refine ⟨more ++ text, ?_⟩
    rw [Machine.output_write, ← Loop.output, output_say, hmore, String.append_assoc]
  bound := h.bound

theorem ask (h : l.Continues out) : l.ask.Continues out := h.say _

theorem take (h : l.Continues out) (color : Bool) (line : Option String) :
    (l.take color line).Continues out := by
  cases line with
  | none => exact h.say unreadableLine
  | some line =>
    rw [Loop.take]
    cases accept l.pending line with
    | unit text => exact (answer_continues color text h).write ""
    | pending | dropped => exact h

theorem run (h : l.Continues out) (color : Bool) (lines : List (Option String)) :
    (l.run color lines).Continues out := by
  induction lines generalizing l with
  | nil => exact h
  | cons line lines ih => exact ih (h.ask.take color line)

end Continues
end Loop

/-- A line that is no text is reported right after the prompt for it, whatever follows. -/
theorem dialogue_append_none (color : Bool) (lines rest : List (Option String)) :
    ∃ more, dialogue color (lines ++ none :: rest) =
      (Loop.start.run color lines).ask.output ++ unreadableLine ++ more := by
  have hrun : Loop.start.run color (lines ++ none :: rest) =
      (((Loop.start.run color lines).ask.take color none).run color rest) := List.foldl_append
  have hreport := ((Loop.Continues.start.run color lines).ask.take color none).restart
  obtain ⟨more, hmore⟩ := (hreport.run color rest).ask.exists_output
  refine ⟨more ++ "^D\n", ?_⟩
  rw [dialogue, hrun, hmore, Loop.output_take_none, String.append_assoc]

example : dialogue false [some "(print", none, some "1"] =
    ">> ..  " ++ unreadableLine ++ ">> -> 1\n\n>> ^D\n" := by
  decide +kernel

theorem dialogue_map_some (color : Bool) (lines : List String) :
    dialogue color (lines.map some) = transcript color lines := by
  rw [dialogue, Loop.run_map_some, transcript, units]
  simp only [Loop.output, Loop.ask, Loop.say, Loop.start, answered, String.append_assoc]

end Repl

/-- An interactive input that is text is answered by the transcript of its lines. -/
theorem Command.interactive_toUTF8 (color : Bool) (text : String) :
    interactive color text.toUTF8 = ⟨Repl.transcript color (Text.lines text), "", 0⟩ := by
  rw [interactive, Text.fromUTF8?_byteLines, Repl.dialogue_map_some]

end PairLisp
