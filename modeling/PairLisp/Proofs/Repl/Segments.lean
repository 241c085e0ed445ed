import PairLisp.Proofs.Repl.Readiness

/-! # Segments of the input

The units that an input gives, the texts that are dropped from it and the text that is still pending
at its end are segments of the input: each is some lines after one another, joined by line feeds,
and every line stands in exactly one of them. A segment is complete with the first line after which
nothing is open.
-/

namespace PairLisp
namespace Repl

variable {ls lines : List String} {line text : String} {runs : List (List String)}

def joined (lines : List String) : String := "\n".intercalate lines

/-- Something is open after each of the lines. -/
def Unfinished (lines : List String) : Prop :=
  ∀ front, front <+: lines → front ≠ [] → 0 < openDepth (joined front)

/-- Something is open after each of the lines but the last, and nothing is after that. -/
structure Finished (lines : List String) : Prop where
  ne_nil : lines ≠ []
  openDepth_eq : openDepth (joined lines) = 0
  openDepth_pos : ∀ front, front <+: lines → front ≠ [] → front ≠ lines →
    0 < openDepth (joined front)

/-- The text that a line completes, whether it becomes a unit or is dropped. -/
def Outcome.complete? : Outcome → Option String
  | unit text | dropped text => some text
  | pending _ => none

/-- The texts that are completed in some events. -/
def completeTexts (events : List Event) : List String := events.filterMap (·.outcome.complete?)

/-- The texts that are completed, and what is pending at the end if anything is. -/
def segments (result : List Event × String) : List String :=
  completeTexts result.1 ++ if result.2.isEmpty then [] else [result.2]

/-- The lines are some runs, each of them finished by a text that is completed, and after these the
unfinished lines of what is pending. -/
structure IsCut (lines : List String) (result : List Event × String)
    (runs : List (List String)) (last : List String) : Prop where
  lines_eq : runs.flatten ++ last = lines
  complete_eq : completeTexts result.1 = runs.map joined
  pending_eq : result.2 = joined last
  finished : ∀ run ∈ runs, Finished run
  unfinished : Unfinished last

/-! ## Joined lines -/

theorem joined_append {us vs : List String} (hus : us ≠ []) (hvs : vs ≠ []) :
    joined (us ++ vs) = joined us ++ "\n" ++ joined vs :=
  String.intercalate_append_of_ne_nil hus hvs

theorem joined_map_joined (h : ∀ run ∈ runs, run ≠ []) :
    joined (runs.map joined) = joined runs.flatten := by
  induction runs with
  | nil => rfl
  | cons run runs ih =>
    obtain ⟨hrun, hruns⟩ := List.forall_mem_cons.1 h
    by_cases hnil : runs = []
    · simp [hnil, joined]
    · have hflat : runs.flatten ≠ [] := by
        obtain ⟨next, hnext⟩ := List.exists_mem_of_ne_nil runs hnil
        exact fun hempty => hruns next hnext (List.flatten_eq_nil_iff.1 hempty next hnext)
      have hmap : runs.map joined ≠ [] := by simpa using hnil
      rw [List.flatten_cons, joined_append hrun hflat, ← ih hruns]
      exact String.intercalate_cons_of_ne_nil hmap

/-! ## One line -/

theorem unfinished_nil : Unfinished [] :=
  fun _ hfront hne => absurd (List.prefix_nil.1 hfront) hne

namespace Unfinished

theorem joined_ne_empty (h : Unfinished ls) (hne : ls ≠ []) : joined ls ≠ "" := by
  intro hempty
  have hopen := h ls (List.prefix_refl ls) hne
  rw [hempty] at hopen
  exact absurd hopen (by decide)

theorem isEmpty_joined (h : Unfinished ls) : (joined ls).isEmpty = ls.isEmpty := by
  cases ls with
  | nil => rfl
  | cons line ls => simpa using h.joined_ne_empty (List.cons_ne_nil line ls)

/-- The pending text is empty only if no line is pending, so a line feed comes between lines and
nowhere else. -/
theorem join_eq (h : Unfinished ls) (line : String) :
    join (joined ls) line = joined (ls ++ [line]) := by
  rw [join, h.isEmpty_joined]
  by_cases hnil : ls = []
  · simp [hnil, joined]
  · rw [joined_append hnil (List.cons_ne_nil line [])]
    simp [hnil, joined]

theorem snoc (h : Unfinished ls) (hopen : 0 < openDepth (joined (ls ++ [line]))) :
    Unfinished (ls ++ [line]) := by
  intro front hfront hne
  rcases List.prefix_concat_iff.1 hfront with rfl | hfront
  · exact hopen
  · exact h front hfront hne

theorem finished (h : Unfinished ls) (hclosed : openDepth (joined (ls ++ [line])) = 0) :
    Finished (ls ++ [line]) := by
  refine ⟨by simp, hclosed, ?_⟩
  intro front hfront hne hshort
  rcases List.prefix_concat_iff.1 hfront with rfl | hfront
  · exact absurd rfl hshort
  · exact h front hfront hne

theorem accept_cases (h : Unfinished ls) (line : String) :
    (accept (joined ls) line = .pending (joined (ls ++ [line])) ∧ Unfinished (ls ++ [line])) ∨
      ((accept (joined ls) line).complete? = some (joined (ls ++ [line])) ∧
        (accept (joined ls) line).rest = "" ∧ Finished (ls ++ [line])) := by
  rw [accept, h.join_eq]
  by_cases hopen : 0 < openDepth (joined (ls ++ [line]))
  · exact .inl ⟨if_pos hopen, h.snoc hopen⟩
  · have hfinished := h.finished (Nat.eq_zero_of_not_pos hopen)
    simp only [if_neg hopen]
    split <;> exact .inr ⟨rfl, rfl, hfinished⟩

end Unfinished

theorem isBlank_of_accept_dropped {pending : String} (h : accept pending line = .dropped text) :
    ∀ c ∈ text.toList, Text.isBlank c = true := by
  rw [accept] at h
  split at h
  · cases h
  · split at h
    · next hblank =>
      cases h
      exact List.all_eq_true.1 hblank
    · cases h

/-! ## All lines -/

/-- Reading on from lines that are pending cuts them and all that follow. -/
theorem Unfinished.exists_isCut (h : Unfinished ls) (lines : List String) :
    ∃ runs last, IsCut (ls ++ lines) (events (joined ls) lines) runs last := by
  -- A line that finishes nothing goes over to those that are pending, so these are general.
  induction lines generalizing ls with
  | nil => exact ⟨[], ls, by simp, rfl, rfl, by simp, h⟩
  | cons line lines ih =>
    rcases h.accept_cases line with ⟨haccept, hopen⟩ | ⟨hcomplete, hrest, hfinished⟩
    · obtain ⟨runs, last, hcut⟩ := ih hopen
      refine ⟨runs, last, by simpa using hcut.lines_eq, ?_, ?_, hcut.finished, hcut.unfinished⟩
      · rw [events, completeTexts, List.filterMap_cons, haccept]
        exact hcut.complete_eq
      · rw [events, haccept]
        exact hcut.pending_eq
    · obtain ⟨runs, last, hcut⟩ := ih unfinished_nil
      refine ⟨(ls ++ [line]) :: runs, last, by simpa using hcut.lines_eq, ?_, ?_, ?_,
        hcut.unfinished⟩
      · rw [events, completeTexts, List.filterMap_cons, hcomplete, hrest]
        exact congrArg _ hcut.complete_eq
      · rw [events, hrest]
        exact hcut.pending_eq
      · exact List.forall_mem_cons.2 ⟨hfinished, hcut.finished⟩

theorem IsCut.joined_segments {result : List Event × String} {last : List String}
    (h : IsCut lines result runs last) : joined (segments result) = joined lines := by
  have hruns : ∀ run ∈ runs, run ≠ [] := fun run hrun => (h.finished run hrun).ne_nil
  rw [segments, h.complete_eq, h.pending_eq, h.unfinished.isEmpty_joined, ← h.lines_eq]
  by_cases hnil : last = []
  · simpa [hnil] using joined_map_joined hruns
  · have hall : ∀ run ∈ runs ++ [last], run ≠ [] := by
      simpa [or_imp, forall_and] using And.intro hruns hnil
    simpa [hnil] using joined_map_joined hall

end Repl

/-- The segments of an input, joined again, are its lines. They are runs of lines with no line
between them left out: every text that is completed is a finished run, and what is pending at the
end an unfinished one. A text that is completed is given as a unit unless it is blank. -/
theorem segments_of_lines (lines : List String) :
    Repl.joined (Repl.segments (Repl.events "" lines)) = Repl.joined lines ∧
      (∃ runs last, Repl.IsCut lines (Repl.events "" lines) runs last) ∧
      (∀ event ∈ (Repl.events "" lines).1, ∀ text, event.outcome = .dropped text →
        ∀ c ∈ text.toList, Text.isBlank c = true) ∧
      (Repl.units lines).1.map (·.text) = Repl.unitTexts (Repl.events "" lines).1 := by
  obtain ⟨runs, last, hcut⟩ := Repl.unfinished_nil.exists_isCut lines
  refine ⟨hcut.joined_segments, ⟨runs, last, hcut⟩, ?_, Repl.texts_unitsOf "" _⟩
  intro event hevent text hdropped
  obtain ⟨pending, line, haccept⟩ := Repl.exists_accept_of_mem_events hevent
  exact Repl.isBlank_of_accept_dropped (haccept.symm.trans hdropped)

/-- A list over three lines of which one is empty, a blank line, a fault that closes everything, and
a list that is never closed. -/
theorem segments_of_lines_of_lists :
    Repl.segments (Repl.events "" ["(a", "", ")", " ", "(\"b", "(", "c"]) =
        ["(a\n\n)", " ", "(\"b", "(\nc"] ∧
      Repl.joined ["(a\n\n)", " ", "(\"b", "(\nc"] =
        Repl.joined ["(a", "", ")", " ", "(\"b", "(", "c"] ∧
      ⟨">> ", .dropped " "⟩ ∈ (Repl.events "" ["(a", "", ")", " ", "(\"b", "(", "c"]).1 ∧
      ∀ c ∈ " ".toList, Text.isBlank c = true := by
  obtain ⟨hjoined, -, hblank, -⟩ :=
    segments_of_lines ["(a", "", ")", " ", "(\"b", "(", "c"]
  have hsegments : Repl.segments (Repl.events "" ["(a", "", ")", " ", "(\"b", "(", "c"]) =
      ["(a\n\n)", " ", "(\"b", "(\nc"] := by
    decide +kernel
  have hdropped :
      ⟨">> ", .dropped " "⟩ ∈ (Repl.events "" ["(a", "", ")", " ", "(\"b", "(", "c"]).1 := by
    decide +kernel
  rw [hsegments] at hjoined
  exact ⟨hsegments, hjoined, hdropped, hblank _ hdropped " " rfl⟩

end PairLisp
