import PairLisp.Proofs.Eval.Sequence
import PairLisp.Proofs.Reader.Offence
import PairLisp.Proofs.Repl.Units

/-! # When a text is complete

The interactive loop asks the scanner alone whether a text is complete, and only complete texts go
to the reader. The two agree: a text that is read leaves nothing open, one that the reader finds
unfinished leaves something open, and one that leaves something open has nothing that the scanner
refuses and is not read. So no unit ends too early, and no line is asked for in vain.
-/

namespace PairLisp
namespace Repl

variable {text pending line : String} {lines : List String}

/-! ## One text -/

theorem openDepth_of_error {ts : List Token} {s t : Scanner} {fault : ScanFault}
    (h : (Scanner.ofText text).Steps ts s) (hnext : s.next = (.error fault, t)) :
    openDepth text = 0 := by
  rw [openDepth, h.getLast?_run_of_error hnext]

theorem openDepth_of_readText {forms : List Expr} (h : readText text = .ok forms) :
    openDepth text = 0 :=
  openDepth_of_spells (spells_of_readText h).1

theorem openDepth_pos_of_unmatchedOpen {p : Position}
    (h : readText text = .error (.read ⟨.unmatchedOpen, p⟩)) : 0 < openDepth text := by
  have hstop := readText_stop text
  rw [h] at hstop
  cases hstop with
  | unclosed hsteps hrest hreads =>
    rw [openDepth_of_steps hsteps hrest, ← hreads.length_eq_depth hsteps]
    exact Nat.succ_pos _
  | refused hsteps hnext hend hreads hread =>
    -- Only the end of a text offends by what is open there.
    have hoffends := (hreads.offends_iff hend (hreads.ne_nil_of_rightParen hsteps hnext)).2
      ⟨_, hread, rfl⟩
    cases hoffends with
    | unclosed hkind _ => exact absurd hkind hend

theorem exists_fault_of_openDepth_pos (h : 0 < openDepth text) :
    ∃ f, readText text = .error (.read f) := by
  have hstop := readText_stop text
  generalize readText text = result at hstop
  cases hstop with
  | finished hsteps hrest hreads =>
    rw [openDepth_of_steps hsteps hrest, ← hreads.length_eq_depth hsteps] at h
    exact absurd h (Nat.lt_irrefl 0)
  | scan hsteps hnext =>
    rw [openDepth_of_error hsteps hnext] at h
    exact absurd h (Nat.lt_irrefl 0)
  | unclosed | refused => exact ⟨_, rfl⟩

/-! ## Lines -/

theorem openDepth_of_accept_unit (h : accept pending line = .unit text) : openDepth text = 0 := by
  rw [accept] at h
  split at h
  · cases h
  · next hdepth =>
    split at h
    · cases h
    · cases h
      exact Nat.eq_zero_of_not_pos hdepth

theorem openDepth_of_accept_pending (h : accept pending line = .pending text) :
    0 < openDepth text := by
  rw [accept] at h
  split at h
  · next hdepth =>
    cases h
    exact hdepth
  · split at h <;> cases h

theorem exists_accept_of_mem_events {event : Event} (h : event ∈ (events pending lines).1) :
    ∃ before line, event.outcome = accept before line := by
  induction lines generalizing pending with
  | nil => cases h
  | cons line lines ih =>
    rw [events] at h
    rcases List.mem_cons.1 h with rfl | h
    · exact ⟨pending, line, rfl⟩
    · exact ih h

theorem exists_event_of_mem_units {u : InputUnit} (h : u ∈ (units lines).1) :
    ∃ event ∈ (events "" lines).1, event.outcome = .unit u.text := by
  have htext : u.text ∈ unitTexts (events "" lines).1 := by
    rw [← texts_unitsOf ""]
    exact List.mem_map_of_mem h
  obtain ⟨event, hevent, hunit⟩ := List.mem_filterMap.1 htext
  refine ⟨event, hevent, ?_⟩
  cases houtcome : event.outcome with
  | unit text =>
    rw [houtcome] at hunit
    exact congrArg Outcome.unit (Option.some.inj hunit)
  | pending | dropped =>
    rw [houtcome] at hunit
    cases hunit

theorem openDepth_of_mem_units {u : InputUnit} (h : u ∈ (units lines).1) :
    openDepth u.text = 0 := by
  obtain ⟨event, hevent, hunit⟩ := exists_event_of_mem_units h
  obtain ⟨before, line, haccept⟩ := exists_accept_of_mem_events hevent
  exact openDepth_of_accept_unit (haccept.symm.trans hunit)

theorem openDepth_of_mem_events {event : Event} (h : event ∈ (events pending lines).1)
    (hpending : event.outcome = .pending text) : 0 < openDepth text := by
  obtain ⟨before, line, haccept⟩ := exists_accept_of_mem_events h
  exact openDepth_of_accept_pending (haccept.symm.trans hpending)

end Repl

/-- Whether the loop takes a text for complete and what the reader makes of it: for every text, for
every unit of every sequence of lines, and for every text that is kept waiting for more lines. -/
theorem openDepth_agrees :
    (∀ text,
      (∀ forms, readText text = .ok forms → Repl.openDepth text = 0) ∧
      (∀ p, readText text = .error (.read ⟨.unmatchedOpen, p⟩) → 0 < Repl.openDepth text) ∧
      (0 < Repl.openDepth text → ∃ f, readText text = .error (.read f))) ∧
    ∀ lines,
      (∀ u ∈ (Repl.units lines).1, ∀ host echo m p,
        (interpret host echo u.text m).1.fault ≠ some (.read ⟨.unmatchedOpen, p⟩)) ∧
      ∀ pending, ∀ event ∈ (Repl.events pending lines).1, ∀ text,
        event.outcome = .pending text → ∃ f, readText text = .error (.read f) := by
  refine ⟨fun text => ⟨?_, ?_, ?_⟩, fun lines => ⟨?_, ?_⟩⟩
  · exact fun _ => Repl.openDepth_of_readText
  · exact fun _ => Repl.openDepth_pos_of_unmatchedOpen
  · exact Repl.exists_fault_of_openDepth_pos
  · intro u hu host echo m p hfault
    have hopen := Repl.openDepth_pos_of_unmatchedOpen (readText_of_interpret_fault hfault)
    rw [Repl.openDepth_of_mem_units hu] at hopen
    exact Nat.lt_irrefl 0 hopen
  · intro pending event hevent text hpending
    exact Repl.exists_fault_of_openDepth_pos (Repl.openDepth_of_mem_events hevent hpending)

/-- A text of each sort, one of them with an invalid token before its end, and lines that leave a
list open at first. -/
theorem openDepth_agrees_of_lists :
    (readText "()\n(())" = .ok [.nil, .ofList [.nil]] ∧ Repl.openDepth "()\n(())" = 0) ∧
    (readText "()\n(" = .error (.read ⟨.unmatchedOpen, ⟨2, 1⟩⟩) ∧ 0 < Repl.openDepth "()\n(") ∧
    (0 < Repl.openDepth "(\x01" ∧ ∃ f, readText "(\x01" = .error (.read f)) ∧
    (⟨">> ..  ", "(\n)"⟩ ∈ (Repl.units ["(", ")", "("]).1 ∧
      (interpret .none silent "(\n)" .start).1.fault ≠ some (.read ⟨.unmatchedOpen, .start⟩)) ∧
    ⟨">> ", .pending "("⟩ ∈ (Repl.events "" ["(", ")", "("]).1 ∧
      ∃ f, readText "(" = .error (.read f) := by
  obtain ⟨htexts, hlines⟩ := openDepth_agrees
  obtain ⟨hunits, hevents⟩ := hlines ["(", ")", "("]
  have hlists : readText "()\n(())" = .ok [.nil, .ofList [.nil]] := by rfl
  have hopen : readText "()\n(" = .error (.read ⟨.unmatchedOpen, ⟨2, 1⟩⟩) := by rfl
  have hinvalid : 0 < Repl.openDepth "(\x01" := by decide +kernel
  have hunit : ⟨">> ..  ", "(\n)"⟩ ∈ (Repl.units ["(", ")", "("]).1 := by decide +kernel
  have hevent : ⟨">> ", .pending "("⟩ ∈ (Repl.events "" ["(", ")", "("]).1 := by decide +kernel
  exact ⟨⟨hlists, (htexts _).1 _ hlists⟩, ⟨hopen, (htexts _).2.1 _ hopen⟩,
    ⟨hinvalid, (htexts _).2.2 hinvalid⟩, ⟨hunit, hunits _ hunit .none silent .start .start⟩,
    hevent, hevents "" _ hevent "(" rfl⟩

end PairLisp
