import PairLisp.Proofs.Reader.Spelled
import PairLisp.Proofs.Scanner.Blank
import PairLisp.Proofs.Text.Lines
import PairLisp.Repl.Units

/-! # Units and whole texts

A text that can be read, with no string literal that goes on over a line end, may as well be entered
line by line: the units that its lines are joined to are read one after the other as the forms of
the text, and nothing is left waiting. Carriage returns at line ends and units of white space hold
no tokens, so nothing is lost with them.
-/

namespace PairLisp

open Token

/-! ## Texts that are read -/

namespace Repl

/-- String literals that each stand on one line. -/
def OneLine (ts : List Token) : Prop := ∀ t ∈ ts, t.kind = .string → '\n' ∉ t.raw.toList

/-- The characters are a text of some forms within the limits, with no literal over a line end. -/
structure Holds (cs : List Char) (ts : List Token) (forms : List Expr) : Prop where
  spells : Spells 0 cs ts 0
  derives : Derives ts forms
  shallow : OpenAtMost 128 ts
  short : ListsAtMost 4096 ts
  oneLine : OneLine ts

theorem openDepth_of_steps {text : String} {ts : List Token} {s : Scanner}
    (h : (Scanner.ofText text).Steps ts s) (hrest : s.rest = []) : openDepth text = s.depth := by
  rw [openDepth, h.getLast?_run hrest]

theorem openDepth_of_spells {text : String} {ts : List Token} {n : Nat}
    (h : Spells 0 text.toList ts n) : openDepth text = n := by
  obtain ⟨us, s, hsteps, hrest, rfl, -⟩ := h.exists_steps .start
  exact openDepth_of_steps hsteps hrest

theorem holds_of_readText {text : String} {forms : List Expr} (h : readText text = .ok forms)
    (hstrings : OneLine (textTokens text)) :
    Holds text.toList ((significant (textTokens text)).map unplaced) forms := by
  obtain ⟨hspells, hforms, hshallow, hshort⟩ := spells_of_readText h
  refine ⟨hspells, hforms, hshallow, hshort, fun t ht => ?_⟩
  obtain ⟨u, hu, rfl⟩ := List.mem_map.1 ht
  exact hstrings u (List.mem_filter.1 hu).1

namespace Holds

variable {cs ds : List Char} {us vs : List Token} {forms : List Expr}

theorem readText_eq {text : String} {ts : List Token} (h : Holds text.toList ts forms) :
    readText text = .ok forms :=
  readText_iff_spells.2 ⟨ts, h.spells, h.derives, h.shallow, h.short⟩

/-- A text that is split where no parenthesis is open is two texts. -/
theorem split (h : Holds cs (us ++ vs) forms) (hus : Spells 0 ds us 0) {rest : List Char}
    (hvs : Spells 0 rest vs 0) :
    ∃ es fs, forms = es ++ fs ∧ Holds ds us es ∧ Holds rest vs fs := by
  have hbalanced : opens us = closes us := by
    have hdepth := hus.depth_add_closes
    omega
  obtain ⟨es, fs, rfl, hes, hfs⟩ := h.derives.exists_append hbalanced
  obtain ⟨hshallow, hshallow'⟩ := hes.openAtMost_append_iff.1 h.shallow
  have hpart : us <:+: us ++ vs := (List.prefix_append us vs).isInfix
  have hpart' : vs <:+: us ++ vs := (List.suffix_append us vs).isInfix
  exact ⟨es, fs, rfl,
    ⟨hus, hes, hshallow, h.short.part hpart, fun t ht => h.oneLine t (hpart.subset ht)⟩,
    ⟨hvs, hfs, hshallow', h.short.part hpart', fun t ht => h.oneLine t (hpart'.subset ht)⟩⟩

theorem eq_nil_of_isBlank {ts : List Token} (h : Holds cs ts forms)
    (hblank : ∀ c ∈ cs, Text.isBlank c = true) : forms = [] := by
  have hinvalid := h.spells.kind_of_isBlank hblank
  cases ts with
  | nil => exact h.derives.unique .nil
  | cons t ts =>
    exact absurd (hinvalid t List.mem_cons_self)
      (h.derives.kind_ne_invalid t List.mem_cons_self)

end Holds

/-! ## Joined lines -/

/-- The characters in front of a line that is joined to a pending text. -/
def pendingChars (pending : String) : List Char :=
  if pending.isEmpty then [] else pending.toList ++ ['\n']

theorem toList_join (pending line : String) :
    (join pending line).toList = pendingChars pending ++ line.toList := by
  rw [join, pendingChars]
  split <;> simp

theorem pendingChars_of_openDepth {text : String} (h : 0 < openDepth text) :
    pendingChars text = text.toList ++ ['\n'] := by
  rw [pendingChars, if_neg]
  intro hempty
  obtain rfl : text = "" := by simpa using hempty
  exact absurd h (by decide)

theorem spells_endLine {m n : Nat} {cs line : List Char} {ts : List Token}
    (h : Spells m (cs ++ line) ts n) : Spells m (cs ++ Text.endLine '\r' line) ts n := by
  rcases Text.eq_endLine_or '\r' line with heq | heq
  · rwa [← heq]
  · rw [heq, ← List.append_assoc] at h
    obtain ⟨us, vs, k, rfl, hus, hvs⟩ := h.exists_split (.inr rfl) (by simp)
    cases hvs
    rwa [List.append_nil]

theorem accept_of_holds {pending line : String} {ts : List Token} {forms : List Expr}
    (h : Holds (join pending line).toList ts forms) :
    (accept pending line = .dropped (join pending line) ∧ forms = []) ∨
      (accept pending line = .unit (join pending line) ∧
        readText (join pending line) = .ok forms) := by
  have hdepth : openDepth (join pending line) = 0 := openDepth_of_spells h.spells
  simp only [accept, hdepth, Nat.lt_irrefl, if_false]
  split
  · next hblank => exact .inl ⟨rfl, h.eq_nil_of_isBlank (List.all_eq_true.1 hblank)⟩
  · exact .inr ⟨rfl, h.readText_eq⟩

def Outcome.unit? : Outcome → Option String
  | unit text => some text
  | pending _ | dropped _ => none

def unitTexts (events : List Event) : List String := events.filterMap (·.outcome.unit?)

/-- The units among some events are read one after the other as some forms, and nothing is left
pending. -/
def ReadAs (result : List Event × String) (forms : List Expr) : Prop :=
  ∃ parts : List (List Expr), (unitTexts result.1).map readText = parts.map .ok ∧
    parts.flatten = forms ∧ result.2 = ""

theorem readAs_nil : ReadAs (events "" []) [] := ⟨[], rfl, rfl, rfl⟩

theorem readAs_skip {pending line : String} {lines : List String} {forms : List Expr}
    (hskip : (accept pending line).unit? = none)
    (h : ReadAs (events (accept pending line).rest lines) forms) :
    ReadAs (events pending (line :: lines)) forms := by
  obtain ⟨parts, hparts, hforms, hlast⟩ := h
  refine ⟨parts, ?_, hforms, hlast⟩
  rw [events, unitTexts, List.filterMap_cons, hskip]
  exact hparts

theorem readAs_unit {pending line text : String} {lines : List String} {es fs : List Expr}
    (hunit : accept pending line = .unit text) (hread : readText text = .ok es)
    (h : ReadAs (events "" lines) fs) : ReadAs (events pending (line :: lines)) (es ++ fs) := by
  obtain ⟨parts, hparts, rfl, hlast⟩ := h
  refine ⟨es :: parts, ?_, rfl, ?_⟩
  · rw [events, unitTexts, List.filterMap_cons, hunit]
    simp only [Outcome.unit?, List.map_cons, hread]
    exact congrArg _ hparts
  · rw [events, hunit]
    exact hlast

theorem readAs_of_holds {pending line : String} {lines : List String} {us : List Token}
    {es fs : List Expr} (hus : Holds (join pending line).toList us es)
    (h : ReadAs (events "" lines) fs) : ReadAs (events pending (line :: lines)) (es ++ fs) := by
  rcases accept_of_holds hus with ⟨hdropped, rfl⟩ | ⟨hunit, hread⟩
  · apply readAs_skip
    · rw [hdropped]
      rfl
    · rw [hdropped]
      exact h
  · exact readAs_unit hunit hread h

def charLines (cs : List Char) : List String :=
  (Text.linesFrom '\n' '\r' #[] cs).map String.ofList

theorem charLines_feed {cs : List Char} (h : '\n' ∉ cs) (ds : List Char) :
    charLines (cs ++ '\n' :: ds) = String.ofList (Text.endLine '\r' cs) :: charLines ds := by
  simp [charLines, Text.linesFrom_append_feed #[] h ds]

theorem charLines_last {cs : List Char} (h : '\n' ∉ cs) (hne : cs ≠ []) :
    charLines cs = [String.ofList cs] := by
  simp [charLines, Text.linesFrom_of_not_mem #[] h, hne]

theorem accept_of_openDepth {pending line : String} (h : 0 < openDepth (join pending line)) :
    accept pending line = .pending (join pending line) :=
  if_pos h

theorem readAs_end {pending : String} {ts : List Token} {forms : List Expr}
    (h : Holds (pendingChars pending) ts forms) (hpending : pending = "" ∨ 0 < openDepth pending) :
    ReadAs (events pending (charLines [])) forms := by
  rcases hpending with rfl | hopen
  · obtain ⟨hspells, hderives, -⟩ := h
    cases hspells
    obtain rfl := hderives.unique .nil
    exact readAs_nil
  · have hspells := h.spells
    rw [pendingChars_of_openDepth hopen] at hspells
    obtain ⟨us, vs, k, -, hus, hvs⟩ := hspells.exists_split (.inl rfl) (by simp)
    rw [openDepth_of_spells hus] at hopen
    cases hvs
    exact absurd hopen (Nat.lt_irrefl 0)

/-- What is read from a pending text and the lines that follow it. -/
theorem readAs_events (rest : List Char) {pending : String} {ts : List Token} {forms : List Expr}
    (h : Holds (pendingChars pending ++ rest) ts forms)
    (hpending : pending = "" ∨ 0 < openDepth pending) :
    ReadAs (events pending (charLines rest)) forms := by
  induction hn : rest.length using Nat.strongRecOn generalizing rest pending ts forms with
  | ind n ih =>
    by_cases hfeed : '\n' ∈ rest
    · obtain ⟨chars, after, rfl, hchars⟩ := List.eq_append_cons_of_mem hfeed
      have hlt : after.length < n := by
        rw [← hn, List.length_append, List.length_cons]
        omega
      rw [← List.append_assoc] at h
      obtain ⟨us, vs, k, rfl, hus, hvs⟩ := h.spells.exists_split (.inl rfl) fun _ => h.oneLine
      have hjoin := toList_join pending (String.ofList (Text.endLine '\r' chars))
      rw [String.toList_ofList] at hjoin
      have hspells := spells_endLine hus
      rw [← hjoin] at hspells
      rw [charLines_feed hchars]
      generalize String.ofList (Text.endLine '\r' chars) = line at hspells ⊢
      have hdepth := openDepth_of_spells hspells
      cases k with
      | zero =>
        obtain ⟨es, fs, rfl, hes, hfs⟩ := h.split hspells hvs
        exact readAs_of_holds hes (ih _ hlt after hfs (.inl rfl) rfl)
      | succ k =>
        -- The line joins the pending text, and the invariant moves on to what follows.
        have hopen : 0 < openDepth (join pending line) := by omega
        have haccept := accept_of_openDepth hopen
        apply readAs_skip
        · rw [haccept]
          rfl
        · rw [haccept]
          refine ih _ hlt after ⟨?_, h.derives, h.shallow, h.short, h.oneLine⟩ (.inr hopen) rfl
          rw [Outcome.rest, pendingChars_of_openDepth hopen, List.append_assoc]
          exact hspells.append (.of_newline after) (hvs.blank (by decide))
    · by_cases hrest : rest = []
      · rw [hrest, List.append_nil] at h
        rw [hrest]
        exact readAs_end h hpending
      · have hjoin := toList_join pending (String.ofList rest)
        rw [String.toList_ofList] at hjoin
        rw [← hjoin] at h
        rw [charLines_last hfeed hrest]
        simpa using readAs_of_holds h readAs_nil

theorem texts_unitsOf (shown : String) (events : List Event) :
    (unitsOf shown events).1.map (·.text) = unitTexts events := by
  induction events generalizing shown with
  | nil => rfl
  | cons event events ih =>
    rw [unitsOf, unitTexts, List.filterMap_cons]
    cases event.outcome with
    | unit text => exact congrArg (text :: ·) (ih "")
    | pending | dropped => exact ih (shown ++ event.asked)

end Repl

/-- A text with no string literal over a line end is read as the units of its lines. -/
theorem units_of_readText {text : String} {forms : List Expr} (h : readText text = .ok forms)
    (hstrings : ∀ t ∈ textTokens text, t.kind = .string → '\n' ∉ t.raw.toList) :
    ∃ parts : List (List Expr),
      (Repl.units (Text.lines text)).1.map (fun u => readText u.text) = parts.map .ok ∧
        parts.flatten = forms ∧ (Repl.events "" (Text.lines text)).2 = "" := by
  have hholds : Repl.Holds (Repl.pendingChars "" ++ text.toList) _ forms :=
    Repl.holds_of_readText h hstrings
  obtain ⟨parts, hparts, hforms, hlast⟩ := Repl.readAs_events text.toList hholds (.inl rfl)
  refine ⟨parts, ?_, hforms, hlast⟩
  rw [← hparts, ← Repl.texts_unitsOf "", List.map_map]
  rfl

theorem units_of_readText_of_lines :
    ∃ forms, readText "(f\r\n())\n \n\"\\n\"\n" = .ok forms ∧
      (∀ t ∈ textTokens "(f\r\n())\n \n\"\\n\"\n", t.kind = .string → '\n' ∉ t.raw.toList) ∧
      ∃ parts : List (List Expr),
        (Repl.units (Text.lines "(f\r\n())\n \n\"\\n\"\n")).1.map (fun u => readText u.text) =
          parts.map .ok ∧ parts.flatten = forms ∧
        (Repl.events "" (Text.lines "(f\r\n())\n \n\"\\n\"\n")).2 = "" := by
  have hread : (readText "(f\r\n())\n \n\"\\n\"\n").toOption.isSome = true := by decide +kernel
  have hall : (textTokens "(f\r\n())\n \n\"\\n\"\n").all
      (fun t => t.kind ≠ .string || '\n' ∉ t.raw.toList) = true := by
    decide +kernel
  have hstrings : ∀ t ∈ textTokens "(f\r\n())\n \n\"\\n\"\n",
      t.kind = .string → '\n' ∉ t.raw.toList := by
    intro t ht hkind
    simpa [hkind] using List.all_eq_true.1 hall t ht
  cases h : readText "(f\r\n())\n \n\"\\n\"\n" with
  | error fault =>
    rw [h] at hread
    cases hread
  | ok forms => exact ⟨forms, rfl, hstrings, units_of_readText h hstrings⟩

end PairLisp
