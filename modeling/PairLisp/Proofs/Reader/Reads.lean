import PairLisp.Proofs.Reader.Progress

/-! # Reading a text token by token

Tokens that are all accepted lead to open lists and complete forms. They keep within the limits, and
what they have read is a derivation once no list is open. Reading a text stops in one of three ways:
at a token that is refused, at a fault of the scanner or at the end of the text.
-/

namespace PairLisp

open Token

/-- Reading `ts` from the start of a text, with no token refused, leaves `lists` open and `forms`
complete. -/
inductive Reads : List Token → List OpenList → List Expr → Prop where
  | nil : Reads [] [] []
  | snoc {ts : List Token} {t : Token} {lists : List OpenList} {forms : List Expr}
      {p : Progress} : Reads ts lists forms → t.kind ≠ .endOfText → t.read 0 lists = .ok p →
        Reads (ts ++ [t]) p.lists (forms ++ p.form.toList)

/-- The limits on open lists: an outer list is still to take the list inside it. -/
def WithinLimits : List OpenList → Prop
  | [] => True
  | innermost :: outer => outer.length < maxOpenLists ∧ innermost.elements.size ≤ maxElements ∧
      ∀ l ∈ outer, l.elements.size < maxElements

variable {ts us : List Token} {t : Token} {lists : List OpenList} {forms : List Expr}
  {rest : List (Except ScanFault Token)}

theorem readTokens_of_ok {p : Progress} (hend : t.kind ≠ .endOfText)
    (h : t.read 0 lists = .ok p) :
    readTokens lists forms.toArray (.ok t :: rest) =
      readTokens p.lists (forms ++ p.form.toList).toArray rest := by
  obtain ⟨lists', form⟩ := p
  rw [readTokens, if_neg hend, h]
  cases form <;> simp

theorem readTokens_of_error {fault : ReadFault} {forms : Array Expr} (hend : t.kind ≠ .endOfText)
    (h : t.read 0 lists = .error fault) :
    readTokens lists forms (.ok t :: rest) = .error (.read fault) := by
  rw [readTokens, if_neg hend, h]

namespace WithinLimits

theorem deliver {e : Expr} (h : WithinLimits lists) (hroom : HasRoom lists) :
    WithinLimits (Progress.deliver e lists).lists := by
  cases lists with
  | nil => trivial
  | cons innermost outer =>
    have hsize : innermost.elements.size < maxElements := hroom innermost rfl
    exact ⟨h.1, by simpa [Progress.deliver] using Nat.succ_le_of_lt hsize, h.2.2⟩

theorem read {p : Progress} (h : WithinLimits lists) (hend : t.kind ≠ .endOfText)
    (hread : t.read 0 lists = .ok p) : WithinLimits p.lists := by
  rcases read_eq_ok hread hend with ⟨-, rfl⟩ | ⟨hroom, e, -, rfl⟩ | ⟨hroom, hlt, -, rfl⟩ |
    ⟨-, innermost, outer, rfl, rfl⟩
  · exact h
  · exact h.deliver hroom
  · refine ⟨by simpa using hlt, Nat.zero_le _, fun l hl => ?_⟩
    cases lists with
    | nil => cases hl
    | cons innermost outer =>
      rcases List.mem_cons.1 hl with rfl | hl
      · exact hroom l rfl
      · exact h.2.2 l hl
  · cases outer with
    | nil => trivial
    | cons next outer =>
      have hnext := h.2.2 next List.mem_cons_self
      refine ⟨Nat.lt_of_succ_lt h.1, ?_, fun l hl => ?_⟩
      · simpa [Progress.deliver] using Nat.succ_le_of_lt hnext
      · exact h.2.2 l (List.mem_cons_of_mem _ hl)

end WithinLimits

namespace Reads

theorem unfinished (h : Reads ts lists forms) : Unfinished (significant ts) lists forms := by
  induction h with
  | nil => exact .outside .nil
  | snoc _ hend hread ih => exact ih.read hend hread

theorem readTokens_eq (h : Reads ts lists forms) :
    readTokens [] #[] (ts.map .ok ++ rest) = readTokens lists forms.toArray rest := by
  induction h generalizing rest with
  | nil => rfl
  | snoc _ hend hread ih =>
    rw [List.map_append, List.append_assoc, ih]
    exact readTokens_of_ok hend hread

theorem front (h : Reads ts lists forms) (hus : us <+: ts) :
    ∃ lists forms, Reads us lists forms := by
  induction h with
  | nil => exact ⟨[], [], List.prefix_nil.1 hus ▸ .nil⟩
  | snoc h hend hread ih =>
    rcases List.prefix_concat_iff.1 hus with rfl | hus
    · exact ⟨_, _, .snoc h hend hread⟩
    · exact ih hus

theorem length_add_closes (h : Reads ts lists forms) : lists.length + closes ts = opens ts := by
  have hlists := h.unfinished.length_add_closes
  rwa [opens_significant, closes_significant] at hlists

/-- The scanner counts the lists that are open. -/
theorem length_eq_depth {text : String} {s : Scanner} (h : Reads ts lists forms)
    (hsteps : (Scanner.ofText text).Steps ts s) : lists.length = s.depth := by
  have hlists := h.length_add_closes
  have hdepth := hsteps.depth_add_closes
  have hstart : (Scanner.ofText text).depth = 0 := rfl
  omega

theorem kind_ne_invalid (h : Reads ts lists forms) : ∀ t ∈ ts, t.kind ≠ .invalid := by
  induction h with
  | nil => simp
  | @snoc ts t lists forms p _ hend hread ih =>
    have ht : t.kind ≠ .invalid := by
      intro hkind
      rw [read_of_invalid hkind] at hread
      cases (elementOf_eq_ok hread).2
    simpa using fun u => Or.rec (ih u) fun hu => hu ▸ ht

theorem withinLimits (h : Reads ts lists forms) : WithinLimits lists := by
  induction h with
  | nil => trivial
  | snoc _ hend hread ih => exact ih.read hend hread

theorem length_le (h : Reads ts lists forms) : lists.length ≤ maxOpenLists := by
  have hlimits := h.withinLimits
  cases lists with
  | nil => exact Nat.zero_le _
  | cons innermost outer => exact hlimits.1

/-- Every list that was closed kept within the limit while it was open. -/
theorem listsAtMost (h : Reads ts lists forms) : ListsAtMost maxElements (significant ts) := by
  induction h with
  | nil =>
    rintro before l inner r after elements heq - - -
    simp at heq
  | @snoc ts t lists forms p h hend _ ih =>
    rw [significant_append]
    cases hblank : t.isBlank with
    | true => simpa [significant_cons_of_isBlank hblank] using ih
    | false =>
      rw [significant_cons hblank hend]
      refine ListsAtMost.snoc ih fun _ before l inner elements heq hl hinner => ?_
      obtain ⟨innermost, outer, rfl, -, rfl⟩ := (heq ▸ h.unfinished).eq_innermost hl hinner
      exact h.withinLimits.2.1

theorem exists_longest (h : Reads ts lists forms) (us : List Token)
    (hend : ∀ t ∈ us, t.kind ≠ .endOfText) :
    ∃ read lists forms, Reads (ts ++ read) lists forms ∧ (read = us ∨
      ∃ t after fault, us = read ++ t :: after ∧ t.read 0 lists = .error fault) := by
  induction us generalizing ts lists forms with
  | nil => exact ⟨[], lists, forms, by simpa using h, .inl rfl⟩
  | cons t us ih =>
    obtain ⟨ht, hus⟩ := List.forall_mem_cons.1 hend
    cases hread : t.read 0 lists with
    | error fault => exact ⟨[], lists, forms, by simpa using h, .inr ⟨t, us, fault, rfl, hread⟩⟩
    | ok p =>
      obtain ⟨read, lists', forms', hreads, hstop⟩ := ih (h.snoc ht hread) hus
      refine ⟨t :: read, lists', forms', by simpa using hreads, ?_⟩
      rcases hstop with rfl | ⟨u, after, fault, rfl, hrefused⟩
      · exact .inl rfl
      · exact .inr ⟨u, after, fault, rfl, hrefused⟩

end Reads

/-! ## How reading a text stops -/

/-- How reading a text stops: at the end of the text, at a fault of the scanner or at a token that
is refused. -/
inductive Stop (text : String) : Except Fault (List Expr) → Prop where
  | finished {ts : List Token} {s : Scanner} {forms : List Expr} :
      (Scanner.ofText text).Steps ts s → s.rest = [] → Reads ts [] forms → Stop text (.ok forms)
  | unclosed {ts : List Token} {s : Scanner} {innermost : OpenList} {outer : List OpenList}
      {forms : List Expr} : (Scanner.ofText text).Steps ts s → s.rest = [] →
        Reads ts (innermost :: outer) forms →
        Stop text (.error (.read ⟨.unmatchedOpen, innermost.start⟩))
  | scan {ts : List Token} {s t : Scanner} {lists : List OpenList} {forms : List Expr}
      {fault : ScanFault} : (Scanner.ofText text).Steps ts s → s.next = (.error fault, t) →
        Reads ts lists forms → Stop text (.error (.scan fault))
  | refused {ts : List Token} {s u : Scanner} {t : Token} {lists : List OpenList}
      {forms : List Expr} {fault : ReadFault} : (Scanner.ofText text).Steps ts s →
        s.next = (.ok t, u) → t.kind ≠ .endOfText → Reads ts lists forms →
        t.read 0 lists = .error fault → Stop text (.error (.read fault))

theorem readText_stop (text : String) : Stop text (readText text) := by
  obtain ⟨ts, s, hsteps, hstop⟩ := (Scanner.ofText text).exists_steps
  obtain ⟨read, lists, forms, hreads, hread⟩ :=
    Reads.nil.exists_longest ts hsteps.kind_ne_endOfText
  rw [List.nil_append] at hreads
  rw [readText, Scanner.scanText_eq_outcomes]
  rcases hread with rfl | ⟨t, after, fault, rfl, hrefused⟩
  · rw [hsteps.outcomes_eq, hreads.readTokens_eq]
    rcases hstop with hrest | ⟨fault, u, hnext⟩
    · rw [Scanner.outcomes_of_nil hrest]
      cases lists with
      | nil => exact .finished hsteps hrest hreads
      | cons innermost outer => exact .unclosed hsteps hrest hreads
    · rw [Scanner.outcomes_of_error hnext]
      exact .scan hsteps hnext hreads
  · obtain ⟨u, hbefore, hafter⟩ := hsteps.split
    cases hafter with
    | head hnext hend _ =>
      rw [hbefore.outcomes_eq, hreads.readTokens_eq, Scanner.outcomes_of_token hnext hend,
        readTokens_of_error hend hrefused]
      exact .refused hbefore hnext hend hreads hrefused

end PairLisp
