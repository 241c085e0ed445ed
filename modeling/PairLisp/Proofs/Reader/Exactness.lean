import PairLisp.Proofs.Reader.Reads

/-! # Which texts are read, and as what

A text is read exactly if it can be scanned, has no invalid token, leaves no list open and keeps
within both limits. Its forms are then those that the grammar derives from its tokens.
-/

namespace PairLisp

open Token

/-- The tokens of a text up to its end or the first fault. -/
def textTokens (text : String) : List Token := (scanText text).filterMap Except.toOption

/-- What a text has to fulfil so that it is read. -/
structure Admissible (text : String) : Prop where
  scanned : ∃ tokens last, scanText text = (tokens ++ [last]).map .ok ∧ last.kind = .endOfText
  valid : ∀ t ∈ textTokens text, t.kind ≠ .invalid
  closed : (Scanner.ofText text).run.getLast?.map (fun r => r.2.depth) = some 0
  shallow : ∀ ts, ts <+: textTokens text → opens ts ≤ closes ts + 128
  short : ListsAtMost 4096 (significant (textTokens text))

def deliverAll (es : List Expr) (lists : List OpenList) (forms : List Expr) :
    List OpenList × List Expr :=
  match lists with
  | [] => ([], forms ++ es)
  | innermost :: outer => (⟨innermost.start, innermost.elements ++ es⟩ :: outer, forms)

theorem deliverAll_cons (e : Expr) (es : List Expr) (lists : List OpenList) (forms : List Expr) :
    deliverAll (e :: es) lists forms =
      deliverAll es (Progress.deliver e lists).lists
        (forms ++ (Progress.deliver e lists).form.toList) := by
  cases lists with
  | nil => simp [deliverAll, Progress.deliver]
  | cons innermost outer => simp [deliverAll, Progress.deliver]

theorem length_deliver (e : Expr) (lists : List OpenList) :
    (Progress.deliver e lists).lists.length = lists.length := by
  cases lists <;> rfl

/-- Room for several elements is room for the first of them and, after it, for the others. -/
theorem room_deliver {e : Expr} {lists : List OpenList} {n : Nat}
    (h : ∀ l ∈ lists.head?, l.elements.size + (n + 1) ≤ maxElements) :
    HasRoom lists ∧
      ∀ l ∈ (Progress.deliver e lists).lists.head?, l.elements.size + n ≤ maxElements := by
  cases lists with
  | nil => simp [HasRoom, Progress.deliver]
  | cons innermost outer =>
    have hsize := h innermost rfl
    constructor
    · intro l hl
      cases hl
      omega
    · intro l hl
      cases hl
      simp only [Array.size_push]
      omega

theorem readTokens_significant {ts : List Token} {lists : List OpenList} {forms : Array Expr}
    {rest : List (Except ScanFault Token)} (hend : ∀ t ∈ ts, t.kind ≠ .endOfText) :
    readTokens lists forms ((significant ts).map .ok ++ rest) =
      readTokens lists forms (ts.map .ok ++ rest) := by
  induction ts generalizing lists forms with
  | nil => rfl
  | cons t ts ih =>
    obtain ⟨ht, hts⟩ := List.forall_mem_cons.1 hend
    cases hblank : t.isBlank with
    | true =>
      rw [significant_cons_of_isBlank hblank, ih hts, List.map_cons, List.cons_append, readTokens,
        if_neg ht, read_of_isBlank hblank]
    | false =>
      rw [significant_cons hblank ht]
      simp only [List.map_cons, List.cons_append, readTokens, if_neg ht]
      split
      · rfl
      · exact ih hts
      · exact ih hts

/-- Within the limits, derived forms are read wherever there is room for them. -/
theorem readTokens_of_derives {ts : List Token} {es : List Expr} (h : Derives ts es)
    {lists : List OpenList} {forms : List Expr} {rest : List (Except ScanFault Token)}
    (hroom : ∀ l ∈ lists.head?, l.elements.size + es.length ≤ maxElements)
    (hshort : ListsAtMost maxElements ts)
    (hdepth : ∀ us, us <+: ts → lists.length + opens us ≤ maxOpenLists + closes us) :
    readTokens lists forms.toArray (ts.map .ok ++ rest) =
      readTokens (deliverAll es lists forms).1 (deliverAll es lists forms).2.toArray rest := by
  induction h generalizing lists forms rest with
  | nil =>
    cases lists with
    | nil => simp [deliverAll]
    | cons innermost outer => simp [deliverAll]
  | @leaf t e ts es hleaf hts ih =>
    obtain ⟨hhere, hafter⟩ := room_deliver (e := e) hroom
    have hend : t.kind ≠ .endOfText := by
      rcases kind_of_leaf? hleaf with hk | hk | hk | hk <;> simp [hk]
    have hread : t.read 0 lists = .ok (.deliver e lists) := by
      rw [read_of_leaf? hleaf, elementOf_of_hasRoom hhere]
    rw [List.map_cons, List.cons_append, readTokens_of_ok hend hread, deliverAll_cons]
    refine ih hafter (hshort.part (List.suffix_cons t ts).isInfix) fun us hus => ?_
    have hle := hdepth (t :: us) (List.prefix_cons_inj t |>.2 hus)
    rw [length_deliver]
    rcases kind_of_leaf? hleaf with hk | hk | hk | hk <;> simpa [hk] using hle
  | @list l r inner ts elements es hl hr hinner hts ihinner ih =>
    obtain ⟨hhere, hafter⟩ := room_deliver (e := .ofList elements) hroom
    have hlength : lists.length < maxOpenLists := by
      have hle := hdepth [l] (List.prefix_append [l] _)
      simp [hl] at hle
      omega
    have hopen : l.read 0 lists = .ok ⟨⟨l.position, #[]⟩ :: lists, none⟩ := by
      rw [read_of_leftParen hl, elementOf_of_hasRoom hhere, if_neg (by omega)]
    have hclose : r.read 0 (⟨l.position, (#[] : Array Expr) ++ elements⟩ :: lists) =
        .ok (.deliver (.ofList elements) lists) := by
      rw [read_of_rightParen hr]
      simp
    calc readTokens lists forms.toArray ((l :: (inner ++ r :: ts)).map .ok ++ rest)
        = readTokens (⟨l.position, #[]⟩ :: lists) forms.toArray
            (inner.map .ok ++ (.ok r :: (ts.map .ok ++ rest))) := by
          rw [List.map_cons, List.cons_append, readTokens_of_ok (by simp [hl]) hopen]
          simp
      _ = readTokens (⟨l.position, (#[] : Array Expr) ++ elements⟩ :: lists) forms.toArray
            (.ok r :: (ts.map .ok ++ rest)) := by
          refine ihinner ?_ (hshort.part (inner_isPart ..)) fun us hus => ?_
          · intro innermost hinnermost
            cases hinnermost
            simpa using hshort [] l inner r ts elements rfl hl hr hinner
          · obtain ⟨after, rfl⟩ := hus
            have hle := hdepth (l :: us) ⟨after ++ r :: ts, by simp⟩
            simp [hl] at hle
            simp only [List.length_cons]
            omega
      _ = readTokens (Progress.deliver (.ofList elements) lists).lists
            (forms ++ (Progress.deliver (.ofList elements) lists).form.toList).toArray
            (ts.map .ok ++ rest) := readTokens_of_ok (by simp [hr]) hclose
      _ = _ := by
          rw [deliverAll_cons]
          refine ih hafter (hshort.part (after_isPart ..)) fun us hus => ?_
          obtain ⟨after, rfl⟩ := hus
          have hle := hdepth (l :: (inner ++ r :: us)) ⟨after, by simp⟩
          have hbalanced := hinner.opens_eq_closes
          simp [hl, hr] at hle
          rw [length_deliver]
          omega

/-! ## Scanned texts -/

variable {text : String} {ts : List Token} {s : Scanner}

theorem textTokens_of_steps (h : (Scanner.ofText text).Steps ts s) (hrest : s.rest = []) :
    textTokens text = ts ++ [⟨.endOfText, "", s.position⟩] := by
  rw [textTokens, Scanner.scanText_eq_outcomes, h.outcomes_eq, Scanner.outcomes_of_nil hrest,
    List.filterMap_append, List.filterMap_map]
  congr 1
  exact List.filterMap_some

theorem significant_textTokens (h : (Scanner.ofText text).Steps ts s) (hrest : s.rest = []) :
    significant (textTokens text) = significant ts := by
  rw [textTokens_of_steps h hrest, significant_append]
  exact List.append_nil _

theorem exists_steps_of_scanned {tokens : List Token}
    (h : scanText text = tokens.map .ok) :
    ∃ ts s, (Scanner.ofText text).Steps ts s ∧ s.rest = [] := by
  obtain ⟨ts, s, hsteps, hrest | ⟨fault, u, hnext⟩⟩ := (Scanner.ofText text).exists_steps
  · exact ⟨ts, s, hsteps, hrest⟩
  · rw [Scanner.scanText_eq_outcomes, hsteps.outcomes_eq, Scanner.outcomes_of_error hnext] at h
    have hmem : Except.error fault ∈ tokens.map Except.ok := h ▸ by simp
    simp at hmem

theorem Admissible.exists_derives (h : Admissible text) :
    ∃ ts s forms, (Scanner.ofText text).Steps ts s ∧ s.rest = [] ∧
      Derives (significant ts) forms := by
  obtain ⟨tokens, last, hscan, -⟩ := h.scanned
  obtain ⟨ts, s, hsteps, hrest⟩ := exists_steps_of_scanned hscan
  have hopen : ∀ us, us <+: ts → closes us ≤ opens us := by
    rintro us ⟨after, rfl⟩
    obtain ⟨t, hbefore, -⟩ := hsteps.split
    have hdepth := hbefore.depth_add_closes
    have hstart : (Scanner.ofText text).depth = 0 := rfl
    omega
  have hvalid : ∀ t ∈ ts, t.kind ≠ .invalid ∧ t.kind ≠ .endOfText := fun t ht =>
    ⟨h.valid t (by rw [textTokens_of_steps hsteps hrest]; exact List.mem_append_left _ ht),
      hsteps.kind_ne_endOfText t ht⟩
  obtain ⟨lists, forms, hunfinished⟩ := Unfinished.exists_of_closes_le_opens hvalid hopen
  have hclosed := h.closed
  rw [hsteps.getLast?_run hrest] at hclosed
  have hdepth : s.depth = 0 := Option.some.inj hclosed
  have hlists := hunfinished.length_add_closes
  have hcount := hsteps.depth_add_closes
  have hstart : (Scanner.ofText text).depth = 0 := rfl
  rw [opens_significant, closes_significant] at hlists
  obtain rfl : lists = [] := List.length_eq_zero_iff.1 (by omega)
  exact ⟨ts, s, forms, hsteps, hrest, Unfinished.outside_iff.1 hunfinished⟩

/-- A derivation of an admissible text is what the text is read as. -/
theorem Admissible.readText_eq {forms : List Expr} (h : Admissible text)
    (hforms : Derives (significant (textTokens text)) forms) : readText text = .ok forms := by
  obtain ⟨ts, s, _, hsteps, hrest, -⟩ := h.exists_derives
  rw [significant_textTokens hsteps hrest] at hforms
  have hshort := h.short
  rw [significant_textTokens hsteps hrest] at hshort
  have hshallow : ∀ us, us <+: significant ts →
      ([] : List OpenList).length + opens us ≤ maxOpenLists + closes us := by
    rintro us ⟨after, hafter⟩
    obtain ⟨vs, ws, rfl, rfl, -⟩ := List.filter_eq_append_iff.1 hafter.symm
    have hle := h.shallow vs (by
      rw [textTokens_of_steps hsteps hrest, List.append_assoc]
      exact List.prefix_append vs _)
    rw [← significant, opens_significant, closes_significant, List.length_nil, maxOpenLists]
    omega
  rw [readText, Scanner.scanText_eq_outcomes, hsteps.outcomes_eq, Scanner.outcomes_of_nil hrest,
    ← readTokens_significant hsteps.kind_ne_endOfText]
  exact readTokens_of_derives hforms (by simp) hshort hshallow

theorem admissible_of_readText {forms : List Expr} (h : readText text = .ok forms) :
    Admissible text ∧ Derives (significant (textTokens text)) forms := by
  have hstop := readText_stop text
  rw [h] at hstop
  cases hstop with
  | @finished ts s _ hsteps hrest hreads =>
    have htokens := textTokens_of_steps hsteps hrest
    have hsignificant := significant_textTokens hsteps hrest
    refine ⟨⟨?_, ?_, ?_, ?_, ?_⟩, ?_⟩
    · refine ⟨ts, ⟨.endOfText, "", s.position⟩, ?_, rfl⟩
      rw [Scanner.scanText_eq_outcomes, hsteps.outcomes_eq, Scanner.outcomes_of_nil hrest]
      simp
    · intro t ht
      rw [htokens, List.mem_append, List.mem_singleton] at ht
      rcases ht with ht | rfl
      · exact hreads.kind_ne_invalid t ht
      · simp [Token.kind, Content.kind]
    · rw [hsteps.getLast?_run hrest]
      exact congrArg some (hreads.length_eq_depth hsteps).symm
    · intro us hus
      rw [htokens] at hus
      have hcount {vs : List Token} (hvs : vs <+: ts) : opens vs ≤ closes vs + 128 := by
        obtain ⟨lists, forms, hvs⟩ := hreads.front hvs
        have hle := hvs.length_le
        have hlength := hvs.length_add_closes
        rw [maxOpenLists] at hle
        omega
      rcases List.prefix_concat_iff.1 hus with rfl | hus
      · simpa [Token.kind, Content.kind] using hcount (List.prefix_refl ts)
      · exact hcount hus
    · rw [hsignificant]
      exact hreads.listsAtMost
    · rw [hsignificant]
      exact Unfinished.outside_iff.1 hreads.unfinished

/-- A text is read exactly if it is admissible, and as the forms that its tokens derive. -/
theorem readText_exact (text : String) :
    ((∃ forms, readText text = .ok forms) ↔ Admissible text) ∧
      ∀ forms, readText text = .ok forms ↔
        Admissible text ∧ Derives (significant (textTokens text)) forms := by
  refine ⟨⟨?_, ?_⟩, fun forms => ⟨admissible_of_readText, fun h => h.1.readText_eq h.2⟩⟩
  · rintro ⟨forms, h⟩
    exact (admissible_of_readText h).1
  · intro h
    obtain ⟨ts, s, forms, hsteps, hrest, hforms⟩ := h.exists_derives
    exact ⟨forms, h.readText_eq (by rwa [significant_textTokens hsteps hrest])⟩

end PairLisp
