import PairLisp.Proofs.Reader.Exactness

/-! # Which fault is reported

A fault is that of the first token in the text that offends. Whether a token offends depends on the
tokens before it through the innermost open list, its elements so far and the number of open lists.
The reader never meets a closing parenthesis outside all lists, since the scanner refuses it.
-/

namespace PairLisp

open Token

/-- The parenthesis `l` opens the innermost list open after `ts`, which has `elements` so far. -/
def Innermost (ts : List Token) (l : Token) (elements : List Expr) : Prop :=
  ∃ before inner, significant ts = before ++ l :: inner ∧ l.kind = .leftParen ∧
    Derives inner elements

/-- The innermost list open after `ts` has all the elements that it may have. -/
def IsFull (ts : List Token) : Prop :=
  ∃ l elements, Innermost ts l elements ∧ 4096 ≤ elements.length

def Token.startsElement (t : Token) : Bool :=
  !(t.isBlank || t.kind = .rightParen || t.kind = .endOfText)

/-- What is wrong with what the scanner gives after the tokens `before`. -/
inductive Offends (before : List Token) : Except ScanFault Token → Fault → Prop where
  | scan (fault : ScanFault) : Offends before (.error fault) (.scan fault)
  | length {t l : Token} {elements : List Expr} : t.startsElement = true →
      Innermost before l elements → 4096 ≤ elements.length →
        Offends before (.ok t) (.read ⟨.lengthOverflow, l.position⟩)
  | invalid {t : Token} : ¬IsFull before → t.kind = .invalid →
      Offends before (.ok t) (.read ⟨.invalidToken t.raw, t.position⟩)
  | depth {t : Token} : ¬IsFull before → t.kind = .leftParen →
      closes before + 128 ≤ opens before →
        Offends before (.ok t) (.read ⟨.depthOverflow, t.position⟩)
  | unclosed {t l : Token} {elements : List Expr} : t.kind = .endOfText →
      Innermost before l elements → Offends before (.ok t) (.read ⟨.unmatchedOpen, l.position⟩)

/-- None of some tokens offends where it stands. -/
def Unoffending (ts : List Token) : Prop :=
  ∀ before t after fault, ts = before ++ t :: after → ¬Offends before (.ok t) fault

/-- The fault of the first thing in a text that offends. -/
def FirstOffence (text : String) (fault : Fault) : Prop :=
  ∃ before r after, scanText text = before.map .ok ++ r :: after ∧ Unoffending before ∧
    Offends before r fault

variable {ts : List Token} {t : Token} {lists : List OpenList} {forms : List Expr}
  {fault : Fault} {text : String}

namespace Token

theorem read_of_full {stuck : Nat} {innermost : OpenList} {outer : List OpenList}
    (hstart : t.startsElement = true) (hfull : maxElements ≤ innermost.elements.size) :
    t.read stuck (innermost :: outer) = .error ⟨.lengthOverflow, innermost.start⟩ := by
  simp only [startsElement, Bool.not_eq_true', Bool.or_eq_false_iff, decide_eq_false_iff_not]
    at hstart
  rcases t.classify with hkind | hblank | ⟨e, hleaf⟩ | hkind | hkind | hkind
  · exact absurd hkind hstart.2
  · simp [hblank] at hstart
  · rw [read_of_leaf? hleaf, elementOf_of_full hfull]
  · rw [read_of_leftParen hkind, elementOf_of_full hfull]
  · exact absurd hkind hstart.1.2
  · rw [read_of_invalid hkind, elementOf_of_full hfull]

theorem startsElement_of_leaf? {e : Expr} (h : t.leaf? = some e) : t.startsElement = true := by
  rcases kind_of_leaf? h with hk | hk | hk | hk <;> simp [startsElement, isBlank, hk]

end Token

namespace Reads

theorem last (h : Reads (ts ++ [t]) lists forms) :
    ∃ lists' forms' p, Reads ts lists' forms' ∧ t.kind ≠ .endOfText ∧
      t.read 0 lists' = .ok p := by
  generalize hus : ts ++ [t] = us at h
  cases h with
  | nil => simp at hus
  | snoc h hend hread =>
    obtain ⟨rfl, hlast⟩ := List.append_inj' hus rfl
    obtain rfl := List.singleton_inj.1 hlast
    exact ⟨_, _, _, h, hend, hread⟩

theorem exists_innermost {innermost : OpenList} {outer : List OpenList}
    (h : Reads ts (innermost :: outer) forms) :
    ∃ l, Innermost ts l innermost.elements.toList ∧ l.position = innermost.start := by
  generalize hus : significant ts = us
  have hunfinished := hus ▸ h.unfinished
  cases hunfinished with
  | inside _ hl hstart hinner => exact ⟨_, ⟨_, _, hus, hl, hinner⟩, hstart.symm⟩

theorem eq_of_innermost {l : Token} {elements : List Expr} (h : Reads ts lists forms)
    (hinnermost : Innermost ts l elements) :
    ∃ innermost outer, lists = innermost :: outer ∧ innermost.start = l.position ∧
      innermost.elements.toList = elements := by
  obtain ⟨before, inner, heq, hl, hinner⟩ := hinnermost
  exact (heq ▸ h.unfinished).eq_innermost hl hinner

theorem isFull_iff (h : Reads ts lists forms) : IsFull ts ↔ ¬HasRoom lists := by
  constructor
  · rintro ⟨l, elements, hinnermost, hlength⟩ hroom
    obtain ⟨innermost, outer, rfl, -, rfl⟩ := h.eq_of_innermost hinnermost
    have hsize : innermost.elements.size < maxElements := hroom innermost rfl
    rw [maxElements] at hsize
    rw [Array.length_toList] at hlength
    omega
  · intro hfull
    rcases hasRoom_or_full lists with hroom | ⟨innermost, outer, rfl, hsize⟩
    · exact absurd hroom hfull
    · obtain ⟨l, hinnermost, -⟩ := h.exists_innermost
      exact ⟨l, _, hinnermost, by simpa [maxElements] using hsize⟩

/-- An element is refused for the room that it does not have or for itself. -/
theorem offends_or_hasRoom {r : Except ReadFault Progress} {f : ReadFault}
    (h : Reads ts lists forms) (hstart : t.startsElement = true)
    (hread : elementOf lists r = .error f) :
    Offends ts (.ok t) (.read f) ∨ (¬IsFull ts ∧ r = .error f) := by
  rcases hasRoom_or_full lists with hroom | ⟨innermost, outer, rfl, hfull⟩
  · rw [elementOf_of_hasRoom hroom] at hread
    exact .inr ⟨mt h.isFull_iff.1 (not_not.2 hroom), hread⟩
  · rw [elementOf_of_full hfull] at hread
    cases hread
    obtain ⟨l, hinnermost, hposition⟩ := h.exists_innermost
    rw [← hposition]
    exact .inl (.length hstart hinnermost (by simpa [maxElements] using hfull))

theorem offends_iff (h : Reads ts lists forms) (hend : t.kind ≠ .endOfText)
    (hclose : t.kind = .rightParen → lists ≠ []) :
    Offends ts (.ok t) fault ↔ ∃ f, t.read 0 lists = .error f ∧ fault = .read f := by
  have hlength := h.length_add_closes
  constructor
  · intro hoffends
    cases hoffends with
    | length hstart hinnermost hfull =>
      obtain ⟨innermost, outer, rfl, hposition, rfl⟩ := h.eq_of_innermost hinnermost
      exact ⟨_, read_of_full hstart (by simpa [maxElements] using hfull), by rw [hposition]⟩
    | invalid hfull hkind =>
      have hroom := not_not.1 (mt h.isFull_iff.2 hfull)
      exact ⟨_, by rw [read_of_invalid hkind, elementOf_of_hasRoom hroom], rfl⟩
    | depth hfull hkind hdepth =>
      have hroom := not_not.1 (mt h.isFull_iff.2 hfull)
      have hlists : maxOpenLists ≤ 0 + lists.length := by rw [maxOpenLists]; omega
      exact ⟨_, by rw [read_of_leftParen hkind, elementOf_of_hasRoom hroom, if_pos hlists], rfl⟩
    | unclosed hkind _ => exact absurd hkind hend
  · rintro ⟨f, hread, rfl⟩
    rcases t.classify with hkind | hblank | ⟨e, hleaf⟩ | hkind | hkind | hkind
    · exact absurd hkind hend
    · rw [read_of_isBlank hblank] at hread
      cases hread
    · rw [read_of_leaf? hleaf] at hread
      rcases h.offends_or_hasRoom (startsElement_of_leaf? hleaf) hread with hoffends | ⟨-, hok⟩
      · exact hoffends
      · cases hok
    · have hstart : t.startsElement = true := by simp [startsElement, isBlank, hkind]
      rw [read_of_leftParen hkind] at hread
      rcases h.offends_or_hasRoom hstart hread with hoffends | ⟨hfull, hdeep⟩
      · exact hoffends
      · by_cases hdepth : maxOpenLists ≤ 0 + lists.length
        · rw [if_pos hdepth] at hdeep
          cases hdeep
          exact .depth hfull hkind (by rw [maxOpenLists] at hdepth; omega)
        · rw [if_neg hdepth] at hdeep
          cases hdeep
    · obtain ⟨innermost, outer, rfl⟩ := List.exists_cons_of_ne_nil (hclose hkind)
      rw [read_of_rightParen hkind] at hread
      cases hread
    · have hstart : t.startsElement = true := by simp [startsElement, isBlank, hkind]
      rw [read_of_invalid hkind] at hread
      rcases h.offends_or_hasRoom hstart hread with hoffends | ⟨hfull, hinvalid⟩
      · exact hoffends
      · cases hinvalid
        exact .invalid hfull hkind

theorem offends_end_iff (h : Reads ts lists forms) (hend : t.kind = .endOfText) :
    Offends ts (.ok t) fault ↔ ∃ f, atEnd lists = .error f ∧ fault = .read f := by
  constructor
  · intro hoffends
    cases hoffends with
    | length hstart => simp [startsElement, hend] at hstart
    | invalid _ hkind | depth _ hkind => simp [hend] at hkind
    | unclosed _ hinnermost =>
      obtain ⟨innermost, outer, rfl, hposition, -⟩ := h.eq_of_innermost hinnermost
      exact ⟨_, rfl, by rw [hposition]⟩
  · rintro ⟨f, hatEnd, rfl⟩
    cases lists with
    | nil => cases hatEnd
    | cons innermost outer =>
      cases hatEnd
      obtain ⟨l, hinnermost, hposition⟩ := h.exists_innermost
      rw [← hposition]
      exact .unclosed hend hinnermost

/-- Nothing that was read offends. -/
theorem unoffending (h : Reads ts lists forms) : Unoffending ts := by
  rintro before t after fault rfl hoffends
  have hpart : before ++ [t] <+: before ++ t :: after := ⟨after, by simp⟩
  obtain ⟨lists', forms', hfront⟩ := h.front hpart
  obtain ⟨lists, forms, p, hbefore, hend, hread⟩ := hfront.last
  have hclose : t.kind = .rightParen → lists ≠ [] := by
    rintro hkind rfl
    rw [read_of_unmatched hkind] at hread
    cases hread
  obtain ⟨f, hrefused, -⟩ := (hbefore.offends_iff hend hclose).1 hoffends
  rw [hread] at hrefused
  cases hrefused

/-- The scanner gives a closing parenthesis only for a list that is open. -/
theorem ne_nil_of_rightParen {s u : Scanner} (h : Reads ts lists forms)
    (hsteps : (Scanner.ofText text).Steps ts s) (hnext : s.next = (.ok t, u))
    (hkind : t.kind = .rightParen) : lists ≠ [] := by
  obtain ⟨c, cs, -, hout, -, -, -⟩ := Scanner.exists_piece_of_next hnext (by simp [hkind])
  rw [Content.kind_eq_rightParen.1 hkind] at hout
  have hpos := Scanner.piece_rightParen hout
  rw [← h.length_eq_depth hsteps] at hpos
  exact List.length_pos_iff.1 hpos

/-- Tokens that the scanner takes are read as long as none of them offends. -/
theorem of_unoffending {s : Scanner} (hsteps : (Scanner.ofText text).Steps ts s)
    (hfine : Unoffending ts) : ∃ lists forms, Reads ts lists forms := by
  obtain ⟨read, lists, forms, hreads, rfl | ⟨t, after, f, rfl, hread⟩⟩ :=
    Reads.nil.exists_longest ts hsteps.kind_ne_endOfText
  · exact ⟨lists, forms, hreads⟩
  · obtain ⟨u, hbefore, hafter⟩ := hsteps.split
    cases hafter with
    | head hnext hend _ =>
      have hoffends : Offends read (.ok t) (.read f) := (hreads.offends_iff hend
        (hreads.ne_nil_of_rightParen hbefore hnext)).2 ⟨f, hread, rfl⟩
      exact absurd hoffends (hfine read t after _ rfl)

end Reads

/-! ## The fault of a text -/

theorem firstOffence_of_readText (h : readText text = .error fault) : FirstOffence text fault := by
  have hstop := readText_stop text
  rw [h] at hstop
  cases hstop with
  | @unclosed ts s innermost outer forms hsteps hrest hreads =>
    refine ⟨ts, .ok ⟨.endOfText, "", s.position⟩, [], ?_, hreads.unoffending, ?_⟩
    · rw [Scanner.scanText_eq_outcomes, hsteps.outcomes_eq, Scanner.outcomes_of_nil hrest]
    · exact (hreads.offends_end_iff rfl).2 ⟨_, rfl, rfl⟩
  | @scan ts s t lists forms f hsteps hnext hreads =>
    refine ⟨ts, .error f, [], ?_, hreads.unoffending, .scan f⟩
    rw [Scanner.scanText_eq_outcomes, hsteps.outcomes_eq, Scanner.outcomes_of_error hnext]
  | @refused ts s u t lists forms f hsteps hnext hend hreads hread =>
    refine ⟨ts, .ok t, u.outcomes, ?_, hreads.unoffending, ?_⟩
    · rw [Scanner.scanText_eq_outcomes, hsteps.outcomes_eq, Scanner.outcomes_of_token hnext hend]
    · exact (hreads.offends_iff hend (hreads.ne_nil_of_rightParen hsteps hnext)).2 ⟨f, hread, rfl⟩

theorem readText_of_firstOffence (h : FirstOffence text fault) : readText text = .error fault := by
  obtain ⟨before, r, after, hscan, hfine, hoffends⟩ := h
  rw [Scanner.scanText_eq_outcomes] at hscan
  obtain ⟨s, hsteps, hafter⟩ := Scanner.exists_steps_of_outcomes hscan
  obtain ⟨lists, forms, hreads⟩ := Reads.of_unoffending hsteps hfine
  rw [readText, Scanner.scanText_eq_outcomes, hscan, hreads.readTokens_eq]
  cases r with
  | error f =>
    cases hoffends
    rfl
  | ok t =>
    obtain ⟨u, hnext⟩ := Scanner.next_of_outcomes hafter
    by_cases hend : t.kind = .endOfText
    · obtain ⟨f, hatEnd, rfl⟩ := (hreads.offends_end_iff hend).1 hoffends
      rw [readTokens, if_pos hend, hatEnd]
    · obtain ⟨f, hread, rfl⟩ :=
        (hreads.offends_iff hend (hreads.ne_nil_of_rightParen hsteps hnext)).1 hoffends
      exact readTokens_of_error hend hread

/-! ## Closing parentheses without a partner -/

theorem readText_of_unmatched {before : List Token} {r : Except ScanFault Token}
    {after : List (Except ScanFault Token)} {cs : List Char}
    (hscan : scanText text = before.map .ok ++ r :: after) (hfine : Unoffending before)
    (hdepth : opens before = closes before) (htext : text.toList = chars before ++ ')' :: cs) :
    readText text = .error (.scan ⟨.unmatchedClose, Position.start.advance (chars before)⟩) := by
  obtain ⟨s, hsteps, hafter⟩ := Scanner.exists_steps_of_outcomes hscan
  obtain ⟨hrest, hposition⟩ := hsteps.rest_eq
  replace hrest : s.rest = ')' :: cs := List.append_cancel_left (hrest.symm.trans htext)
  have hcount := hsteps.depth_add_closes
  have hstart : (Scanner.ofText text).depth = 0 := rfl
  have hout : (Scanner.piece s.depth ')' cs).outcome = .error .unmatchedClose := by
    rw [show s.depth = 0 by omega]
    rfl
  have hnext := Scanner.next_of_error hrest hout
  rw [Scanner.outcomes_of_error hnext] at hafter
  obtain ⟨rfl, rfl⟩ := List.cons.inj hafter
  refine readText_of_firstOffence ⟨before, _, [], hscan, hfine, ?_⟩
  rw [hposition]
  exact .scan _

theorem readText_ne_invalidClose (p : Position) :
    readText text ≠ .error (.read ⟨.invalidToken ")", p⟩) := by
  intro h
  obtain ⟨before, r, after, hscan, -, hoffends⟩ := firstOffence_of_readText h
  generalize hfault : Fault.read ⟨.invalidToken ")", p⟩ = fault at hoffends
  cases hoffends with
  | scan | length | depth | unclosed => cases hfault
  | @invalid t _ hkind =>
    obtain ⟨s, -, hafter⟩ := Scanner.exists_steps_of_outcomes hscan
    obtain ⟨u, hnext⟩ := Scanner.next_of_outcomes hafter
    obtain ⟨c, cs, -, hout, hraw, -, -⟩ := Scanner.exists_piece_of_next hnext (by simp [hkind])
    rw [Content.kind_eq_invalid.1 hkind] at hout
    obtain ⟨hpiece, hne⟩ := Scanner.piece_invalid hout
    rw [hpiece] at hraw
    injection hfault with hfault
    injection hfault with hreason
    injection hreason with hclose
    rw [hraw] at hclose
    exact hne (by simpa using (congrArg String.toList hclose).symm)

end PairLisp
