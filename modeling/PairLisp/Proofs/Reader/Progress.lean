import Mathlib.Data.List.Induction
import PairLisp.Proofs.Reader.Grammar

/-! # What has been read

Reading keeps complete forms, and for every open list its opening parenthesis and complete elements.
One token changes this in four ways: not at all, by a leaf, by a list that it opens or by a list
that it closes. A whole text is read by reading its tokens one after the other, so the first one
that is refused decides.
-/

namespace PairLisp

open Token

/-- Whether the innermost open list takes another element; outside all lists there is room. -/
def HasRoom (lists : List OpenList) : Prop := ∀ l ∈ lists.head?, l.elements.size < maxElements

/-- The tokens `ts` are complete forms followed, for every list in `lists` from the outermost one
on, by the opening parenthesis and complete elements. -/
inductive Unfinished : List Token → List OpenList → List Expr → Prop where
  | outside {ts : List Token} {forms : List Expr} : Derives ts forms → Unfinished ts [] forms
  | inside {ts inner : List Token} {l : Token} {innermost : OpenList} {lists : List OpenList}
      {forms : List Expr} : Unfinished ts lists forms → l.kind = .leftParen →
        innermost.start = l.position → Derives inner innermost.elements.toList →
        Unfinished (ts ++ l :: inner) (innermost :: lists) forms

namespace Token

variable {t : Token} {e : Expr} {lists : List OpenList} {p : Progress} {fault : ReadFault}
  {stuck : Nat}

theorem elementOf_of_hasRoom {r : Except ReadFault Progress} (h : HasRoom lists) :
    elementOf lists r = r := by
  cases lists with
  | nil => rfl
  | cons innermost outer => exact if_pos (h innermost rfl)

theorem elementOf_of_full {r : Except ReadFault Progress} {innermost : OpenList}
    (h : maxElements ≤ innermost.elements.size) :
    elementOf (innermost :: lists) r = .error ⟨.lengthOverflow, innermost.start⟩ :=
  if_neg (Nat.not_lt.2 h)

theorem hasRoom_or_full (lists : List OpenList) :
    HasRoom lists ∨ ∃ innermost outer, lists = innermost :: outer ∧
      maxElements ≤ innermost.elements.size := by
  cases lists with
  | nil => exact .inl (by simp [HasRoom])
  | cons innermost outer =>
    by_cases h : innermost.elements.size < maxElements
    · exact .inl (by simpa [HasRoom] using h)
    · exact .inr ⟨innermost, outer, rfl, Nat.not_lt.1 h⟩

theorem elementOf_eq_ok {r : Except ReadFault Progress} (h : elementOf lists r = .ok p) :
    HasRoom lists ∧ r = .ok p := by
  rcases hasRoom_or_full lists with hroom | ⟨innermost, outer, rfl, hfull⟩
  · rw [elementOf_of_hasRoom hroom] at h
    exact ⟨hroom, h⟩
  · rw [elementOf_of_full hfull] at h
    cases h

theorem elementOf_eq_error {r : Except ReadFault Progress} (h : elementOf lists r = .error fault) :
    fault.reason = .lengthOverflow ∨ r = .error fault := by
  rcases hasRoom_or_full lists with hroom | ⟨innermost, outer, rfl, hfull⟩
  · rw [elementOf_of_hasRoom hroom] at h
    exact .inr h
  · rw [elementOf_of_full hfull] at h
    cases h
    exact .inl rfl

theorem read_of_isBlank (h : t.isBlank = true) : t.read stuck lists = .ok ⟨lists, none⟩ := by
  rw [isBlank, kind] at h
  rw [read.eq_def]
  cases hc : t.content <;> simp_all [Content.kind]

theorem read_of_leaf? (h : t.leaf? = some e) :
    t.read stuck lists = elementOf lists (.ok (.deliver e lists)) := by
  rw [leaf?] at h
  rw [read.eq_def]
  cases hc : t.content <;> simp_all

theorem read_of_leftParen (h : t.kind = .leftParen) :
    t.read stuck lists = elementOf lists (if maxOpenLists ≤ stuck + lists.length then
      .error ⟨.depthOverflow, t.position⟩ else .ok ⟨⟨t.position, #[]⟩ :: lists, none⟩) := by
  rw [kind] at h
  rw [read.eq_def]
  cases hc : t.content <;> simp_all [Content.kind]

theorem read_of_rightParen {innermost : OpenList} {outer : List OpenList}
    (h : t.kind = .rightParen) : t.read stuck (innermost :: outer) =
      .ok (.deliver (.ofList innermost.elements.toList) outer) := by
  rw [kind] at h
  rw [read.eq_def]
  cases hc : t.content <;> simp_all [Content.kind]

theorem read_of_invalid (h : t.kind = .invalid) :
    t.read stuck lists = elementOf lists (.error ⟨.invalidToken t.raw, t.position⟩) := by
  rw [kind] at h
  rw [read.eq_def]
  cases hc : t.content <;> simp_all [Content.kind]

theorem read_of_unmatched (h : t.kind = .rightParen) :
    t.read stuck [] = .error ⟨.invalidToken t.raw, t.position⟩ := by
  rw [kind] at h
  rw [read.eq_def]
  cases hc : t.content <;> simp_all [Content.kind]

theorem isBlank_of_leaf? (h : t.leaf? = some e) : t.isBlank = false := by
  rcases kind_of_leaf? h with hk | hk | hk | hk <;> simp [isBlank, hk]

theorem classify (t : Token) :
    t.kind = .endOfText ∨ t.isBlank = true ∨ (∃ e, t.leaf? = some e) ∨ t.kind = .leftParen ∨
      t.kind = .rightParen ∨ t.kind = .invalid := by
  rw [exists_leaf?_iff, isBlank]
  cases t.kind <;> simp

/-- Everything that a token can do to the open lists. -/
theorem read_eq_ok (h : t.read stuck lists = .ok p) (hend : t.kind ≠ .endOfText) :
    (t.isBlank = true ∧ p = ⟨lists, none⟩) ∨
      (HasRoom lists ∧ ∃ e, t.leaf? = some e ∧ p = .deliver e lists) ∨
      (HasRoom lists ∧ stuck + lists.length < maxOpenLists ∧ t.kind = .leftParen ∧
        p = ⟨⟨t.position, #[]⟩ :: lists, none⟩) ∨
      (t.kind = .rightParen ∧ ∃ innermost outer, lists = innermost :: outer ∧
        p = .deliver (.ofList innermost.elements.toList) outer) := by
  rcases t.classify with hkind | hblank | ⟨e, hleaf⟩ | hkind | hkind | hkind
  · exact absurd hkind hend
  · rw [read_of_isBlank hblank] at h
    exact .inl ⟨hblank, (Except.ok.inj h).symm⟩
  · rw [read_of_leaf? hleaf] at h
    obtain ⟨hroom, hp⟩ := elementOf_eq_ok h
    exact .inr (.inl ⟨hroom, e, hleaf, (Except.ok.inj hp).symm⟩)
  · rw [read_of_leftParen hkind] at h
    obtain ⟨hroom, hp⟩ := elementOf_eq_ok h
    by_cases hdepth : maxOpenLists ≤ stuck + lists.length
    · rw [if_pos hdepth] at hp
      cases hp
    · rw [if_neg hdepth] at hp
      exact .inr (.inr (.inl ⟨hroom, Nat.lt_of_not_le hdepth, hkind, (Except.ok.inj hp).symm⟩))
  · cases lists with
    | nil =>
      rw [read_of_unmatched hkind] at h
      cases h
    | cons innermost outer =>
      rw [read_of_rightParen hkind] at h
      exact .inr (.inr (.inr ⟨hkind, innermost, outer, rfl, (Except.ok.inj h).symm⟩))
  · rw [read_of_invalid hkind] at h
    cases (elementOf_eq_ok h).2

end Token

namespace Unfinished

variable {ts us : List Token} {t : Token} {e : Expr} {lists : List OpenList} {forms : List Expr}

theorem outside_iff : Unfinished ts [] forms ↔ Derives ts forms := by
  constructor
  · intro h
    cases h with
    | outside hts => exact hts
  · exact .outside

/-- Every open list has an opening parenthesis that nothing has closed. -/
theorem length_add_closes (h : Unfinished ts lists forms) :
    lists.length + closes ts = opens ts := by
  induction h with
  | outside hts => simp [hts.opens_eq_closes]
  | inside _ hl _ hinner ih =>
    have heq := hinner.opens_eq_closes
    simp [hl]
    omega

theorem eq_innermost {before inner : List Token} {l : Token} {elements : List Expr}
    (h : Unfinished (before ++ l :: inner) lists forms) (hl : l.kind = .leftParen)
    (hinner : Derives inner elements) :
    ∃ innermost outer, lists = innermost :: outer ∧ innermost.start = l.position ∧
      innermost.elements.toList = elements := by
  generalize hts : before ++ l :: inner = ts at h
  cases h with
  | outside h => exact absurd (hts ▸ h) (hinner.not_append_leftParen hl)
  | @inside _ _ _ innermost outer _ _ hl' hstart hinner' =>
    obtain ⟨-, rfl, rfl⟩ := Derives.opening_unique hinner hinner' hl hl' hts
    exact ⟨innermost, outer, rfl, hstart, hinner'.unique hinner⟩

theorem deliver (h : Unfinished ts lists forms) (he : Derives us [e]) :
    Unfinished (ts ++ us) (Progress.deliver e lists).lists
      (forms ++ (Progress.deliver e lists).form.toList) := by
  cases h with
  | outside hts => exact .outside (hts.append he)
  | @inside ts inner l innermost outer _ houter hl hstart hinner =>
    rw [List.append_assoc, List.cons_append]
    refine .inside (by simpa [Progress.deliver] using houter) hl hstart ?_
    rw [Array.toList_push]
    exact hinner.append he

theorem opening (h : Unfinished ts lists forms) (ht : t.kind = .leftParen) :
    Unfinished (ts ++ [t]) (⟨t.position, #[]⟩ :: lists) forms :=
  .inside h ht rfl .nil

theorem closing {innermost : OpenList} (h : Unfinished ts (innermost :: lists) forms)
    (ht : t.kind = .rightParen) :
    Unfinished (ts ++ [t]) (Progress.deliver (.ofList innermost.elements.toList) lists).lists
      (forms ++ (Progress.deliver (.ofList innermost.elements.toList) lists).form.toList) := by
  cases h with
  | inside houter hl _ hinner =>
    rw [List.append_assoc, List.cons_append]
    exact houter.deliver (.parenthesized hl ht hinner)

/-- Reading a token keeps account of it. -/
theorem read {stuck : Nat} {p : Progress} (h : Unfinished (significant ts) lists forms)
    (hend : t.kind ≠ .endOfText) (hread : t.read stuck lists = .ok p) :
    Unfinished (significant (ts ++ [t])) p.lists (forms ++ p.form.toList) := by
  rw [significant_append]
  rcases read_eq_ok hread hend with ⟨hblank, rfl⟩ | ⟨-, e, hleaf, rfl⟩ | ⟨-, -, hkind, rfl⟩ |
    ⟨hkind, innermost, outer, rfl, rfl⟩
  · simpa [significant_cons_of_isBlank hblank] using h
  · rw [significant_cons (isBlank_of_leaf? hleaf) hend]
    exact h.deliver (.singleton hleaf)
  · rw [significant_cons (by simp [isBlank, hkind]) hend]
    simpa using h.opening hkind
  · rw [significant_cons (by simp [isBlank, hkind]) hend]
    exact h.closing hkind

/-- Tokens of known kinds that close no more than they open can always be read so far. -/
theorem exists_of_closes_le_opens (hvalid : ∀ t ∈ ts, t.kind ≠ .invalid ∧ t.kind ≠ .endOfText)
    (hopen : ∀ us, us <+: ts → closes us ≤ opens us) :
    ∃ lists forms, Unfinished (significant ts) lists forms := by
  induction ts using List.reverseRecOn with
  | nil => exact ⟨[], [], .outside .nil⟩
  | append_singleton ts t ih =>
    obtain ⟨lists, forms, h⟩ := ih (fun u hu => hvalid u (List.mem_append_left _ hu))
      fun us hus => hopen us (hus.trans (List.prefix_append ts [t]))
    obtain ⟨hinvalid, hend⟩ := hvalid t (by simp)
    rw [significant_append]
    rcases t.classify with hkind | hblank | ⟨e, hleaf⟩ | hkind | hkind | hkind
    · exact absurd hkind hend
    · exact ⟨lists, forms, by simpa [significant_cons_of_isBlank hblank] using h⟩
    · rw [significant_cons (isBlank_of_leaf? hleaf) hend]
      exact ⟨_, _, h.deliver (.singleton hleaf)⟩
    · rw [significant_cons (by simp [isBlank, hkind]) hend]
      exact ⟨_, _, h.opening hkind⟩
    · rw [significant_cons (by simp [isBlank, hkind]) hend]
      have hlength := h.length_add_closes
      have hle := hopen _ (List.prefix_refl (ts ++ [t]))
      rw [opens_significant, closes_significant] at hlength
      rw [opens_append, closes_append] at hle
      simp [hkind] at hle
      cases lists with
      | nil => simp at hlength; omega
      | cons innermost outer => exact ⟨_, _, h.closing hkind⟩
    · exact absurd hkind hinvalid

end Unfinished

end PairLisp
