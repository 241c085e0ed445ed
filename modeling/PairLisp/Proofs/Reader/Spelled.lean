import PairLisp.Proofs.Reader.Nesting
import PairLisp.Proofs.Scanner.Spelling

/-! # Reading what a text spells

A text is read as the forms that the tokens it spells derive, if these keep within the limits. So
the text of some forms can be put together from the texts of their parts, as long as the texts meet
at characters that no token can take in.
-/

namespace PairLisp
namespace Token

variable {ts us : List Token} {es fs : List Expr} {limit n : Nat}

/-! ## Tokens without places -/

theorem Derives.of_unplaced (h : Derives ts es) (heq : ts.map unplaced = us.map unplaced) :
    Derives us es := by
  induction h generalizing us with
  | nil =>
    obtain rfl : us = [] := by simpa using heq.symm
    exact .nil
  | leaf hleaf _ ih =>
    obtain ⟨u, us, rfl, hu, hus⟩ := List.map_eq_cons_iff.1 heq.symm
    refine .leaf ?_ (ih hus.symm)
    rw [← leaf?_unplaced, hu, leaf?_unplaced, hleaf]
  | list hl hr _ _ ihinner ih =>
    obtain ⟨l, us, rfl, hl', hus⟩ := List.map_eq_cons_iff.1 heq.symm
    rw [List.map_append] at hus
    obtain ⟨inner, us, rfl, hinner, hus⟩ := List.map_eq_append_iff.1 hus
    obtain ⟨r, us, rfl, hr', hus⟩ := List.map_eq_cons_iff.1 hus
    refine .list ?_ ?_ (ihinner hinner.symm) (ih hus.symm)
    · rw [← kind_unplaced, hl', kind_unplaced, hl]
    · rw [← kind_unplaced, hr', kind_unplaced, hr]

theorem derives_map_unplaced_iff : Derives (ts.map unplaced) es ↔ Derives ts es := by
  have heq : (ts.map unplaced).map unplaced = ts.map unplaced := by simp [unplaced]
  exact ⟨fun h => h.of_unplaced heq, fun h => h.of_unplaced heq.symm⟩

theorem listsAtMost_map_unplaced_iff :
    ListsAtMost limit (ts.map unplaced) ↔ ListsAtMost limit ts := by
  constructor
  · rintro h before l inner r after elements rfl hl hr hinner
    exact h (before.map unplaced) l.unplaced (inner.map unplaced) r.unplaced (after.map unplaced)
      elements (by simp) hl hr (derives_map_unplaced_iff.2 hinner)
  · intro h before l inner r after elements heq hl hr hinner
    obtain ⟨before, ts, rfl, rfl, hlist⟩ := List.map_eq_append_iff.1 heq
    obtain ⟨l, ts, rfl, rfl, hrest⟩ := List.map_eq_cons_iff.1 hlist
    obtain ⟨inner, ts, rfl, rfl, hclose⟩ := List.map_eq_append_iff.1 hrest
    obtain ⟨r, after, rfl, rfl, rfl⟩ := List.map_eq_cons_iff.1 hclose
    exact h before l inner r after elements rfl hl hr (derives_map_unplaced_iff.1 hinner)

theorem openAtMost_map_unplaced_iff : OpenAtMost n (ts.map unplaced) ↔ OpenAtMost n ts := by
  constructor
  · rintro h us ⟨after, rfl⟩
    have hle := h (us.map unplaced) (by simp)
    rwa [opens_map_unplaced, closes_map_unplaced] at hle
  · rintro h us ⟨after, hafter⟩
    obtain ⟨us, ws, rfl, rfl, -⟩ := List.map_eq_append_iff.1 hafter.symm
    have hle := h us (List.prefix_append us ws)
    rwa [opens_map_unplaced, closes_map_unplaced]

/-! ## Lists among tokens put together -/

theorem Derives.kind_ne_invalid (h : Derives ts es) : ∀ t ∈ ts, t.kind ≠ .invalid := by
  induction h with
  | nil => simp
  | leaf hleaf _ ih =>
    refine List.forall_mem_cons.2 ⟨?_, ih⟩
    rcases kind_of_leaf? hleaf with hk | hk | hk | hk <;> simp [hk]
  | list hl hr _ _ ihinner ih =>
    refine List.forall_mem_cons.2 ⟨by simp [hl], ?_⟩
    refine List.forall_mem_append.2 ⟨ihinner, List.forall_mem_cons.2 ⟨by simp [hr], ih⟩⟩

theorem listsAtMost_nil : ListsAtMost limit [] := by
  intro before l inner r after elements heq
  simp at heq

theorem listsAtMost_singleton (t : Token) : ListsAtMost limit [t] := by
  intro before l inner r after elements heq
  have hlength := congrArg List.length heq
  simp at hlength
  omega

theorem ListsAtMost.append (h : Derives ts es) (hts : ListsAtMost limit ts)
    (hus : ListsAtMost limit us) : ListsAtMost limit (ts ++ us) := by
  intro before l inner r after elements heq hl hr hinner
  rcases List.append_eq_append_iff.1 heq with ⟨mid, rfl, hmid⟩ | ⟨mid, hsplit, hmid⟩
  · exact hus mid l inner r after elements hmid hl hr hinner
  rcases List.cons_eq_append_iff.1 hmid with ⟨rfl, rfl⟩ | ⟨mid, rfl, hinside⟩
  · exact hus [] l inner r after elements rfl hl hr hinner
  rcases List.append_eq_append_iff.1 hinside with ⟨mid, rfl, hclose⟩ | ⟨mid, rfl, rfl⟩
  · rcases List.cons_eq_append_iff.1 hclose with ⟨rfl, rfl⟩ | ⟨mid, rfl, rfl⟩
    · rw [hsplit, List.append_nil] at h
      exact absurd h (hinner.not_append_leftParen hl)
    · exact hts before l inner r mid elements hsplit hl hr hinner
  · -- The forms would have to end where the list is still open.
    have hback := h.opens_le_closes_back ⟨before, hsplit.symm⟩
    have hfront := hinner.closes_le_opens_front
    simp [hl] at hback
    omega

theorem ListsAtMost.parenthesized {l r : Token} {inner : List Token} (hl : l.kind = .leftParen)
    (hinner : Derives inner es) (hlength : es.length ≤ limit) (h : ListsAtMost limit inner) :
    ListsAtMost limit (l :: (inner ++ [r])) := by
  have hopen : ListsAtMost limit (l :: inner) := by
    intro before l' inner' r' after elements heq hl' hr' hinner'
    rcases List.cons_eq_append_iff.1 heq with ⟨rfl, heq⟩ | ⟨before, rfl, rfl⟩
    · obtain ⟨rfl, rfl⟩ := List.cons.inj heq
      exact absurd hinner (hinner'.not_append_rightParen hr')
    · exact h before l' inner' r' after elements rfl hl' hr' hinner'
  refine hopen.snoc fun _ before l' inner' elements heq hl' hinner' => ?_
  have hfront : [] ++ l :: inner = before ++ l' :: inner' := heq
  obtain ⟨-, -, rfl⟩ := Derives.opening_unique hinner hinner' hl hl' hfront
  rwa [hinner'.unique hinner]

end Token

open Token

/-! ## Reading -/

theorem spells_of_readText {text : String} {forms : List Expr} (h : readText text = .ok forms) :
    let ts := (significant (textTokens text)).map unplaced
    Spells 0 text.toList ts 0 ∧ Derives ts forms ∧ OpenAtMost 128 ts ∧ ListsAtMost 4096 ts := by
  obtain ⟨hadmissible, hforms⟩ := admissible_of_readText h
  obtain ⟨tokens, last, hscan, -⟩ := hadmissible.scanned
  obtain ⟨ts, s, hsteps, hrest⟩ := exists_steps_of_scanned hscan
  have hclosed := hadmissible.closed
  rw [hsteps.getLast?_run hrest] at hclosed
  have hspells := Spells.of_steps hsteps hrest
  rw [show s.depth = 0 from Option.some.inj hclosed, ← significant_textTokens hsteps hrest]
    at hspells
  have hshallow : OpenAtMost 128 (textTokens text) := hadmissible.shallow
  rw [← openAtMost_significant_iff] at hshallow
  exact ⟨hspells, derives_map_unplaced_iff.2 hforms, openAtMost_map_unplaced_iff.2 hshallow,
    listsAtMost_map_unplaced_iff.2 hadmissible.short⟩

/-- A text is read exactly as what it spells derives. -/
theorem readText_iff_spells {text : String} {forms : List Expr} :
    readText text = .ok forms ↔ ∃ ts, Spells 0 text.toList ts 0 ∧ Derives ts forms ∧
      OpenAtMost 128 ts ∧ ListsAtMost 4096 ts := by
  constructor
  · exact fun h => ⟨_, spells_of_readText h⟩
  · rintro ⟨_, hspells, hforms, hshallow, hshort⟩
    obtain ⟨ts, s, hsteps, hrest, hdepth, rfl⟩ := hspells.exists_steps .start
    rw [derives_map_unplaced_iff] at hforms
    rw [openAtMost_map_unplaced_iff] at hshallow
    rw [listsAtMost_map_unplaced_iff] at hshort
    have hscanned : (Scanner.ofText text).Steps ts s := hsteps
    have htokens := significant_textTokens hscanned hrest
    rw [← htokens] at hforms hshort hshallow
    refine Admissible.readText_eq ⟨⟨ts, ⟨.endOfText, "", s.position⟩, ?_, rfl⟩, ?_, ?_, ?_, hshort⟩
      hforms
    · rw [Scanner.scanText_eq_outcomes, hscanned.outcomes_eq, Scanner.outcomes_of_nil hrest]
      simp
    · intro t ht hkind
      refine hforms.kind_ne_invalid t ?_ hkind
      simp [significant, ht, isBlank, hkind]
    · rw [hscanned.getLast?_run hrest, ← hdepth]
      rfl
    · exact openAtMost_significant_iff.1 hshallow

/-! ## Texts of forms -/

/-- The characters are the text of some forms, whatever is open around them. -/
def SpellsForms (cs : List Char) (es : List Expr) : Prop :=
  ∃ ts, (∀ depth, Spells depth cs ts depth) ∧ Derives ts es ∧ ListsAtMost maxElements ts

namespace SpellsForms

variable {cs ds : List Char} {es fs : List Expr}

theorem nil : SpellsForms [] [] := ⟨[], .nil, .nil, listsAtMost_nil⟩

theorem leaf {t : Token} {e : Expr} (h : t.IsLexeme) (hleaf : t.leaf? = some e) :
    SpellsForms t.raw.toList [e] :=
  ⟨[t.unplaced], .lexeme h hleaf, .singleton hleaf, listsAtMost_singleton _⟩

theorem space (h : SpellsForms cs es) : SpellsForms (' ' :: cs) es := by
  obtain ⟨ts, hspells, hforms, hshort⟩ := h
  exact ⟨ts, fun depth => (hspells depth).blank (by decide), hforms, hshort⟩

theorem append (h : SpellsForms cs es) (hds : Separated ds) (h' : SpellsForms ds fs) :
    SpellsForms (cs ++ ds) (es ++ fs) := by
  obtain ⟨ts, hspells, hforms, hshort⟩ := h
  obtain ⟨us, hspells', hforms', hshort'⟩ := h'
  exact ⟨ts ++ us, fun depth => (hspells depth).append hds (hspells' depth),
    hforms.append hforms', hshort.append hforms hshort'⟩

theorem list (h : SpellsForms cs es) (hlength : es.length ≤ maxElements) :
    SpellsForms ('(' :: (cs ++ [')'])) [.ofList es] := by
  obtain ⟨ts, hspells, hforms, hshort⟩ := h
  refine ⟨_, fun depth => (hspells (depth + 1)).parenthesized, ?_, ?_⟩
  · exact .parenthesized rfl rfl hforms
  · exact .parenthesized rfl hforms hlength hshort

/-- The text of forms that are not nested too deeply is read as these forms. -/
theorem readText_eq {text : String} (h : SpellsForms text.toList es)
    (hdepth : ∀ e ∈ es, e.parenDepth ≤ 128) : readText text = .ok es := by
  obtain ⟨ts, hspells, hforms, hshort⟩ := h
  exact readText_iff_spells.2 ⟨ts, hspells 0, hforms, hforms.parenDepth_le_iff.1 hdepth, hshort⟩

end SpellsForms
end PairLisp
