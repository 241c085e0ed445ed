import PairLisp.Proofs.Expr.Listing
import PairLisp.Proofs.Reader.Spelled

/-! # Forms written as source

A form that was read is written in list form with every atom in the text it was read from and the
empty list as an empty pair of parentheses. Reading what is written gives the same form again, with
the same texts in its atoms, since the text of every token is cut as that token wherever it stands.
-/

namespace PairLisp

/-- A leaf as it stands in a text. -/
def Expr.sourceText : Expr → String
  | nil => "()"
  | atom a => a.raw
  | leaf => leaf.leafText

def ListStyle.source : ListStyle := .plain Expr.sourceText

namespace SpellsForms

variable {leaf : Expr → String} {es : List Expr} {r : Expr → Expr}

theorem listedItems (h : ∀ e ∈ es, SpellsForms (e.listed leaf) [r e]) :
    SpellsForms (Expr.listedItems leaf es) (es.map r) := by
  induction es with
  | nil => exact .nil
  | cons e es ih =>
    obtain ⟨he, hes⟩ := List.forall_mem_cons.1 h
    rw [Expr.listedItems, List.map_cons]
    split
    · next hlast =>
      obtain ⟨-, rfl⟩ := hlast
      rw [List.append_nil]
      exact he
    · exact he.append (.of_space _) (ih hes).space

theorem listed_ofList (hne : es ≠ []) (hlength : es.length ≤ maxElements)
    (h : ∀ e ∈ es, SpellsForms (e.listed leaf) [r e]) :
    SpellsForms ((Expr.ofList es).listed leaf) [.ofList (es.map r)] := by
  cases es with
  | nil => exact absurd rfl hne
  | cons e es =>
    rw [Expr.listed_ofList_cons]
    exact (listedItems h).space.list (by simpa using hlength)

end SpellsForms

namespace Token

theorem listed_of_leaf? {t : Token} {e : Expr} (h : t.leaf? = some e) :
    e.listed Expr.sourceText = t.raw.toList := by
  rw [leaf?] at h
  split at h <;> cases h <;> rfl

/-- Forms derived from lexemes are written as texts of these forms. -/
theorem Derives.spellsForms {ts : List Token} {es : List Expr} (h : Derives ts es)
    (hlexeme : ∀ t ∈ ts, ∀ e, t.leaf? = some e → t.IsLexeme)
    (hshort : ListsAtMost maxElements ts) :
    ∀ e ∈ es, SpellsForms (e.listed Expr.sourceText) [e] := by
  induction h with
  | nil => simp
  | leaf hleaf _ ih =>
    obtain ⟨hhere, hafter⟩ := List.forall_mem_cons.1 hlexeme
    refine List.forall_mem_cons.2 ⟨?_, ih hafter (hshort.part (List.suffix_cons _ _).isInfix)⟩
    rw [listed_of_leaf? hleaf]
    exact .leaf (hhere _ hleaf) hleaf
  | @list l r inner ts elements es hl hr hinner hts ihinner ih =>
    have hparts : ∀ {us}, us <:+: l :: (inner ++ r :: ts) →
        ∀ t ∈ us, ∀ e, t.leaf? = some e → t.IsLexeme :=
      fun hpart t ht => hlexeme t (hpart.subset ht)
    have hpart := inner_isPart l r inner ts
    have hafter := after_isPart l r inner ts
    refine List.forall_mem_cons.2 ⟨?_, ih (hparts hafter) (hshort.part hafter)⟩
    have helements := ihinner (hparts hpart) (hshort.part hpart)
    have hlength := hshort [] l inner r ts elements rfl hl hr hinner
    by_cases hne : elements = []
    · subst hne
      exact SpellsForms.nil.list hlength
    · have hlist := SpellsForms.listed_ofList (r := id) hne hlength helements
      rwa [List.map_id] at hlist

end Token

/-- A form that was read is written as a text that is read as this form alone. -/
theorem readText_listing_source {text : String} {forms : List Expr}
    (h : readText text = .ok forms) :
    ∀ f ∈ forms, readText (f.listing .source 0) = .ok [f] := by
  intro f hf
  obtain ⟨ts, hspells, hforms, -, hshort⟩ := readText_iff_spells.1 h
  have hlexeme : ∀ t ∈ ts, ∀ e, t.leaf? = some e → t.IsLexeme :=
    fun t ht e hleaf => hspells.isLexeme ht hleaf
  have hwritten := hforms.spellsForms hlexeme hshort f hf
  apply SpellsForms.readText_eq
  · rwa [ListStyle.source, Expr.toList_listing]
  · simpa using parenDepth_of_readText h f hf

theorem readText_listing_source_of_nested :
    ∃ f, readText "(f () (0x1F 1e3\"\\t\"))" = .ok [f] ∧
      f.listing .source 0 = "( f () ( 0x1F 1e3 \"\\t\" ))" ∧
      readText (f.listing .source 0) = .ok [f] := by
  have hall : (readText "(f () (0x1F 1e3\"\\t\"))").toOption.map (·.map (·.listing .source 0)) =
      some ["( f () ( 0x1F 1e3 \"\\t\" ))"] := by decide +kernel
  obtain ⟨forms, hforms, hlisting⟩ := Option.map_eq_some_iff.1 hall
  obtain ⟨f, rfl, hf⟩ := List.map_eq_singleton_iff.1 hlisting
  cases hread : readText "(f () (0x1F 1e3\"\\t\"))" with
  | error fault =>
    rw [hread] at hforms
    cases hforms
  | ok forms =>
    rw [hread] at hforms
    obtain rfl : forms = [f] := Option.some.inj hforms
    exact ⟨f, rfl, hf, readText_listing_source hread f (List.mem_singleton_self f)⟩

end PairLisp
