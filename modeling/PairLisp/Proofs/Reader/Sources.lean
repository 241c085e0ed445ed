import PairLisp.Proofs.Reader.Exactness

/-! # What forms are made of

The forms of a text are symbols, literals and proper lists within the limit on their length. No
integer in them is negative, since a sign is never part of a literal.
-/

namespace PairLisp

/-- Expressions that a text can stand for. -/
inductive Expr.IsSource : Expr → Prop where
  | symbol (name : String) : IsSource (.symbol name)
  | int {raw : String} {n : Int64} : 0 ≤ n.toInt → IsSource (.atom ⟨raw, .int n⟩)
  | float (raw : String) (x : Float) : IsSource (.atom ⟨raw, .float x⟩)
  | string (raw s : String) : IsSource (.atom ⟨raw, .string s⟩)
  | list {es : List Expr} : es.length ≤ maxElements → (∀ e ∈ es, IsSource e) →
      IsSource (.ofList es)

/-! ## Integers in tokens -/

theorem Scanner.piece_int {depth : Nat} {c : Char} {cs : List Char} {n : Int64}
    (h : (piece depth c cs).outcome = .ok (.int n)) : 0 ≤ n.toInt := by
  have hcut := cuts_piece depth c cs
  generalize piece depth c cs = p at h hcut
  cases hcut with
  | int _ _ hn =>
    cases h
    exact hn
  | _ => cases h

theorem Scanner.Steps.int_nonneg {s t : Scanner} {ts : List Token} (h : Steps s ts t) :
    ∀ token ∈ ts, ∀ n, token.content = .int n → 0 ≤ n.toInt := by
  induction h with
  | refl => simp
  | head hnext hkind _ ih =>
    refine List.forall_mem_cons.2 ⟨fun n hn => ?_, ih⟩
    obtain ⟨c, cs, -, hout, -, -, -⟩ := exists_piece_of_next hnext hkind
    rw [hn] at hout
    exact piece_int hout

namespace Token

theorem isSource_of_leaf? {t : Token} {e : Expr} (h : t.leaf? = some e)
    (hint : ∀ n, t.content = .int n → 0 ≤ n.toInt) : e.IsSource := by
  rw [leaf?] at h
  split at h <;> cases h
  · exact .symbol _
  · next n hn => exact .int (hint n hn)
  · exact .float _ _
  · exact .string _ _

theorem Derives.isSource {ts : List Token} {es : List Expr} (h : Derives ts es)
    (hint : ∀ t ∈ ts, ∀ n, t.content = .int n → 0 ≤ n.toInt)
    (hshort : ListsAtMost maxElements ts) : ∀ e ∈ es, e.IsSource := by
  induction h with
  | nil => simp
  | @leaf t e ts es hleaf _ ih =>
    obtain ⟨ht, hts⟩ := List.forall_mem_cons.1 hint
    exact List.forall_mem_cons.2
      ⟨isSource_of_leaf? hleaf ht, ih hts (hshort.part (List.suffix_cons t ts).isInfix)⟩
  | @list l r inner ts elements es hl hr hinner _ ihinner ih =>
    have hinside := inner_isPart l r inner ts
    have hafter := after_isPart l r inner ts
    refine List.forall_mem_cons.2 ⟨.list ?_ (ihinner ?_ (hshort.part hinside)), ih ?_ ?_⟩
    · exact hshort [] l inner r ts elements rfl hl hr hinner
    · exact fun t ht => hint t (hinside.subset ht)
    · exact fun t ht => hint t (hafter.subset ht)
    · exact hshort.part hafter

end Token

theorem isSource_of_readText {text : String} {forms : List Expr}
    (h : readText text = .ok forms) : ∀ e ∈ forms, e.IsSource := by
  obtain ⟨hadmissible, hforms⟩ := admissible_of_readText h
  obtain ⟨ts, s, _, hsteps, hrest, -⟩ := hadmissible.exists_derives
  have hshort := hadmissible.short
  rw [significant_textTokens hsteps hrest] at hforms hshort
  exact hforms.isSource (fun t ht => hsteps.int_nonneg t (List.mem_filter.1 ht).1) hshort

end PairLisp
