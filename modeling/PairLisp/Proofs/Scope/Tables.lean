import Mathlib.Data.List.Destutter
import PairLisp.Proofs.Scope.Layers

/-! # Scopes as tables

The bindings of a scope may be kept in a table that has its entries in any order. The visible names
are then the names of all tables of a chain, collected, sorted and each taken once, and the text of
a scope lists the entries of its table sorted by their names. So neither depends on the order in
which a table happens to keep its entries.
-/

namespace PairLisp

/-- The entries of a table, in the order in which it happens to keep them. -/
abbrev Table := List (String × Expr)

/-- Writing an entry, which takes the place of the one for its name. -/
def Table.write (table : Table) (entry : String × Expr) : Table :=
  entry :: table.filter (·.1 ≠ entry.1)

namespace Bindings

variable {b : Bindings} {table table' : Table}

/-- The table has one entry for each bound name, with its value. -/
structure KeptIn (b : Bindings) (table : Table) : Prop where
  nodup : (table.map Prod.fst).Nodup
  mem_iff : ∀ n v, (n, v) ∈ table ↔ b.find? n = some v

namespace KeptIn

theorem empty : empty.KeptIn [] where
  nodup := .nil
  mem_iff n v := by simp [find?_empty]

theorem reorder (h : b.KeptIn table) (hperm : table.Perm table') : b.KeptIn table' where
  nodup := (hperm.map Prod.fst).nodup_iff.1 h.nodup
  mem_iff n v := hperm.mem_iff.symm.trans (h.mem_iff n v)

theorem insert (h : b.KeptIn table) (name : String) (value : Expr) :
    (b.insert name value).KeptIn (table.write (name, value)) where
  nodup := by
    refine List.nodup_cons.2 ⟨fun hmem => ?_, h.nodup.sublist (List.filter_sublist.map _)⟩
    obtain ⟨entry, hentry, hname⟩ := List.mem_map.1 hmem
    simpa [hname] using (List.mem_filter.1 hentry).2
  mem_iff n v := by
    rw [find?_insert, Table.write, List.mem_cons, List.mem_filter, h.mem_iff]
    by_cases hn : n = name
    · simp [hn, eq_comm]
    · simp [hn]

theorem insertAll (h : b.KeptIn table) (ws : Writes) :
    (b.insertAll ws).KeptIn (ws.foldl Table.write table) := by
  induction ws generalizing b table with
  | nil => exact h
  | cons w ws ih => exact ih (h.insert w.1 w.2)

theorem entries (b : Bindings) : b.KeptIn b.entries where
  nodup := (names_ascending b).imp String.ne_of_lt
  mem_iff n v := by
    rw [find?, List.lookup_eq_some_iff]
    constructor
    · intro hmem
      obtain ⟨before, after, hsplit⟩ := List.append_of_mem hmem
      refine ⟨before, after, hsplit, fun entry hentry => bne_iff_ne.2 fun heq => ?_⟩
      have hascending := b.ascending
      rw [hsplit] at hascending
      have hlt := (List.pairwise_append.1 hascending).2.2 entry hentry _ List.mem_cons_self
      exact String.lt_irrefl n (heq ▸ hlt)
    · rintro ⟨before, after, hsplit, -⟩
      simp [hsplit]

theorem perm (h : b.KeptIn table) : table.Perm b.entries := by
  have hself := entries b
  rw [List.perm_ext_iff_of_nodup h.nodup.of_map hself.nodup.of_map]
  rintro ⟨n, v⟩
  rw [h.mem_iff, hself.mem_iff]

end KeptIn
end Bindings

namespace Table

def sorted (table : Table) : Table := table.mergeSort fun x y => x.1 ≤ y.1

def text (table : Table) : String :=
  "data: \x7b" ++
    " ".intercalate (table.sorted.map fun entry => s!"{entry.1}:{entry.2.structural}") ++ "\x7d"

def chainText : Table → List Table → String
  | table, [] => table.text
  | table, outer :: outers => s!"parent({chainText outer outers}) {table.text}"

/-- The names in some tables, those of each after those of the one before it, sorted. -/
def collect (tables : List Table) : List String :=
  (tables.flatMap (·.map Prod.fst)).mergeSort (· ≤ ·)

/-- The names in some tables, without those that equal the one before them once sorted. -/
def symbols (tables : List Table) : List String := (collect tables).destutter (· ≠ ·)

theorem pairwise_mergeSort {α : Type} (key : α → String) (l : List α) :
    (l.mergeSort fun x y => key x ≤ key y).Pairwise fun x y => key x ≤ key y := by
  refine (List.pairwise_mergeSort ?_ ?_ l).imp decide_eq_true_iff.1
  · exact fun x y z hxy hyz =>
      decide_eq_true (String.le_trans (of_decide_eq_true hxy) (of_decide_eq_true hyz))
  · exact fun x y => by simpa using String.le_total (key x) (key y)

theorem eq_symbols {names : List String} {tables : List Table} (hnames : names.Pairwise (· < ·))
    (h : ∀ n, n ∈ names ↔ ∃ table ∈ tables, n ∈ table.map Prod.fst) : names = symbols tables := by
  have hsorted : (collect tables).Pairwise (· ≤ ·) := pairwise_mergeSort id _
  have hsymbols : symbols tables = (collect tables).dedup := hsorted.destutter_eq_dedup
  have hperm : names.Perm (collect tables).dedup := by
    refine (List.perm_ext_iff_of_nodup (hnames.imp String.ne_of_lt) (List.nodup_dedup _)).2
      fun n => ?_
    rw [List.mem_dedup, collect, List.mem_mergeSort, List.mem_flatMap, h]
  rw [hsymbols]
  exact hperm.eq_of_pairwise (fun _ _ _ _ => String.le_antisymm) (hnames.imp Std.le_of_lt)
    (hsorted.sublist (List.dedup_sublist _))

end Table

namespace Bindings

variable {b : Bindings} {table : Table}

theorem KeptIn.sorted_eq (h : b.KeptIn table) : table.sorted = b.entries := by
  have hperm : table.sorted.Perm b.entries := (List.mergeSort_perm table _).trans h.perm
  refine hperm.eq_of_pairwise (fun x y hx hy hxy hyx => ?_)
    (Table.pairwise_mergeSort Prod.fst table) (b.ascending.imp Std.le_of_lt)
  -- Two entries for one name are the same entry.
  have hname := String.le_antisymm hxy hyx
  have hvalue := ((KeptIn.entries b).mem_iff _ _).1 (hperm.mem_iff.1 hx)
  rw [hname, ((KeptIn.entries b).mem_iff _ _).1 hy] at hvalue
  exact Prod.ext hname (Option.some.inj hvalue).symm

theorem KeptIn.text_eq (h : b.KeptIn table) : b.text = table.text := by
  rw [text, Table.text, h.sorted_eq]

theorem KeptIn.mem_names_iff (h : b.KeptIn table) (n : String) :
    n ∈ table.map Prod.fst ↔ (b.find? n).isSome := by
  simp [List.mem_map, h.mem_iff, Option.isSome_iff_exists]

end Bindings

namespace Scope

variable {s : Scope} {table : Table} {tables : List Table} {inner : Writes} {outers : List Writes}

/-- The visible names are those of all tables of a chain, sorted and each taken once. -/
theorem visibleSymbols_eq_symbols
    (h : List.Forall₂ Bindings.KeptIn (s.bindings :: s.outer) tables) :
    s.visibleSymbols = Table.symbols tables := by
  refine Table.eq_symbols (Bindings.names_ascending _) fun n => ?_
  rw [visibleSymbols, Bindings.mem_names_iff, find?_visible, lookup, List.findSome?_isSome_iff]
  generalize s.bindings :: s.outer = levels at h
  induction h with
  | nil => simp
  | cons hkept _ ih =>
    rw [List.exists_mem_cons_iff, List.exists_mem_cons_iff, ih, hkept.mem_names_iff]

theorem text_eq_chainText
    (h : List.Forall₂ Bindings.KeptIn (s.bindings :: s.outer) (table :: tables)) :
    s.text = Table.chainText table tables := by
  rw [text]
  generalize s.bindings = b, s.outer = outers at h
  induction tables generalizing b table outers with
  | nil =>
    obtain ⟨hkept, hnil⟩ := List.forall₂_cons.1 h
    cases hnil
    exact hkept.text_eq
  | cons outer tables ih =>
    obtain ⟨hkept, hrest⟩ := List.forall₂_cons.1 h
    cases hrest with
    | cons houter hrest =>
      rw [chainText, Table.chainText, hkept.text_eq, ih _ _ (.cons houter hrest)]

/-- A chain is kept in the tables that its writes make, in whatever order these have their
entries. -/
theorem forall₂_keptIn_chain
    (h : List.Forall₂ List.Perm ((inner :: outers).map (·.foldl Table.write [])) tables) :
    List.Forall₂ Bindings.KeptIn ((chain inner outers).bindings :: (chain inner outers).outer)
      tables := by
  have hlevels : (chain inner outers).bindings :: (chain inner outers).outer =
      (inner :: outers).map Bindings.empty.insertAll := by
    rw [chain_eq, List.map_cons]
  rw [hlevels, List.forall₂_map_left_iff]
  exact (List.forall₂_map_left_iff.1 h).imp fun ws _ hperm =>
    (Bindings.KeptIn.empty.insertAll ws).reorder hperm

/-- What is listed of a chain, from the tables that its writes make. -/
theorem listing_chain
    (h : List.Forall₂ List.Perm ((inner :: outers).map (·.foldl Table.write []))
      (table :: tables)) :
    (chain inner outers).visibleSymbols = Table.symbols (table :: tables) ∧
      (chain inner outers).text = Table.chainText table tables :=
  ⟨visibleSymbols_eq_symbols (forall₂_keptIn_chain h), text_eq_chainText (forall₂_keptIn_chain h)⟩

end Scope
end PairLisp
