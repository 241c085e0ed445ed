import PairLisp.Expr.Structural

/-! # Bindings of names

The bindings of one scope are kept in the order of their names, one for each name. So two sets of
bindings that give every name the same value are equal, whatever the order they were made in.
-/

namespace PairLisp

/-- Bindings in strictly ascending order of their names. -/
structure Bindings where
  entries : List (String × Expr)
  ascending : entries.Pairwise fun x y => x.1 < y.1

namespace Bindings

def insertEntry (name : String) (value : Expr) : List (String × Expr) → List (String × Expr)
  | [] => [(name, value)]
  | entry :: entries =>
    if entry.1 < name then entry :: insertEntry name value entries
    else if entry.1 = name then (name, value) :: entries
    else (name, value) :: entry :: entries

theorem mem_insertEntry {name : String} {value : Expr} {entries : List (String × Expr)}
    {x : String × Expr} (h : x ∈ insertEntry name value entries) :
    x = (name, value) ∨ x ∈ entries := by
  induction entries with
  | nil => simpa [insertEntry] using h
  | cons entry entries ih =>
    rw [insertEntry] at h
    split at h
    · rcases List.mem_cons.1 h with rfl | h
      · exact .inr List.mem_cons_self
      · exact (ih h).imp id (List.mem_cons_of_mem _)
    · split at h
      · exact (List.mem_cons.1 h).imp id (List.mem_cons_of_mem _)
      · exact List.mem_cons.1 h

theorem pairwise_insertEntry (name : String) (value : Expr) {entries : List (String × Expr)}
    (h : entries.Pairwise fun x y => x.1 < y.1) :
    (insertEntry name value entries).Pairwise fun x y => x.1 < y.1 := by
  induction entries with
  | nil => simp [insertEntry]
  | cons entry entries ih =>
    obtain ⟨hhead, htail⟩ := List.pairwise_cons.1 h
    rw [insertEntry]
    split
    · next hlt =>
      refine List.pairwise_cons.2 ⟨fun x hx => ?_, ih htail⟩
      rcases mem_insertEntry hx with rfl | hx
      · exact hlt
      · exact hhead x hx
    · next hlt =>
      split
      · next heq => exact List.pairwise_cons.2 ⟨fun x hx => heq ▸ hhead x hx, htail⟩
      · next hne =>
        have hgt : name < entry.1 :=
          String.not_le.1 fun hle => hne (String.le_antisymm hle (String.not_lt.1 hlt))
        refine List.pairwise_cons.2 ⟨fun x hx => ?_, h⟩
        rcases List.mem_cons.1 hx with rfl | hx
        · exact hgt
        · exact String.lt_trans hgt (hhead x hx)

def empty : Bindings := ⟨[], .nil⟩

def insert (b : Bindings) (name : String) (value : Expr) : Bindings :=
  ⟨insertEntry name value b.entries, pairwise_insertEntry name value b.ascending⟩

def find? (b : Bindings) (name : String) : Option Expr := b.entries.lookup name

theorem lookup_cons (n : String) (entry : String × Expr) (entries : List (String × Expr)) :
    (entry :: entries).lookup n = if n = entry.1 then some entry.2 else entries.lookup n := by
  obtain ⟨key, value⟩ := entry
  rw [List.lookup_cons]
  by_cases h : n = key
  · rw [beq_iff_eq.2 h, if_pos h]
  · rw [beq_false_of_ne h, if_neg h]

theorem lookup_insertEntry (name : String) (value : Expr) (entries : List (String × Expr))
    (n : String) :
    (insertEntry name value entries).lookup n =
      if n = name then some value else entries.lookup n := by
  induction entries with
  | nil => rw [insertEntry, lookup_cons]
  | cons entry entries ih =>
    rw [insertEntry]
    split
    · next hlt =>
      have hne : entry.1 ≠ name := fun h => String.lt_irrefl name (h ▸ hlt)
      rw [lookup_cons, lookup_cons, ih]
      by_cases hn : n = entry.1
      · rw [if_pos hn, if_pos hn, if_neg (hn ▸ hne)]
      · rw [if_neg hn, if_neg hn]
    · split
      · next heq =>
        rw [lookup_cons, lookup_cons, heq]
        by_cases hn : n = name
        · rw [if_pos hn, if_pos hn]
        · rw [if_neg hn, if_neg hn, if_neg hn]
      · rw [lookup_cons]

theorem find?_insert (b : Bindings) (name : String) (value : Expr) (n : String) :
    (b.insert name value).find? n = if n = name then some value else b.find? n :=
  lookup_insertEntry name value b.entries n

theorem lookup_eq_none_of_lt {entries : List (String × Expr)} {n : String}
    (h : ∀ x ∈ entries, n < x.1) : entries.lookup n = none := by
  induction entries with
  | nil => rfl
  | cons entry entries ih =>
    have hne : n ≠ entry.1 := fun he =>
      String.lt_irrefl n (he ▸ h entry List.mem_cons_self)
    rw [lookup_cons, if_neg hne]
    exact ih fun x hx => h x (List.mem_cons_of_mem _ hx)

theorem lookup_cons_eq_none_of_lt {entry : String × Expr} {entries : List (String × Expr)}
    {n : String} (h : (entry :: entries).Pairwise fun x y => x.1 < y.1) (hn : n < entry.1) :
    (entry :: entries).lookup n = none :=
  lookup_eq_none_of_lt fun x hx => by
    rcases List.mem_cons.1 hx with rfl | hx
    · exact hn
    · exact String.lt_trans hn ((List.pairwise_cons.1 h).1 x hx)

/-- The least names of two equivalent sets of bindings are not one below the other. -/
theorem le_of_lookup_eq {x y : String × Expr} {xs ys : List (String × Expr)}
    (hy : (y :: ys).Pairwise fun x y => x.1 < y.1)
    (h : ∀ n, (x :: xs).lookup n = (y :: ys).lookup n) : y.1 ≤ x.1 := by
  refine String.not_lt.1 fun hlt => ?_
  have hx := h x.1
  rw [lookup_cons_eq_none_of_lt hy hlt, lookup_cons, if_pos rfl] at hx
  exact Option.some_ne_none _ hx

theorem entries_ext {xs ys : List (String × Expr)} (hx : xs.Pairwise fun x y => x.1 < y.1)
    (hy : ys.Pairwise fun x y => x.1 < y.1) (h : ∀ n, xs.lookup n = ys.lookup n) : xs = ys := by
  induction xs generalizing ys with
  | nil =>
    cases ys with
    | nil => rfl
    | cons y ys =>
      have hself := h y.1
      rw [lookup_cons, if_pos rfl] at hself
      exact absurd hself.symm (Option.some_ne_none _)
  | cons x xs ih =>
    cases ys with
    | nil =>
      have hself := h x.1
      rw [lookup_cons, if_pos rfl] at hself
      exact absurd hself (Option.some_ne_none _)
    | cons y ys =>
      have hname : x.1 = y.1 :=
        String.le_antisymm (le_of_lookup_eq hx fun n => (h n).symm) (le_of_lookup_eq hy h)
      have hvalue : x.2 = y.2 := by
        have hself := h x.1
        rw [lookup_cons, if_pos rfl, lookup_cons, if_pos hname] at hself
        exact Option.some.inj hself
      obtain ⟨hxhead, hxtail⟩ := List.pairwise_cons.1 hx
      obtain ⟨hyhead, hytail⟩ := List.pairwise_cons.1 hy
      have htail : ∀ n, xs.lookup n = ys.lookup n := by
        intro n
        by_cases hn : n = x.1
        · rw [hn, lookup_eq_none_of_lt hxhead, hname, lookup_eq_none_of_lt hyhead]
        · have hrest := h n
          rwa [lookup_cons, if_neg hn, lookup_cons, if_neg (hname ▸ hn)] at hrest
      rw [ih hxtail hytail htail, Prod.ext hname hvalue]

/-- Bindings are determined by what they give to each name. -/
theorem ext_find? {a b : Bindings} (h : ∀ n, a.find? n = b.find? n) : a = b := by
  obtain ⟨xs, hx⟩ := a
  obtain ⟨ys, hy⟩ := b
  have heq : xs = ys := entries_ext hx hy h
  subst heq
  rfl

def names (b : Bindings) : List String := b.entries.map Prod.fst

/-- The bindings of both, those of `inner` winning. -/
def shadowedBy (outer inner : Bindings) : Bindings :=
  inner.entries.foldl (fun b entry => b.insert entry.1 entry.2) outer

def text (b : Bindings) : String :=
  "data: \x7b" ++ " ".intercalate (b.entries.map fun entry => s!"{entry.1}:{entry.2.structural}") ++
    "\x7d"

end Bindings
end PairLisp
