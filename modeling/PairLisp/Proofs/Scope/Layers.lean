import Mathlib.Data.List.Forall2
import PairLisp.Proofs.Text.ByteOrder
import PairLisp.Scope.Basic

/-! # Scopes as layers of writes

A chain of scopes is made from the root inwards: a scope is written to any number of times, and then
a new scope is made inside it. What a name means anywhere in the chain can be told from these writes
alone: it is what was written last in the nearest scope where the name was written at all. Neither
the visible names nor the text of a scope tell more about the order of the writes than this.
-/

namespace PairLisp

/-- The names bound in one scope with their values, first to last. -/
abbrev Writes := List (String × Expr)

namespace Writes

variable {ws us : Writes} {levels : List Writes} {n : String} {v : Expr}

def Last (ws : Writes) (n : String) (v : Expr) : Prop :=
  ∃ before after, ws = before ++ (n, v) :: after ∧ ∀ w ∈ after, w.1 ≠ n

/-- The last value that a name got in the first of some scopes where it got one. -/
def Nearest (levels : List Writes) (n : String) (v : Expr) : Prop :=
  ∃ near ws far, levels = near ++ ws :: far ∧ (∀ us ∈ near, ∀ u ∈ us, u.1 ≠ n) ∧ ws.Last n v

theorem lookup_eq_none_iff_ne : ws.lookup n = none ↔ ∀ w ∈ ws, w.1 ≠ n := by
  rw [List.lookup_eq_none_iff]
  simp only [bne_iff_ne, ne_comm]

theorem lookup_reverse_eq_some_iff : ws.reverse.lookup n = some v ↔ ws.Last n v := by
  rw [List.lookup_eq_some_iff]
  constructor
  · rintro ⟨after, before, hws, hafter⟩
    refine ⟨before.reverse, after.reverse, ?_, fun w hw => ?_⟩
    · rw [← List.reverse_reverse ws, hws]
      simp
    · exact (bne_iff_ne.1 (hafter w (List.mem_reverse.1 hw))).symm
  · rintro ⟨before, after, rfl, hafter⟩
    refine ⟨after.reverse, before.reverse, by simp, fun w hw => ?_⟩
    exact bne_iff_ne.2 (hafter w (List.mem_reverse.1 hw)).symm

theorem findSome?_eq_some_iff_nearest :
    levels.findSome? (fun ws => ws.reverse.lookup n) = some v ↔ Nearest levels n v := by
  rw [List.findSome?_eq_some_iff]
  simp only [lookup_reverse_eq_some_iff, lookup_eq_none_iff_ne, List.mem_reverse]
  constructor
  · rintro ⟨near, ws, far, hlevels, hlast, hnear⟩
    exact ⟨near, ws, far, hlevels, hnear, hlast⟩
  · rintro ⟨near, ws, far, hlevels, hnear, hlast⟩
    exact ⟨near, ws, far, hlevels, hlast, hnear⟩

theorem findSome?_eq_none_iff_ne :
    levels.findSome? (fun ws => ws.reverse.lookup n) = none ↔
      ∀ ws ∈ levels, ∀ w ∈ ws, w.1 ≠ n := by
  rw [List.findSome?_eq_none_iff]
  simp only [lookup_eq_none_iff_ne, List.mem_reverse]

end Writes

namespace Bindings

variable {b : Bindings} {ws us : Writes} {n : String} {v : Expr}

def insertAll (b : Bindings) (ws : Writes) : Bindings :=
  ws.foldl (fun b w => b.insert w.1 w.2) b

theorem find?_insertAll :
    (b.insertAll ws).find? n = (ws.reverse.lookup n).or (b.find? n) := by
  induction ws generalizing b with
  | nil => rfl
  | cons w ws ih =>
    have hstep : (b.insertAll (w :: ws)) = (b.insert w.1 w.2).insertAll ws := rfl
    rw [hstep, ih, find?_insert, List.reverse_cons, List.lookup_append, Option.or_assoc,
      lookup_cons]
    split <;> simp

theorem find?_empty : empty.find? n = none := rfl

theorem find?_insertAll_empty : (empty.insertAll ws).find? n = ws.reverse.lookup n := by
  rw [find?_insertAll, find?_empty, Option.or_none]

theorem insertAll_empty_eq (h : ∀ n v, ws.Last n v ↔ us.Last n v) :
    empty.insertAll ws = empty.insertAll us := by
  refine ext_find? fun n => Option.ext fun v => ?_
  rw [find?_insertAll_empty, find?_insertAll_empty, Writes.lookup_reverse_eq_some_iff,
    Writes.lookup_reverse_eq_some_iff, h]

/-- No name is bound twice, so the last entry for it is the first. -/
theorem lookup_reverse_of_ascending {entries : List (String × Expr)}
    (h : entries.Pairwise fun x y => x.1 < y.1) : entries.reverse.lookup n = entries.lookup n := by
  induction entries with
  | nil => rfl
  | cons entry entries ih =>
    obtain ⟨hhead, htail⟩ := List.pairwise_cons.1 h
    rw [List.reverse_cons, List.lookup_append, ih htail, lookup_cons, lookup_cons]
    split
    · next heq => rw [heq, lookup_eq_none_of_lt hhead, Option.none_or]
    · rw [List.lookup_nil, Option.or_none]

theorem find?_shadowedBy (outer inner : Bindings) :
    (shadowedBy outer inner).find? n = (inner.find? n).or (outer.find? n) := by
  have hall : shadowedBy outer inner = outer.insertAll inner.entries := rfl
  rw [hall, find?_insertAll, lookup_reverse_of_ascending inner.ascending]
  rfl

theorem mem_names_iff : n ∈ b.names ↔ (b.find? n).isSome := by
  rw [names, find?, List.lookup_isSome_iff, List.mem_map]
  simp only [beq_iff_eq, eq_comm (a := n)]

theorem names_ascending (b : Bindings) : b.names.Pairwise (· < ·) :=
  List.pairwise_map.2 b.ascending

end Bindings

namespace Scope

variable {s : Scope} {inner : Writes} {outers : List Writes} {n : String} {v : Expr} {k : Nat}

def write (s : Scope) (ws : Writes) : Scope := ws.foldl (fun s w => s.set w.1 w.2) s

/-- The innermost scope of a chain, by the writes to each of its scopes from the innermost outwards.
The root is always there. -/
def chain (inner : Writes) : List Writes → Scope
  | [] => root.write inner
  | outer :: outers => (chain outer outers).child.write inner

/-- The scope `k` levels further out. -/
def above (s : Scope) : Nat → Option Scope
  | 0 => some s
  | k + 1 => s.parent?.bind (above · k)

theorem write_eq (s : Scope) (ws : Writes) : s.write ws = ⟨s.bindings.insertAll ws, s.outer⟩ := by
  induction ws generalizing s with
  | nil => rfl
  | cons w ws ih => exact ih (s.set w.1 w.2)

theorem chain_eq (inner : Writes) (outers : List Writes) :
    chain inner outers =
      ⟨Bindings.empty.insertAll inner, outers.map Bindings.empty.insertAll⟩ := by
  induction outers generalizing inner with
  | nil => exact write_eq root inner
  | cons outer outers ih => rw [chain, write_eq, ih, child, List.map_cons]

theorem lookup_chain : (chain inner outers).lookup n =
    (inner :: outers).findSome? fun ws => ws.reverse.lookup n := by
  have hlookup : (chain inner outers).lookup n =
      ((inner :: outers).map Bindings.empty.insertAll).findSome? (·.find? n) := by
    rw [chain_eq, lookup, List.map_cons]
  rw [hlookup, List.findSome?_map]
  congr 1
  funext ws
  exact Bindings.find?_insertAll_empty

theorem above_chain : (chain inner outers).above k =
    match (inner :: outers).drop k with
    | [] => none
    | ws :: rest => some (chain ws rest) := by
  induction k generalizing inner outers with
  | zero => rfl
  | succ k ih =>
    cases outers with
    | nil => simp [above, chain_eq, parent?]
    | cons outer outers =>
      have hparent : (chain inner (outer :: outers)).parent? = some (chain outer outers) := by
        rw [chain_eq, chain_eq, parent?, List.map_cons]
      rw [above, hparent, Option.bind_some, ih, List.drop_succ_cons]

theorem find?_visible (s : Scope) : s.visible.find? n = s.lookup n := by
  rw [visible, lookup]
  induction s.bindings :: s.outer with
  | nil => rfl
  | cons b bs ih =>
    rw [List.foldr_cons, Bindings.find?_shadowedBy, ih, List.findSome?_cons]
    cases b.find? n <;> rfl

theorem above_set (s : Scope) (n : String) (v : Expr) (k : Nat) :
    (s.set n v).above (k + 1) = s.above (k + 1) := rfl

end Scope

/-- Different writes that leave the same bindings. -/
def Writes.Agree (ws us : Writes) : Prop := ∀ n v, ws.Last n v ↔ us.Last n v

theorem Scope.chain_eq_of_agree {inner inner' : Writes} {outers outers' : List Writes}
    (h : List.Forall₂ Writes.Agree (inner :: outers) (inner' :: outers')) :
    chain inner outers = chain inner' outers' := by
  have hmap {levels levels' : List Writes} (h : List.Forall₂ Writes.Agree levels levels') :
      levels.map Bindings.empty.insertAll = levels'.map Bindings.empty.insertAll := by
    induction h with
    | nil => rfl
    | cons hagree _ ih => rw [List.map_cons, List.map_cons, Bindings.insertAll_empty_eq hagree, ih]
  obtain ⟨hinner, houters⟩ := List.forall₂_cons.1 h
  rw [chain_eq, chain_eq, Bindings.insertAll_empty_eq hinner, hmap houters]

/-- In every scope of a chain a name means what it got last in the nearest scope where it got
anything, and is unbound if there is none. A write to the scope changes nothing further out. The
visible names are those that mean something, in the order of their bytes, and the text is the same
for all writes that leave the same bindings in each scope. -/
theorem chain_layers (inner : Writes) (outers : List Writes) (k : Nat) (h : k ≤ outers.length) :
    ∃ s, (Scope.chain inner outers).above k = some s ∧
      (∀ n v, (s.lookup n = some v ↔ Writes.Nearest ((inner :: outers).drop k) n v) ∧
        (s.get n = .ok v ↔ Writes.Nearest ((inner :: outers).drop k) n v)) ∧
      (∀ n fault, s.get n = .error fault ↔
        fault = .unboundSymbol n ∧ ∀ ws ∈ (inner :: outers).drop k, ∀ w ∈ ws, w.1 ≠ n) ∧
      (∀ n v m j, ((s.set n v).above (j + 1)).map (·.lookup m) =
        (s.above (j + 1)).map (·.lookup m)) ∧
      s.visibleSymbols.Pairwise (fun m n => m.toUTF8.toList < n.toUTF8.toList) ∧
      (∀ n, n ∈ s.visibleSymbols ↔ (s.lookup n).isSome) ∧
      ∀ ws rest, List.Forall₂ Writes.Agree ((inner :: outers).drop k) (ws :: rest) →
        s.text = (Scope.chain ws rest).text := by
  have habove : (Scope.chain inner outers).above k = _ := Scope.above_chain
  cases hlevels : (inner :: outers).drop k with
  | nil =>
    rw [List.drop_eq_nil_iff, List.length_cons] at hlevels
    omega
  | cons ws rest =>
    rw [hlevels] at habove
    have hlookup (n : String) : (Scope.chain ws rest).lookup n =
        (ws :: rest).findSome? fun us => us.reverse.lookup n := Scope.lookup_chain
    have hsome (n : String) (v : Expr) :
        (Scope.chain ws rest).lookup n = some v ↔ Writes.Nearest (ws :: rest) n v := by
      rw [hlookup, Writes.findSome?_eq_some_iff_nearest]
    refine ⟨_, habove, fun n v => ⟨hsome n v, ?_⟩, fun n fault => ?_, fun n v m j => ?_, ?_,
      fun n => ?_, fun us more hagree => ?_⟩
    · rw [← hsome, Scope.get]
      cases (Scope.chain ws rest).lookup n <;> simp
    · rw [← Writes.findSome?_eq_none_iff_ne, ← hlookup, Scope.get]
      cases (Scope.chain ws rest).lookup n <;> simp [eq_comm]
    · rw [Scope.above_set]
    · exact (Bindings.names_ascending _).imp Text.lt_iff_toUTF8_lt.1
    · rw [Scope.visibleSymbols, Bindings.mem_names_iff, Scope.find?_visible]
    · rw [Scope.chain_eq_of_agree hagree]

/-- A name that is written twice in the inner scope and once in the outer one, which also has a name
that is not ASCII. -/
theorem chain_layers_of_shadowing :
    let inner : Writes := [("b", .int 1), ("a", .int 2), ("b", .nil)]
    let outers : List Writes := [[("é", .int 4), ("b", .int 5)]]
    0 ≤ outers.length ∧ ∃ s, (Scope.chain inner outers).above 0 = some s ∧
      s.get "b" = .ok .nil ∧ s.get "é" = .ok (.int 4) ∧
      s.get "c" = .error (.unboundSymbol "c") ∧
      s.visibleSymbols = ["a", "b", "é"] ∧
      s.visibleSymbols.Pairwise (fun m n => m.toUTF8.toList < n.toUTF8.toList) ∧
      s.text = (Scope.chain [("a", .int 2), ("b", .nil)] outers).text := by
  intro inner outers
  obtain ⟨s, habove, hsome, hunbound, -, hascending, -, htext⟩ :=
    chain_layers inner outers 0 (Nat.zero_le _)
  obtain rfl : Scope.chain inner outers = s := Option.some.inj habove
  have hagree : inner.Agree [("a", .int 2), ("b", .nil)] := by
    intro n v
    rw [← Writes.lookup_reverse_eq_some_iff, ← Writes.lookup_reverse_eq_some_iff]
    by_cases hb : n = "b" <;> simp [inner, Bindings.lookup_cons, hb]
  refine ⟨Nat.zero_le _, _, habove, (hsome _ _).2.2 ?_, (hsome _ _).2.2 ?_, (hunbound _ _).2 ?_, ?_,
    hascending, htext _ outers (.cons hagree (List.forall₂_same.2 fun _ _ _ _ => Iff.rfl))⟩
  · exact ⟨[], inner, outers, rfl, by simp, [("b", .int 1), ("a", .int 2)], [], rfl, by simp⟩
  · exact ⟨[inner], _, [], rfl, by grind, [], [("b", .int 5)], rfl, by simp⟩
  · exact ⟨rfl, by grind⟩
  · decide +kernel

end PairLisp
