import Mathlib.Data.List.Forall2
import PairLisp.Eval.Fault
import PairLisp.Expr.Chain
import PairLisp.Expr.Listing
import PairLisp.Proofs.Expr.Depth

/-! # Expressions that differ in raw text only

The text that an atom was read from is kept for display alone. Expressions that differ in nothing
else are built alike, look alike wherever they are shown, and cause faults that look alike.
-/

namespace PairLisp

theorem rel_option_imp {α β : Type} {r s : α → β → Prop} {a : Option α} {b : Option β}
    (h : Option.Rel r a b) (hrs : ∀ x ∈ a, ∀ y, r x y → s x y) : Option.Rel s a b := by
  cases h with
  | some h => exact .some (hrs _ rfl _ h)
  | none => exact .none

/-- The expressions differ at most in the raw text of their atoms. -/
inductive Expr.Alike : Expr → Expr → Prop where
  | nil : Alike .nil .nil
  | symbol (name : String) : Alike (.symbol name) (.symbol name)
  | atom (raw raw' : String) (v : Atom.Value) : Alike (.atom ⟨raw, v⟩) (.atom ⟨raw', v⟩)
  | native (f : Native) : Alike (.native f) (.native f)
  | pair {car cdr car' cdr' : Expr} :
      Alike car car' → Alike cdr cdr' → Alike (.pair car cdr) (.pair car' cdr')

namespace Expr.Alike

variable {e e' : Expr}

theorem refl (e : Expr) : e.Alike e := by
  induction e with
  | nil => exact .nil
  | symbol name => exact .symbol name
  | atom a => exact .atom a.raw a.raw a.value
  | native f => exact .native f
  | pair _ _ ihcar ihcdr => exact .pair ihcar ihcdr

theorem isPair_eq (h : e.Alike e') : e.isPair = e'.isPair := by
  cases h <;> rfl

theorem isNil_eq (h : e.Alike e') : e.isNil = e'.isNil := by
  cases h <;> rfl

theorem leafText_eq (h : e.Alike e') : e.leafText = e'.leafText := by
  cases h <;> rfl

/-! ## Lists -/

theorem forall₂_items (h : e.Alike e') :
    List.Forall₂ (fun x y => x.1.Alike y.1 ∧ x.2 = y.2) e.items e'.items := by
  induction h with
  | nil => exact .nil
  | pair hcar _ _ ih => exact .cons ⟨hcar, rfl⟩ ih
  | symbol name => exact .cons ⟨.symbol name, rfl⟩ .nil
  | atom raw raw' v => exact .cons ⟨.atom raw raw' v, rfl⟩ .nil
  | native f => exact .cons ⟨.native f, rfl⟩ .nil

theorem isProperList_eq (h : e.Alike e') : e.isProperList = e'.isProperList := by
  have hmarks : e.items.map Prod.snd = e'.items.map Prod.snd := by
    rw [← List.forall₂_eq_eq_eq, List.forall₂_map_left_iff, List.forall₂_map_right_iff]
    exact h.forall₂_items.imp fun _ _ hitem => hitem.2
  have hall (items : List (Expr × Bool)) : items.all Prod.snd = (items.map Prod.snd).all id := by
    rw [List.all_map]
    rfl
  rw [isProperList, isProperList, hall, hall, hmarks]

theorem rel_elements? (h : e.Alike e') :
    Option.Rel (List.Forall₂ Alike) e.elements? e'.elements? := by
  rw [elements?, elements?, h.isProperList_eq]
  split
  · refine .some ?_
    rw [List.forall₂_map_left_iff, List.forall₂_map_right_iff]
    exact h.forall₂_items.imp fun _ _ hitem => hitem.1
  · exact .none

theorem ofList {es es' : List Expr} (h : List.Forall₂ Alike es es') :
    (Expr.ofList es).Alike (Expr.ofList es') := by
  induction h with
  | nil => exact .nil
  | cons hcar _ ih => exact .pair hcar ih

theorem nestingDepth_eq (h : e.Alike e') : e.nestingDepth = e'.nestingDepth := by
  rw [nestingDepth_eq_nestingByParts, nestingDepth_eq_nestingByParts]
  induction h with
  | pair _ _ ihcar ihcdr => rw [nestingByParts, nestingByParts, ihcar, ihcdr]
  | nil | symbol | atom | native => rfl

/-! ## Texts -/

theorem writeStructural_eq (h : e.Alike e') (closing : Nat) (out : String) :
    e.writeStructural closing out = e'.writeStructural closing out := by
  induction h generalizing closing out with
  | pair _ _ ihcar ihcdr => rw [writeStructural, writeStructural, ihcar, ihcdr]
  | nil | symbol | atom | native => rfl

theorem structural_eq (h : e.Alike e') : e.structural = e'.structural :=
  h.writeStructural_eq 0 ""

theorem writeRest_eq (h : e.Alike e') (depth : Nat) (out : String) :
    e.writeRest .readable depth out = e'.writeRest .readable depth out := by
  induction h generalizing depth out with
  | pair hcar hcdr ihcar ihcdr =>
    simp only [writeRest, ListStyle.readable, hcar.isPair_eq, hcdr.isNil_eq, hcar.leafText_eq]
    simp only [ListStyle.readable] at ihcar ihcdr
    rw [ihcar, ihcdr]
  | nil | symbol | atom | native => rfl

theorem displayed_eq (h : e.Alike e') : e.displayed = e'.displayed := by
  rw [displayed, displayed, readable, readable, listing, listing, h.writeRest_eq, h.isPair_eq,
    h.leafText_eq]
  split <;> rfl

end Expr.Alike

/-! ## Faults -/

inductive EvalFault.Alike : EvalFault → EvalFault → Prop where
  | refl (f : EvalFault) : Alike f f
  | notCallable {e e' : Expr} : e.Alike e' → Alike (.notCallable e) (.notCallable e')
  | improperArguments {e e' : Expr} :
      e.Alike e' → Alike (.improperArguments e) (.improperArguments e')
  | invalidArgument {e e' : Expr} (f : Native) (expected : Expectation) :
      e.Alike e' → Alike (.invalidArgument f e expected) (.invalidArgument f e' expected)

namespace EvalFault.Alike

variable {f f' : EvalFault}

theorem name_eq (h : f.Alike f') : f.name = f'.name := by
  cases h <;> rfl

theorem message_eq (h : f.Alike f') : f.message = f'.message := by
  cases h with
  | refl => rfl
  | notCallable h | improperArguments h | invalidArgument _ _ h =>
    unfold message
    dsimp only
    rw [h.structural_eq]

end EvalFault.Alike
end PairLisp
