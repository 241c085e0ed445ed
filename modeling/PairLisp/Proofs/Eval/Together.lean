import PairLisp.Eval.Native
import PairLisp.Proofs.Eval.Ensures
import PairLisp.Proofs.Expr.Alike

/-! # Two computations side by side

Two computations go together if, from related machines, both end in related machines and both give
a value or both a fault. The values are related then, and the faults differ in raw text at most.
-/

namespace PairLisp

open EvalM

/-- Both outcomes are values related by `V`, or both are faults that look alike. -/
inductive SameOutcome {α β : Type} (V : α → β → Prop) :
    Except EvalFault α → Except EvalFault β → Prop where
  | ok {a : α} {b : β} : V a b → SameOutcome V (.ok a) (.ok b)
  | error {f f' : EvalFault} : f.Alike f' → SameOutcome V (.error f) (.error f')

theorem SameOutcome.imp {α β : Type} {V W : α → β → Prop} {r : Except EvalFault α}
    {r' : Except EvalFault β} (h : SameOutcome V r r') (hvw : ∀ a b, V a b → W a b) :
    SameOutcome W r r' := by
  cases h with
  | ok hvalue => exact .ok (hvw _ _ hvalue)
  | error hfault => exact .error hfault

namespace EvalM

/-- Started on related machines, the computations end on such, with the same outcome. -/
def Together {α β : Type} (R : Machine → Machine → Prop) (V : α → β → Prop) (x : EvalM α)
    (y : EvalM β) : Prop :=
  ∀ m m', R m m' → R (x.runOn m).2 (y.runOn m').2 ∧ SameOutcome V (x.runOn m).1 (y.runOn m').1

namespace Together

variable {α β γ δ : Type} {R : Machine → Machine → Prop} {V : α → β → Prop} {W : γ → δ → Prop}

theorem pure {a : α} {b : β} (h : V a b) : Together R V (pure a) (pure b) :=
  fun _ _ hm => ⟨hm, .ok h⟩

theorem throw {f f' : EvalFault} (h : f.Alike f') : Together R V (throw f) (throw f') :=
  fun _ _ hm => ⟨hm, .error h⟩

theorem bind {x : EvalM α} {y : EvalM β} {f : α → EvalM γ} {g : β → EvalM δ}
    (hx : Together R V x y) (hf : ∀ a b, V a b → Together R W (f a) (g b)) :
    Together R W (x >>= f) (y >>= g) := by
  intro m m' hm
  obtain ⟨hafter, houtcome⟩ := hx m m' hm
  rw [runOn_bind, runOn_bind]
  generalize x.runOn m = run at hafter houtcome ⊢
  generalize y.runOn m' = run' at hafter houtcome ⊢
  obtain ⟨r, after⟩ := run
  obtain ⟨r', after'⟩ := run'
  cases houtcome with
  | ok hvalue => exact hf _ _ hvalue after after' hafter
  | error hfault => exact ⟨hafter, .error hfault⟩

theorem modify {f g : Machine → Machine} (h : ∀ m m', R m m' → R (f m) (g m')) :
    Together R (fun _ _ => True) (modify f : EvalM Unit) (modify g : EvalM Unit) :=
  fun m m' hm => ⟨h m m' hm, .ok trivial⟩

theorem lookup {V : Expr → Expr → Prop} {name : String}
    (h : ∀ m m', R m m' → Option.Rel V (m.scope.lookup name) (m'.scope.lookup name)) :
    Together R V (EvalM.lookup name) (EvalM.lookup name) := by
  intro m m' hm
  rw [runOn_lookup, runOn_lookup, Scope.get, Scope.get]
  have hbound := h m m' hm
  generalize m.scope.lookup name = value at hbound ⊢
  generalize m'.scope.lookup name = value' at hbound ⊢
  cases hbound with
  | some hvalue => exact ⟨hm, .ok hvalue⟩
  | none => exact ⟨hm, .error (.refl _)⟩

theorem nested {x : EvalM α} {y : EvalM β} (hx : Together R V x y)
    (hactive : ∀ m m', R m m' → m.active = m'.active)
    (hset : ∀ m m' n, R m m' → R { m with active := n } { m' with active := n }) :
    Together R V (EvalM.nested x) (EvalM.nested y) := by
  intro m m' hm
  have hcount := hactive m m' hm
  by_cases hfull : maxEvaluations ≤ m.active
  · rw [runOn_nested_of_full x hfull, runOn_nested_of_full y (hcount ▸ hfull)]
    exact ⟨hm, .error (.refl _)⟩
  · have hroom := Nat.lt_of_not_le hfull
    obtain ⟨hafter, houtcome⟩ := hx _ _ (hset m m' (m.active + 1) hm)
    rw [runOn_nested x hroom, runOn_nested y (hcount ▸ hroom), ← hcount]
    refine ⟨?_, houtcome⟩
    rw [← hactive _ _ hafter]
    exact hset _ _ _ hafter

theorem evalAll {V : Expr → Expr → Prop} {U : Expr → Expr → Prop} {eval eval' : Expr → EvalM Expr}
    {es es' : List Expr} (hes : List.Forall₂ U es es')
    (h : ∀ e ∈ es, ∀ e', U e e' → Together R V (eval e) (eval' e')) :
    Together R (List.Forall₂ V) (evalAll eval es) (evalAll eval' es') := by
  induction hes with
  | nil => exact .pure .nil
  | cons hhead _ ih =>
    obtain ⟨he, hrest⟩ := List.forall_mem_cons.1 h
    apply bind (he _ hhead)
    intro v v' hv
    apply bind (ih hrest)
    intro vs vs' hvs
    exact .pure (.cons hv hvs)

end Together
end EvalM
end PairLisp
