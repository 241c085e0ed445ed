import PairLisp.Eval.Basic

/-! # What a computation ensures

A computation may fail, and what it did to the machine stays done then. So a statement about it has
three parts: an assertion about the machine that it keeps however it ends, one about its value and
one about its fault.
-/

namespace PairLisp

variable {α β : Type} {I J : Machine → Prop} {P : α → Prop} {Q : β → Prop} {F : EvalFault → Prop}

namespace EvalM

theorem runOn_bind (x : EvalM α) (f : α → EvalM β) (m : Machine) :
    (x >>= f).runOn m = match x.runOn m with
      | (.ok a, after) => (f a).runOn after
      | (.error fault, after) => (.error fault, after) := by
  show ExceptT.bindCont f (x.runOn m).1 (x.runOn m).2 = _
  rcases x.runOn m with ⟨fault | a, after⟩ <;> rfl

theorem runOn_lookup (name : String) (m : Machine) :
    (lookup name).runOn m = (m.scope.get name, m) := by
  show (MonadExcept.ofExcept (m.scope.get name) : EvalM Expr).runOn m = _
  cases m.scope.get name <;> rfl

theorem runOn_nested_of_full (x : EvalM α) {m : Machine} (h : maxEvaluations ≤ m.active) :
    (nested x).runOn m = (.error (.depthOverflow maxEvaluations), m) := by
  rw [runOn, nested, if_pos h]

theorem runOn_nested (x : EvalM α) {m : Machine} (h : m.active < maxEvaluations) :
    (nested x).runOn m = ((x.runOn { m with active := m.active + 1 }).1,
      { (x.runOn { m with active := m.active + 1 }).2 with
        active := (x.runOn { m with active := m.active + 1 }).2.active - 1 }) := by
  rw [runOn, nested, if_neg (Nat.not_le.2 h)]
  rfl

/-- Started where `I` holds, a computation keeps `I` and gives a value with `P` or a fault with
`F`. -/
def Ensures (I : Machine → Prop) (P : α → Prop) (F : EvalFault → Prop) (x : EvalM α) : Prop :=
  ∀ m, I m → I (x.runOn m).2 ∧
    match (x.runOn m).1 with
    | .ok a => P a
    | .error f => F f

namespace Ensures

theorem pure {a : α} (h : P a) : Ensures I P F (pure a) := fun _ hm => ⟨hm, h⟩

theorem throw {f : EvalFault} (h : F f) : Ensures I P F (throw f) := fun _ hm => ⟨hm, h⟩

theorem bind {x : EvalM α} {f : α → EvalM β} (hx : Ensures I P F x)
    (hf : ∀ a, P a → Ensures I Q F (f a)) : Ensures I Q F (x >>= f) := by
  intro m hm
  obtain ⟨hafter, hresult⟩ := hx m hm
  rw [runOn_bind]
  rcases hrun : x.runOn m with ⟨fault | a, after⟩
  · rw [hrun] at hafter hresult
    exact ⟨hafter, hresult⟩
  · rw [hrun] at hafter hresult
    exact hf a hresult after hafter

theorem weaken {G : EvalFault → Prop} {x : EvalM α} (hx : Ensures I P F x) (h : ∀ f, F f → G f) :
    Ensures I P G x := by
  intro m hm
  obtain ⟨hafter, hresult⟩ := hx m hm
  refine ⟨hafter, ?_⟩
  cases hrun : (x.runOn m).1 with
  | error fault => exact h fault (by simpa [hrun] using hresult)
  | ok a => simpa [hrun] using hresult

theorem modify {f : Machine → Machine} (h : ∀ m, I m → I (f m)) :
    Ensures I (fun _ => True) F (modify f : EvalM Unit) := fun m hm => ⟨h m hm, trivial⟩

theorem lookup {P : Expr → Prop} {name : String}
    (h : ∀ m value, I m → m.scope.lookup name = some value → P value)
    (hunbound : F (.unboundSymbol name)) : Ensures I P F (EvalM.lookup name) := by
  intro m hm
  rw [runOn_lookup, Scope.get]
  cases hlookup : m.scope.lookup name with
  | none => exact ⟨hm, hunbound⟩
  | some value => exact ⟨hm, h m value hm hlookup⟩

/-- An evaluation may ensure something else of the machine as long as it is under way. -/
theorem nested {x : EvalM α} (hx : Ensures J P F x)
    (henter : ∀ m, I m → m.active < maxEvaluations → J { m with active := m.active + 1 })
    (hleave : ∀ m, J m → I { m with active := m.active - 1 })
    (hfull : ∀ m, I m → maxEvaluations ≤ m.active → F (.depthOverflow maxEvaluations)) :
    Ensures I P F (EvalM.nested x) := by
  intro m hm
  by_cases hactive : maxEvaluations ≤ m.active
  · rw [runOn_nested_of_full x hactive]
    exact ⟨hm, hfull m hm hactive⟩
  · have hroom := Nat.lt_of_not_le hactive
    obtain ⟨hafter, hresult⟩ := hx _ (henter m hm hroom)
    rw [runOn_nested x hroom]
    exact ⟨hleave _ hafter, hresult⟩

theorem evalAll {P : Expr → Prop} {eval : Expr → EvalM Expr} {es : List Expr}
    (h : ∀ e ∈ es, Ensures I P F (eval e)) :
    Ensures I (fun vs => vs.length = es.length ∧ ∀ v ∈ vs, P v) F (evalAll eval es) := by
  induction es with
  | nil => exact .pure ⟨rfl, by simp⟩
  | cons e es ih =>
    obtain ⟨he, hes⟩ := List.forall_mem_cons.1 h
    refine .bind he fun v hv => .bind (ih hes) fun vs hvs => .pure ⟨?_, ?_⟩
    · rw [List.length_cons, List.length_cons, hvs.1]
    · exact List.forall_mem_cons.2 ⟨hv, hvs.2⟩

end Ensures
end EvalM
end PairLisp
