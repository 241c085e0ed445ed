import PairLisp.Proofs.Eval.Agreement

/-! # What an evaluation leaves alone

Nothing but `setq` binds names, and whatever name it is reached by, it binds the symbol that stands
second in the call. So an evaluation, however it ends, binds no names but second elements of the
form and of the lists nested in it, it binds them in the innermost scope and it unbinds none. A form
that cannot get hold of `setq` leaves the whole scope as it is.
-/

namespace PairLisp

open EvalM

namespace Expr

/-- The first expression is the second one, or an element at some depth of it. -/
inductive Inside : Expr → Expr → Prop where
  | refl (e : Expr) : Inside e e
  | element {part e list : Expr} : Inside part e → (e, true) ∈ list.items → Inside part list

/-- The symbol is the second element of the expression or of a list nested in it. -/
def MayBind (e : Expr) (name : String) : Prop :=
  ∃ list, Inside list e ∧ list.items[1]? = some (.symbol name, true)

def Holds (f : Native) : Expr → Prop
  | .native g => g = f
  | .pair car cdr => car.Holds f ∨ cdr.Holds f
  | _ => False

/-- All functions in the expression are of the language, and none of them is `setq`. -/
structure Harmless (e : Expr) : Prop where
  onlyBuiltins : e.OnlyBuiltins
  not_holds : ¬e.Holds (.builtin .setq)

variable {e car cdr : Expr} {args : List Expr} {name : String}

theorem MayBind.of_car (h : car.MayBind name) : (pair car cdr).MayBind name := by
  obtain ⟨list, hinside, hsecond⟩ := h
  exact ⟨list, .element hinside List.mem_cons_self, hsecond⟩

theorem not_mayBind_of_isPair (h : e.isPair = false) : ¬e.MayBind name := by
  rintro ⟨list, hinside, hsecond⟩
  cases e with
  | pair => cases h
  | nil | symbol | atom | native =>
    cases hinside with
    | refl => simp [items] at hsecond
    | element _ hmem => simp [items] at hmem

theorem mayBind_ofList_iff :
    (ofList args).MayBind name ↔
      args[1]? = some (.symbol name) ∨ ∃ e ∈ args, e.MayBind name := by
  constructor
  · rintro ⟨list, hinside, hsecond⟩
    cases hinside with
    | refl => exact .inl (by simpa [items_ofList] using hsecond)
    | element hinside hmem =>
      obtain ⟨e, he, heq⟩ := List.mem_map.1 (items_ofList args ▸ hmem)
      obtain rfl := (Prod.mk.inj heq).1
      exact .inr ⟨e, he, list, hinside, hsecond⟩
  · rintro (hsecond | ⟨e, he, list, hinside, hsecond⟩)
    · exact ⟨_, .refl _, by simp [items_ofList, hsecond]⟩
    · refine ⟨list, .element hinside ?_, hsecond⟩
      rw [items_ofList]
      exact List.mem_map_of_mem he

theorem harmless_pair_iff : (pair car cdr).Harmless ↔ car.Harmless ∧ cdr.Harmless :=
  ⟨fun h => ⟨⟨h.onlyBuiltins.1, fun hcar => h.not_holds (.inl hcar)⟩,
      ⟨h.onlyBuiltins.2, fun hcdr => h.not_holds (.inr hcdr)⟩⟩,
    fun h => ⟨⟨h.1.onlyBuiltins, h.2.onlyBuiltins⟩,
      fun hholds => hholds.elim h.1.not_holds h.2.not_holds⟩⟩

theorem harmless_ofList_iff {es : List Expr} : (ofList es).Harmless ↔ ∀ e ∈ es, e.Harmless := by
  induction es with
  | nil => exact ⟨fun _ => by simp, fun _ => ⟨trivial, id⟩⟩
  | cons e es ih => rw [ofList_cons, harmless_pair_iff, ih, List.forall_mem_cons]

end Expr

/-! ## Classes of forms -/

/-- What every act keeps, evaluating keeps, for forms of a class that has the parts of its members
as far as these are evaluated. -/
theorem ClosedButNames.ensures_evalWithin {I : Machine → Prop} {P C : Expr → Prop}
    (h : ClosedButNames I P (fun _ => True) (fun _ => True))
    (hcount : ∀ m n, I m → I { m with active := n })
    (hlookup : ∀ name, C (.symbol name) → ∀ m value, I m → m.scope.lookup name = some value →
      P value)
    (hself : ∀ e, C e → e.isPair = false → P e)
    (hcar : ∀ car cdr, C (.pair car cdr) → C car)
    (hargs : ∀ car cdr args, C (.pair car cdr) → cdr.elements? = some args → ∀ e ∈ args, C e)
    (hname : ∀ car cdr name rest, C (.pair car cdr) → P (.native (.builtin .setq)) →
      cdr.elements? = some (.symbol name :: rest) → Bindable I P name)
    (host : Host) (fuel : Nat) {e : Expr} (he : C e) :
    Ensures I P (fun _ => True) (evalWithin host fuel e) := by
  -- parts are evaluated with less fuel, so the induction is on it and not on the form
  induction fuel generalizing e with
  | zero => exact .throw trivial
  | succ fuel ih =>
    refine .nested ?_ (fun m hm _ => hcount m _ hm) (fun m hm => hcount m _ hm) fun _ _ _ => trivial
    cases e with
    | symbol name => exact .lookup (hlookup name he) trivial
    | pair car cdr =>
      apply h.ensures_evalForm_call (ih (hcar car cdr he))
      · intro args helements
        exact ⟨trivial, fun arg harg => ih (hargs car cdr args he helements arg harg)⟩
      · exact fun _ => trivial
      · exact fun hsetq name rest helements => hname car cdr name rest he hsetq helements
    | nil | atom | native => exact .pure (hself _ he rfl)

/-! ## What is bound, and where -/

/-- The scope of the machine is one that binding names that are free to be bound can make of `s`,
and nothing foreign is bound in it. -/
structure Machine.Framed (Free : String → Prop) (s : Scope) (m : Machine) : Prop where
  outer : m.scope.outer = s.outer
  kept : ∀ name, ¬Free name → m.scope.bindings.find? name = s.bindings.find? name
  stays : ∀ name, s.containsLocal name → m.scope.containsLocal name
  bound : ∀ name value, m.scope.lookup name = some value → value.OnlyBuiltins

namespace Machine.Framed

variable {Free : String → Prop} {s : Scope} {m : Machine}

theorem of_scope (hbound : ∀ name value, m.scope.lookup name = some value → value.OnlyBuiltins) :
    Framed Free m.scope m :=
  ⟨rfl, fun _ _ => rfl, fun _ => id, hbound⟩

theorem bindable {name : String} (hname : Free name) :
    Bindable (Framed Free s) Expr.OnlyBuiltins name := by
  intro m value h hvalue
  refine ⟨h.outer, fun n hn => ?_, fun n hn => ?_, Scope.forall_lookup_set name hvalue h.bound⟩
  · have hne : n ≠ name := fun heq => hn (heq ▸ hname)
    rw [← h.kept n hn, Scope.set, Bindings.find?_insert, if_neg hne]
  · rw [Scope.containsLocal, Scope.set, Bindings.find?_insert]
    split
    · rfl
    · exact h.stays n hn

theorem closed :
    ClosedButNames (Framed Free s) Expr.OnlyBuiltins (fun _ => True) (fun _ => True) :=
  .of_onlyBuiltins (fun _ _ h => ⟨h.outer, h.kept, h.stays, h.bound⟩) fun _ _ => trivial

theorem ensures_evalWithin (host : Host) (fuel : Nat) {e : Expr} (he : e.OnlyBuiltins)
    (hfree : ∀ name, e.MayBind name → Free name) :
    Ensures (Framed Free s) Expr.OnlyBuiltins (fun _ => True) (evalWithin host fuel e) := by
  apply ClosedButNames.ensures_evalWithin (C := fun e => e.OnlyBuiltins ∧
    ∀ name, e.MayBind name → Free name) closed
  · exact fun m n h => ⟨h.outer, h.kept, h.stays, h.bound⟩
  · exact fun name _ m value h => h.bound name value
  · exact fun e he _ => he.1
  · exact fun car cdr he => ⟨he.1.1, fun name hname => he.2 name hname.of_car⟩
  · rintro car cdr args he hargs arg harg
    obtain rfl := Expr.eq_ofList_of_elements? hargs
    exact ⟨Expr.onlyBuiltins_ofList_iff.1 he.1.2 arg harg, fun name hname => he.2 name
      (Expr.mayBind_ofList_iff.2 (.inr ⟨arg, List.mem_cons_of_mem car harg, hname⟩))⟩
  · rintro car cdr name rest he - hargs
    obtain rfl := Expr.eq_ofList_of_elements? hargs
    have hsecond : (Expr.ofList (car :: .symbol name :: rest)).MayBind name :=
      Expr.mayBind_ofList_iff.2 (.inl rfl)
    exact @bindable Free s name (he.2 name hsecond)
  · exact ⟨he, hfree⟩

end Machine.Framed

/-! ## Forms that cannot get hold of `setq` -/

theorem Expr.Harmless.closed (s : Scope) :
    ClosedButNames (·.scope = s) Expr.Harmless (fun _ => True) (fun _ => True) where
  nil := ⟨trivial, id⟩
  int _ _ _ := ⟨trivial, id⟩
  float _ := ⟨trivial, id⟩
  car h := (harmless_pair_iff.1 h).1
  ofList _ hes _ := harmless_ofList_iff.2 hes
  builtin h := h.onlyBuiltins
  print h _ := h
  fault _ _ := trivial

theorem Expr.Harmless.ensures_evalWithin (host : Host) (fuel : Nat) {s : Scope} {e : Expr}
    (he : e.Harmless)
    (hbound : ∀ name ∈ e.symbols, ∀ value, s.lookup name = some value → value.Harmless) :
    Ensures (·.scope = s) Expr.Harmless (fun _ => True) (evalWithin host fuel e) := by
  apply ClosedButNames.ensures_evalWithin (C := fun e => e.Harmless ∧
    ∀ name ∈ e.symbols, ∀ value, s.lookup name = some value → value.Harmless) (closed s)
  · exact fun m n h => h
  · rintro name he m value rfl hvalue
    exact he.2 name List.mem_cons_self value hvalue
  · exact fun e he _ => he.1
  · exact fun car cdr he => ⟨(harmless_pair_iff.1 he.1).1,
      fun name hname => he.2 name (List.mem_append_left _ hname)⟩
  · rintro car cdr args he hargs arg harg
    obtain rfl := eq_ofList_of_elements? hargs
    exact ⟨harmless_ofList_iff.1 (harmless_pair_iff.1 he.1).2 arg harg, fun name hname =>
      he.2 name (List.mem_append_right _ (mem_symbols_ofList.2 ⟨arg, harg, hname⟩))⟩
  · exact fun car cdr name rest _ hsetq => absurd rfl hsetq.not_holds
  · exact ⟨he, hbound⟩

/-- Where no foreign function can be reached, an evaluation, however it ends, leaves the scopes
around its own as they were, removes no binding, and changes none but those of second elements of
the form and of the lists nested in it. It changes none at all if neither the form nor what its
symbols mean holds `setq`. -/
theorem eval_frame (host : Host) {e : Expr} {m : Machine} (he : e.OnlyBuiltins)
    (hbound : ∀ name value, m.scope.lookup name = some value → value.OnlyBuiltins) :
    let after := ((eval host e).runOn m).2.scope
    after.outer = m.scope.outer ∧
      (∀ name, m.scope.containsLocal name → after.containsLocal name) ∧
      (∀ name, ¬e.MayBind name → after.bindings.find? name = m.scope.bindings.find? name) ∧
      (¬e.Holds (.builtin .setq) →
        (∀ name ∈ e.symbols, ∀ value, m.scope.lookup name = some value →
          ¬value.Holds (.builtin .setq)) →
        after = m.scope) := by
  have hframed : Machine.Framed e.MayBind m.scope ((eval host e).runOn m).2 :=
    (Machine.Framed.ensures_evalWithin host (maxEvaluations + 1) he (fun _ => id) m
      (.of_scope hbound)).1
  refine ⟨hframed.outer, hframed.stays, hframed.kept, fun hsetq hvalues => ?_⟩
  have hharmless : ∀ name ∈ e.symbols, ∀ value, m.scope.lookup name = some value →
      value.Harmless := fun name hname value hvalue =>
    ⟨hbound name value hvalue, hvalues name hname value hvalue⟩
  exact (Expr.Harmless.ensures_evalWithin host (maxEvaluations + 1) ⟨he, hsetq⟩ hharmless m rfl).1

/-- A call of `setq` by another name that binds an element of an inner call before it fails, and a
call that finds nothing to bind with, both in a scope inside another. -/
theorem eval_frame_of_setq :
    let s := (Scope.root.install.set "f" (.native (.builtin .setq))).child
    let m := Machine.ofScope (s.set "x" (.ofList [.int 1]))
    let inner : Expr := .ofList [.symbol "f", .symbol "y", .int 2]
    let outer : Expr := .ofList [.symbol "list", .symbol "x", inner, .symbol "z"]
    let fails : Expr := .ofList [.symbol "f", .symbol "x", outer]
    let reads : Expr := .ofList [.symbol "list", .ofList [.symbol "first", .symbol "x"]]
    let after := ((eval .none fails).runOn m).2.scope
    ((eval .none fails).runOn m).1.isOk = false ∧ after.outer = m.scope.outer ∧
      m.scope.containsLocal "y" = false ∧ after.containsLocal "y" ∧
      after.bindings.find? "f" = m.scope.bindings.find? "f" ∧
      after.bindings.find? "+" = m.scope.bindings.find? "+" ∧
      ((eval .none reads).runOn m).2.scope = m.scope := by
  intro s m inner outer fails reads after
  have hbound : ∀ name value, m.scope.lookup name = some value → value.OnlyBuiltins := by
    intro name value hvalue
    rw [show m.scope = s.set "x" _ from rfl, Scope.lookup_set] at hvalue
    split at hvalue
    · cases hvalue
      simp [Expr.int, Expr.OnlyBuiltins]
    · rw [Scope.lookup_child, Scope.lookup_set] at hvalue
      split at hvalue
      · cases hvalue
        exact ⟨_, rfl⟩
      · rcases Scope.of_lookup_install hvalue with ⟨b, rfl⟩ | hroot
        · exact ⟨b, rfl⟩
        · cases hroot
  have hnot {name : String} (hx : name ≠ "x") (hy : name ≠ "y") : ¬fails.MayBind name := by
    have hsymbol (s : String) : ¬(Expr.symbol s).MayBind name := Expr.not_mayBind_of_isPair rfl
    have hint : ¬(Expr.int 2).MayBind name := Expr.not_mayBind_of_isPair rfl
    simp [fails, outer, inner, Expr.mayBind_ofList_iff, hsymbol, hint, hx.symm, hy.symm,
      -Expr.ofList_cons]
  have hsetq : ∀ name ∈ reads.symbols, ∀ value, m.scope.lookup name = some value →
      ¬value.Holds (.builtin .setq) := by
    intro name hname value hvalue
    have hnames : name = "list" ∨ name = "first" ∨ name = "x" := by
      simpa [reads, Expr.symbols] using hname
    rcases hnames with rfl | rfl | rfl <;> cases hvalue <;> simp [Expr.Holds, Expr.int]
  have honly : fails.OnlyBuiltins ∧ reads.OnlyBuiltins := by
    simp [fails, outer, inner, reads, Expr.int, Expr.OnlyBuiltins]
  have hfails := eval_frame .none honly.1 hbound
  have hreads := eval_frame .none honly.2 hbound
  exact ⟨by decide +kernel, hfails.1, by decide +kernel, by decide +kernel,
    hfails.2.2.1 "f" (hnot (by decide) (by decide)),
    hfails.2.2.1 "+" (hnot (by decide) (by decide)),
    hreads.2.2.2 (by simp [reads, Expr.Holds]) hsetq⟩

end PairLisp
