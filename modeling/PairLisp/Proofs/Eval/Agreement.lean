import PairLisp.Fault
import PairLisp.Proofs.Eval.Limits
import PairLisp.Proofs.Eval.Together

/-! # What an evaluation depends on

Evaluating a form reads and binds the names of its symbols and no others, and raw text is for
display only. So forms that differ in raw text, on machines that give the names in them the same
meaning up to raw text, come to the same: nothing else that the machines hold has a part in it.
-/

namespace PairLisp

open EvalM

def Expr.symbols : Expr → List String
  | .symbol name => [name]
  | .pair car cdr => car.symbols ++ cdr.symbols
  | _ => []

/-- Each of the names is bound in both scopes, to values that are alike, or in neither. -/
def Scope.AgreesOn (names : List String) (s s' : Scope) : Prop :=
  ∀ name ∈ names, Option.Rel Expr.Alike (s.lookup name) (s'.lookup name)

namespace Expr

theorem mem_symbols_ofList {name : String} {es : List Expr} :
    name ∈ (ofList es).symbols ↔ ∃ e ∈ es, name ∈ e.symbols := by
  induction es with
  | nil => simp [symbols]
  | cons e es ih => simp [symbols, ih]

structure SameValue (v v' : Expr) : Prop where
  alike : v.Alike v'
  onlyBuiltins : v.OnlyBuiltins

/-- The forms are alike, and hold no foreign function and no symbol but those with the names. -/
structure SameForm (names : List String) (e e' : Expr) : Prop extends SameValue e e' where
  symbols : ∀ name ∈ e.symbols, name ∈ names

namespace SameValue

theorem refl {v : Expr} (h : v.OnlyBuiltins) : SameValue v v := ⟨.refl v, h⟩

theorem nil : SameValue .nil .nil := .refl trivial

theorem ofList {vs vs' : List Expr} (h : List.Forall₂ SameValue vs vs') :
    SameValue (.ofList vs) (.ofList vs') := by
  induction h with
  | nil => exact .nil
  | cons hv _ ih => exact ⟨.pair hv.alike ih.alike, hv.onlyBuiltins, ih.onlyBuiltins⟩

end SameValue

namespace SameForm

variable {names : List String} {e e' a a' d d' : Expr}

theorem car (h : SameForm names (.pair a d) (.pair a' d')) : SameForm names a a' := by
  cases h.alike with
  | pair ha _ =>
    exact ⟨⟨ha, h.onlyBuiltins.1⟩, fun name hname => h.symbols name (List.mem_append_left _ hname)⟩

theorem cdr (h : SameForm names (.pair a d) (.pair a' d')) : SameForm names d d' := by
  cases h.alike with
  | pair _ hd =>
    exact ⟨⟨hd, h.onlyBuiltins.2⟩, fun name hname => h.symbols name (List.mem_append_right _ hname)⟩

theorem rel_elements? (h : SameForm names e e') :
    Option.Rel (List.Forall₂ (SameForm names)) e.elements? e'.elements? := by
  refine rel_option_imp h.alike.rel_elements? fun es hes es' halike => ?_
  obtain rfl := eq_ofList_of_elements? hes
  have hall := (List.forall₂_and_left es es').2 ⟨fun part hpart =>
    And.intro (onlyBuiltins_ofList_iff.1 h.onlyBuiltins part hpart) fun name hname =>
      h.symbols name (mem_symbols_ofList.2 ⟨part, hpart, hname⟩), halike⟩
  exact hall.imp fun _ _ hpart => ⟨⟨hpart.2, hpart.1.1⟩, hpart.1.2⟩

end SameForm
end Expr

open PairLisp.Expr (SameValue SameForm)

theorem EvalFault.Alike.toExpr_eq {f f' : EvalFault} (h : f.Alike f') :
    (Fault.eval f).toExpr = (Fault.eval f').toExpr := by
  rw [Fault.toExpr, Fault.toExpr, Fault.reasonName, Fault.reasonName, Fault.message, Fault.message,
    h.name_eq, h.message_eq]
  rfl

/-- Machines with the same evaluations under way and the same meanings of the names, which have
written the same after `out` and `out'`. -/
structure Machine.Parallel (names : List String) (out out' : String) (m m' : Machine) : Prop where
  active : m.active = m'.active
  bound : ∀ name ∈ names, Option.Rel SameValue (m.scope.lookup name) (m'.scope.lookup name)
  output : ∃ written, m.output = out ++ written ∧ m'.output = out' ++ written

theorem Machine.output_print (m : Machine) (value : Expr) :
    (m.print value).output = m.output ++ (value.displayed ++ "\n") := by
  rw [output, print, Array.foldl_push]
  rfl

namespace Machine.Parallel

variable {names : List String} {out out' : String} {m m' : Machine}

theorem assign (h : Parallel names out out' m m') (name : String) {v v' : Expr}
    (hv : SameValue v v') :
    Parallel names out out' { m with scope := m.scope.set name v }
      { m' with scope := m'.scope.set name v' } := by
  refine ⟨h.active, fun n hn => ?_, h.output⟩
  rw [Scope.lookup_set, Scope.lookup_set]
  split
  · exact .some hv
  · exact h.bound n hn

theorem print (h : Parallel names out out' m m') {v v' : Expr} (hv : SameValue v v') :
    Parallel names out out' (m.print v) (m'.print v') := by
  obtain ⟨written, hm, hm'⟩ := h.output
  refine ⟨h.active, h.bound, written ++ (v.displayed ++ "\n"), ?_, ?_⟩
  · rw [output_print, hm, String.append_assoc]
  · rw [output_print, hm', hv.alike.displayed_eq, String.append_assoc]

theorem of_agreesOn (hscopes : m.scope.AgreesOn names m'.scope) (hactive : m.active = m'.active)
    (hbound : ∀ name ∈ names, ∀ value, m.scope.lookup name = some value → value.OnlyBuiltins) :
    Parallel names m.output m'.output m m' where
  active := hactive
  bound name hname := rel_option_imp (hscopes name hname) fun value hvalue _ halike =>
    ⟨halike, hbound name hname value hvalue⟩
  output := ⟨"", by simp⟩

theorem agreesOn (h : Parallel names out out' m m') : m.scope.AgreesOn names m'.scope :=
  fun name hname => rel_option_imp (h.bound name hname) fun _ _ _ hv => hv.alike

theorem count (h : Parallel names out out' m m') (n : Nat) :
    Parallel names out out' { m with active := n } { m' with active := n } :=
  ⟨rfl, h.bound, h.output⟩

end Machine.Parallel

/-! ## Calls -/

section Calls

variable {names : List String} {out out' : String} {host host' : Host}
  {eval eval' : Expr → EvalM Expr} {R : Machine → Machine → Prop} {v v' w w' : Expr}

theorem together_number (h : SameValue v v') :
    Together R Eq (Builtin.number v) (Builtin.number v') := by
  cases h.alike with
  | atom raw raw' value =>
    cases value with
    | int | float => exact .pure rfl
    | string => exact .throw (.invalidArgument _ _ h.alike)
  | nil | symbol | native | pair => exact .throw (.invalidArgument _ _ h.alike)

theorem together_sum (hv : SameValue v v') (hw : SameValue w w') :
    Together R SameValue (Builtin.sum v w) (Builtin.sum v' w') := by
  apply Together.bind (together_number hv)
  rintro l _ rfl
  apply Together.bind (together_number hw)
  rintro r _ rfl
  split
  · next m n =>
    cases Builtin.checkedSum m n with
    | some s => exact .pure (.refl trivial)
    | none => exact .throw (.invalidArgument _ _ hw.alike)
  · exact .pure (.refl trivial)
  · exact .throw (.refl _)

theorem together_apply (b : Builtin) {args args' : List Expr}
    (hargs : List.Forall₂ (SameForm names) args args')
    (heval : ∀ e ∈ args, ∀ e', SameForm names e e' →
      Together (Machine.Parallel names out out') SameValue (eval e) (eval' e')) :
    Together (Machine.Parallel names out out') SameValue (b.apply eval args)
      (b.apply eval' args') := by
  have hall := Together.evalAll hargs heval
  cases b with
  | setq =>
    cases hargs with
    | nil => exact .pure .nil
    | cons hname hrest =>
      cases hrest with
      | nil => exact .pure .nil
      | @cons e e' _ _ he _ =>
        cases hname.alike with
        | symbol name =>
          apply Together.bind (heval e (by simp) e' he)
          intro value value' hvalue
          apply Together.bind (.modify fun m m' hm => hm.assign name hvalue)
          exact fun _ _ _ => .pure hvalue
        | nil | atom | native | pair => exact .throw (.invalidArgument _ _ hname.alike)
  | print =>
    apply Together.bind hall
    intro values values' hvalues
    cases hvalues with
    | nil => exact .pure .nil
    | cons hvalue _ =>
      apply Together.bind (.modify fun m m' hm => hm.print hvalue)
      exact fun _ _ _ => .pure .nil
  | list =>
    apply Together.bind hall
    intro values values' hvalues
    have hlist := SameValue.ofList hvalues
    dsimp only
    rw [hlist.alike.nestingDepth_eq]
    split
    · exact .throw (.refl _)
    · exact .pure hlist
  | first =>
    apply Together.bind hall
    intro values values' hvalues
    cases hvalues with
    | nil => exact .pure .nil
    | cons hvalue _ =>
      cases hvalue.alike with
      | pair hcar _ => exact .pure ⟨hcar, hvalue.onlyBuiltins.1⟩
      | nil | symbol | atom | native => exact .throw (.invalidArgument _ _ hvalue.alike)
  | add =>
    apply Together.bind hall
    intro values values' hvalues
    match hvalues with
    | .cons hv (.cons hw .nil) => exact together_sum hv hw
    | .nil | .cons _ .nil | .cons _ (.cons _ (.cons _ _)) => exact .pure .nil

theorem together_call (b : Builtin) {args args' : List Expr}
    (hargs : List.Forall₂ (SameForm names) args args')
    (heval : ∀ e ∈ args, ∀ e', SameForm names e e' →
      Together (Machine.Parallel names out out') SameValue (eval e) (eval' e')) :
    Together (Machine.Parallel names out out') SameValue (b.call eval args)
      (b.call eval' args') := by
  rw [Builtin.call, Builtin.call, hargs.length_eq]
  split
  · exact together_apply b hargs heval
  · exact .throw (.refl _)

theorem together_evalForm {e e' : Expr} (h : SameForm names e e')
    (heval : ∀ e e', SameForm names e e' →
      Together (Machine.Parallel names out out') SameValue (eval e) (eval' e')) :
    Together (Machine.Parallel names out out') SameValue (evalForm host eval e)
      (evalForm host' eval' e') := by
  cases halike : h.alike with
  | symbol name =>
    exact .lookup fun m m' hm => hm.bound name (h.symbols name List.mem_cons_self)
  | nil | atom | native => exact .pure h.toSameValue
  | pair hcar hcdr =>
    apply Together.bind (heval _ _ h.car)
    intro f f' hf
    cases hf.alike with
    | nil | symbol | atom | pair => exact .throw (.notCallable hf.alike)
    | native f =>
      obtain ⟨b, rfl⟩ := hf.onlyBuiltins
      unfold argumentsOf
      have hargs := h.cdr.rel_elements?
      revert hargs
      generalize Expr.elements? _ = args
      generalize Expr.elements? _ = args'
      rintro (hargs | _)
      · exact together_call b hargs fun e _ => heval e
      · exact .throw (.improperArguments hcdr)

/-- Evaluations of the same form on parallel machines stay parallel, whatever the fuel. -/
theorem together_evalWithin (host host' : Host) (fuel : Nat) {e e' : Expr}
    (h : SameForm names e e') :
    Together (Machine.Parallel names out out') SameValue (evalWithin host fuel e)
      (evalWithin host' fuel e') := by
  induction fuel generalizing e e' with
  | zero => exact .throw (.refl _)
  | succ fuel ih =>
    exact .nested (together_evalForm h fun _ _ h => ih h) (fun _ _ hm => hm.active)
      fun _ _ n hm => hm.count n

end Calls

/-- Two evaluations of forms that are alike, with as many others under way, in scopes that agree on
the symbols of the form: they have the same outcome and the same output, and the scopes still agree
on these symbols. -/
theorem eval_agrees (host host' : Host) {e e' : Expr} {m m' : Machine} (hforms : e.Alike e')
    (hscopes : m.scope.AgreesOn e.symbols m'.scope) (hactive : m.active = m'.active)
    (hform : e.OnlyBuiltins)
    (hbound : ∀ name ∈ e.symbols, ∀ value, m.scope.lookup name = some value →
      value.OnlyBuiltins) :
    let run := (eval host e).runOn m
    let run' := (eval host' e').runOn m'
    SameOutcome Expr.Alike run.1 run'.1 ∧
      (∀ f f', run.1 = .error f → run'.1 = .error f' →
        (Fault.eval f).toExpr = (Fault.eval f').toExpr) ∧
      (∃ written, run.2.output = m.output ++ written ∧ run'.2.output = m'.output ++ written) ∧
      run.2.scope.AgreesOn e.symbols run'.2.scope := by
  have hparallel := Machine.Parallel.of_agreesOn hscopes hactive hbound
  have hsame : SameForm e.symbols e e' := ⟨⟨hforms, hform⟩, fun _ hname => hname⟩
  obtain ⟨hafter, houtcome⟩ :=
    together_evalWithin host host' (maxEvaluations + 1) hsame m m' hparallel
  refine ⟨houtcome.imp fun _ _ hv => hv.alike, fun f f' hf hf' => ?_, hafter.output,
    hafter.agreesOn⟩
  rw [eval] at hf hf'
  rw [hf, hf'] at houtcome
  cases houtcome with
  | error halike => exact halike.toExpr_eq

/-- The same call read from different texts, in a scope of its own and in one inside another. -/
theorem eval_agrees_of_setq :
    let form (raw : String) : Expr := .ofList [.symbol "setq", .symbol "b",
      .ofList [.symbol "+", .symbol "a", .atom ⟨raw, .int 1⟩]]
    let m := Machine.ofScope (Scope.root.install.set "a" (.atom ⟨"2", .int 2⟩))
    let m' := Machine.ofScope (Scope.root.install.set "a" (.atom ⟨"0x2", .int 2⟩)).child
    let run := (eval .none (form "01")).runOn m
    let run' := (eval .none (form "1")).runOn m'
    ((form "01").Alike (form "1") ∧ m.scope.AgreesOn (form "01").symbols m'.scope) ∧
      SameOutcome Expr.Alike run.1 run'.1 ∧
      run.2.scope.AgreesOn (form "01").symbols run'.2.scope := by
  intro form m m' run run'
  have hforms : (form "01").Alike (form "1") := .ofList (.cons (.refl _) (.cons (.refl _)
    (.cons (.ofList (.cons (.refl _) (.cons (.refl _) (.cons (.atom _ _ _) .nil)))) .nil)))
  have hsymbols {name : String} (h : name ∈ (form "01").symbols) :
      name = "setq" ∨ name = "b" ∨ name = "+" ∨ name = "a" := by
    simpa [form, Expr.symbols] using h
  have hscopes : m.scope.AgreesOn (form "01").symbols m'.scope := by
    intro name hname
    rcases hsymbols hname with rfl | rfl | rfl | rfl
    · exact .some (.native (.builtin .setq))
    · exact .none
    · exact .some (.native (.builtin .add))
    · exact .some (.atom "2" "0x2" (.int 2))
  have hbound : ∀ name ∈ (form "01").symbols, ∀ value, m.scope.lookup name = some value →
      value.OnlyBuiltins := by
    intro name hname value hvalue
    rw [show m.scope = Scope.root.install.set "a" _ from rfl, Scope.lookup_set] at hvalue
    split at hvalue
    · cases hvalue
      trivial
    · rcases Scope.of_lookup_install hvalue with ⟨b, rfl⟩ | hroot
      · exact ⟨b, rfl⟩
      · cases hroot
  have hall := eval_agrees .none .none hforms hscopes rfl
    (Expr.onlyBuiltins_ofList_iff.2 (by simp [Expr.OnlyBuiltins])) hbound
  exact ⟨⟨hforms, hscopes⟩, hall.1, hall.2.2.2⟩

end PairLisp
