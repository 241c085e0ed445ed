import PairLisp.Proofs.Eval.Growth
import PairLisp.Proofs.Eval.Sequence
import PairLisp.Repl.Basic

/-! # Which values are shown

After each form of a session its value is written on a line, or nothing is. Nothing is written
exactly if the value is empty and the head of the form is the symbol `print`. The function that is
called is what the head evaluates to, which is another thing: `print` may be bound to another
function, and the function may be called in other ways.
-/

namespace PairLisp

open EvalM

/-! ## Calls -/

/-- The native function that evaluating a form on `m` calls: what its head evaluates to. -/
def called? (m : Machine) : Expr → Option Native
  | .pair car _ =>
    match ((evalWithin .none maxEvaluations car).runOn { m with active := m.active + 1 }).1 with
    | .ok (.native f) => some f
    | _ => none
  | _ => none

/-- The head of the form is the symbol `print`. -/
def Expr.NamesPrint (e : Expr) : Prop := ∃ cdr, e = .pair (.symbol Builtin.print.name) cdr

variable {m after : Machine} {form value car cdr : Expr} {f : Native}
  {name : String}

theorem returnsNothing_iff : returnsNothing form = true ↔ form.NamesPrint := by
  cases form with
  | pair car cdr => cases car <;> simp [returnsNothing, Expr.NamesPrint]
  | nil | symbol | atom | native => simp [returnsNothing, Expr.NamesPrint]

/-- A call with a value is one of a function of the language, on the machine that evaluating the
head leaves behind. -/
theorem exists_call_of_eval_eq_ok (h : (eval .none (.pair car cdr)).runOn m = (.ok value, after)) :
    ∃ b args m', (evalWithin .none maxEvaluations car).runOn { m with active := m.active + 1 } =
        (.ok (.native (.builtin b)), m') ∧
      ((b.call (evalWithin .none maxEvaluations) args).runOn m').1 = .ok value := by
  rw [eval, evalWithin] at h
  by_cases hactive : maxEvaluations ≤ m.active
  · rw [runOn_nested_of_full _ hactive] at h
    cases h
  · rw [runOn_nested _ (Nat.lt_of_not_le hactive)] at h
    have hvalue := congrArg Prod.fst h
    simp only [evalForm, runOn_bind] at hvalue
    rcases hcar : (evalWithin .none maxEvaluations car).runOn { m with active := m.active + 1 } with
      ⟨fault | head, m'⟩
    · rw [hcar] at hvalue
      cases hvalue
    · rw [hcar] at hvalue
      cases head with
      | native f =>
        rw [argumentsOf] at hvalue
        cases hargs : cdr.elements? with
        | none =>
          rw [hargs] at hvalue
          cases hvalue
        | some args =>
          rw [hargs] at hvalue
          cases f with
          | builtin b => exact ⟨b, args, m', rfl, hvalue⟩
          | host name => cases hvalue
      | nil | symbol | atom | pair => cases hvalue

theorem ensures_anything {α : Type} (x : EvalM α) :
    Ensures (fun _ => True) (fun _ => True) (fun _ => True) x := by
  refine fun m _ => ⟨trivial, ?_⟩
  split <;> trivial

theorem ensures_call_print (eval : Expr → EvalM Expr) (args : List Expr) :
    Ensures (fun _ => True) (· = .nil) (fun _ => True) (Builtin.print.call eval args) := by
  rw [Builtin.call]
  split
  · refine .bind (.evalAll fun e _ => ensures_anything (eval e)) fun values _ => ?_
    cases values with
    | nil => exact .pure rfl
    | cons value values => exact .bind (ensures_anything _) fun _ _ => .pure rfl
  · exact .throw trivial

theorem eq_nil_of_called?_eq_print (h : (eval .none form).runOn m = (.ok value, after))
    (hcalled : called? m form = some (.builtin .print)) : value = .nil := by
  cases form with
  | pair car cdr =>
    obtain ⟨b, args, m', hcar, hvalue⟩ := exists_call_of_eval_eq_ok h
    rw [called?, hcar] at hcalled
    obtain rfl : b = .print := Native.builtin.inj (Option.some.inj hcalled)
    have hprint := (ensures_call_print (evalWithin .none maxEvaluations) args m' trivial).2
    rwa [hvalue] at hprint
  | nil | symbol | atom | native => cases hcalled

theorem called?_eq_some_iff_of_symbol
    (h : (eval .none (.pair (.symbol name) cdr)).runOn m = (.ok value, after)) :
    called? m (.pair (.symbol name) cdr) = some f ↔ m.scope.lookup name = some (.native f) := by
  obtain ⟨b, args, m', hcar, -⟩ := exists_call_of_eval_eq_ok h
  have hlookup : m.scope.lookup name = some (.native (.builtin b)) := by
    rw [show maxEvaluations = 255 + 1 from rfl, evalWithin, evalForm] at hcar
    by_cases hactive : maxEvaluations ≤ m.active + 1
    · rw [runOn_nested_of_full _ hactive] at hcar
      cases hcar
    · rw [runOn_nested _ (Nat.lt_of_not_le hactive), runOn_lookup, Scope.get] at hcar
      cases hlookup : m.scope.lookup name with
      | none =>
        rw [hlookup] at hcar
        cases hcar
      | some head =>
        rw [hlookup] at hcar
        exact congrArg some (Except.ok.inj (congrArg Prod.fst hcar))
  rw [called?, hcar, hlookup]
  simp

namespace Repl

variable {color : Bool} {lines : List String} {out : String}

/-! ## The line about a value -/

theorem resultLine_ne_empty (color : Bool) (value : Expr) : resultLine color value ≠ "" := by
  show "-> " ++ rendered color value ++ "\n" ≠ ""
  rw [Ne, ← String.toList_inj]
  simp

theorem echo_of_namesPrint (color : Bool) (h : form.NamesPrint) : echo color form .nil = "" := by
  rw [echo, returnsNothing_iff.2 h]
  rfl

theorem echo_eq_resultLine (color : Bool) (h : ¬(value = .nil ∧ form.NamesPrint)) :
    echo color form value = resultLine color value := by
  rw [echo, if_neg]
  rw [← returnsNothing_iff] at h
  cases value <;> simp_all [Expr.isNil]

theorem echo_eq_empty_iff (color : Bool) :
    echo color form value = "" ↔ value = .nil ∧ form.NamesPrint := by
  constructor
  · intro h
    by_contra hshown
    rw [echo_eq_resultLine color hshown] at h
    exact resultLine_ne_empty color value h
  · rintro ⟨rfl, h⟩
    exact echo_of_namesPrint color h

/-! ## Sessions -/

/-- The machine after some units, each with what is shown before it. -/
def answered (color : Bool) (us : List InputUnit) (m : Machine) : Machine :=
  us.foldl (fun m u => answer color u.text (m.write u.shown)) m

theorem answered_append (color : Bool) (us vs : List InputUnit) (m : Machine) :
    answered color (us ++ vs) m = answered color vs (answered color us m) :=
  List.foldl_append

/-- The form is evaluated on the machine `m` when `lines` are entered: the units before its own have
been answered, and the forms before it in its unit have values. -/
inductive Evaluated (color : Bool) (lines : List String) (form : Expr) (m : Machine) : Prop where
  | intro {before after : List InputUnit} {u : InputUnit} {done rest : List Expr}
      {results : List (Expr × Expr)} : (units lines).1 = before ++ u :: after →
      readText u.text = .ok (done ++ form :: rest) →
      evalForms .none (echo color) done ((answered color before .start).write u.shown) =
        (⟨results, none⟩, m) →
      Evaluated color lines form m

theorem Evaluated.of_last {us : List InputUnit} {u : InputUnit} (color : Bool)
    (hunits : (units lines).1 = us ++ [u]) (hread : readText u.text = .ok [form]) :
    Evaluated color lines form ((answered color us .start).write u.shown) :=
  @Evaluated.intro color lines form _ us [] u [] [] [] hunits hread rfl

theorem answer_continues (color : Bool) (text : String) (h : m.Continues out) :
    (answer color text m).Continues out :=
  ((h.interpret .none (echo color) text).write _).write "\n"

theorem answered_continues (color : Bool) (us : List InputUnit) (h : m.Continues out) :
    (answered color us m).Continues out := by
  induction us generalizing m with
  | nil => exact h
  | cons u us ih => exact ih (answer_continues color u.text (h.write u.shown))

/-- What is written about a value comes right after what evaluating its form left written. -/
theorem transcript_eq_append (h : Evaluated color lines form m)
    (hrun : (eval .none form).runOn m = (.ok value, after)) :
    ∃ rest, transcript color lines = after.output ++ echo color form value ++ rest := by
  obtain ⟨hunits, hread, hdone⟩ := h
  rename_i before behind u done rest results
  have hforms : ∀ e ∈ done ++ form :: rest, e.OnlyBuiltins := fun e he =>
    (isSource_of_readText hread e he).onlyBuiltins
  obtain ⟨hdoneForms, hforms⟩ := List.forall_mem_append.1 hforms
  obtain ⟨hform, hrest⟩ := List.forall_mem_cons.1 hforms
  have hm : m.Continues "" := by
    have hstart := (answered_continues color before .start).write u.shown
    simpa [hdone] using hstart.evalForms .none (echo color) hdoneForms
  have hafter : after.Continues "" := by simpa [hrun] using hm.eval .none hform
  have hunit :
      (interpret .none (echo color) u.text ((answered color before .start).write u.shown)).2 =
      (evalForms .none (echo color) rest (after.write (echo color form value))).2 := by
    rw [interpret_of_ok hread, evalForms_append_of_none hdone rfl, evalForms, hrun]
  -- What has been written up to and with this line is what all the rest is written behind.
  have hecho := (hafter.write (echo color form value)).restart
  have hlast : (answered color (units lines).1 .start).Continues
      (after.write (echo color form value)).output := by
    rw [hunits, answered_append]
    refine answered_continues color behind ?_
    have hunitDone := hecho.evalForms .none (echo color) hrest
    rw [← hunit] at hunitDone
    exact (hunitDone.write _).write _
  obtain ⟨more, hmore⟩ := hlast.output
  refine ⟨more ++ (units lines).2, ?_⟩
  show (answered color (units lines).1 .start).output ++ (units lines).2 = _
  rw [hmore, Machine.output_write, String.append_assoc]

/-- For every form of a session that has a value, what is written about it is nothing if the value
is empty and the head of the form is the symbol `print`, and a line that shows it otherwise. A call
of the function `print` has an empty value. So nothing is written exactly about the calls of this
function unless it is called by another head, or `print` means another function whose value is
empty. -/
theorem echo_in_session (color : Bool) {lines : List String} {form value : Expr} {m after : Machine}
    (h : Evaluated color lines form m) (hrun : (eval .none form).runOn m = (.ok value, after)) :
    (∃ rest, transcript color lines = after.output ++ echo color form value ++ rest) ∧
      (echo color form value = "" ↔ value = .nil ∧ form.NamesPrint) ∧
      (echo color form value ≠ "" → echo color form value = resultLine color value) ∧
      (called? m form = some (.builtin .print) → value = .nil) ∧
      ((echo color form value = "" ↔ called? m form = some (.builtin .print)) ↔
        (called? m form = some (.builtin .print) → form.NamesPrint) ∧
          (form.NamesPrint → value = .nil →
            m.scope.lookup "print" = some (.native (.builtin .print)))) := by
  have hempty : called? m form = some (.builtin .print) → value = .nil :=
    eq_nil_of_called?_eq_print hrun
  refine ⟨transcript_eq_append h hrun, echo_eq_empty_iff color, fun hne => ?_, hempty, ?_⟩
  · rw [Ne, echo_eq_empty_iff] at hne
    exact echo_eq_resultLine color hne
  · rw [echo_eq_empty_iff]
    by_cases hname : form.NamesPrint
    · have hcalled : called? m form = some (.builtin .print) ↔
          m.scope.lookup "print" = some (.native (.builtin .print)) := by
        obtain ⟨cdr, rfl⟩ := hname
        exact called?_eq_some_iff_of_symbol hrun
      rw [hcalled] at hempty ⊢
      tauto
    · tauto

/-- In a session that gives `print` a second name, this name calls it and the empty value is
shown. -/
theorem echo_in_session_of_alias :
    let lines := ["(setq p print)", "(p 1)"]
    let form : Expr := .ofList [.symbol "p", .int 1]
    ∃ m after rest, Evaluated false lines form m ∧
      (eval .none form).runOn m = (.ok .nil, after) ∧
      transcript false lines = after.output ++ "-> nil\n" ++ rest ∧
      called? m form = some (.builtin .print) ∧ ¬form.NamesPrint := by
  intro lines form
  have hunits : (units lines).1 = [⟨">> ", "(setq p print)"⟩] ++ [⟨">> ", "(p 1)"⟩] := by
    decide +kernel
  have h : Evaluated false lines form _ := .of_last false hunits (by rfl)
  obtain ⟨⟨rest, hrest⟩, hempty, -, -, -⟩ := echo_in_session false h rfl
  refine ⟨_, _, rest, h, rfl, hrest, by decide +kernel, fun hname => ?_⟩
  have hshown : echo false form .nil ≠ "" := by decide +kernel
  exact hshown (hempty.2 ⟨rfl, hname⟩)

/-- A session in which nothing is written exactly about the values of calls of the function
`print`. -/
def EchoesByCall (color : Bool) (lines : List String) : Prop :=
  ∀ form value m after, Evaluated color lines form m →
    (eval .none form).runOn m = (.ok value, after) →
    (echo color form value = "" ↔ called? m form = some (.builtin .print))

/-- What `print` calls by another name give is shown, and what another function that is bound to
`print` gives is not. -/
theorem not_echoesByCall :
    ¬EchoesByCall false ["(setq p print)", "(p 1)"] ∧
      ¬EchoesByCall false ["(setq print setq)", "(print a ())"] := by
  constructor
  · intro h
    have hunits : (units ["(setq p print)", "(p 1)"]).1 =
        [⟨">> ", "(setq p print)"⟩] ++ [⟨">> ", "(p 1)"⟩] := by decide +kernel
    have hcall := h (.ofList [.symbol "p", .int 1]) .nil _ _ (.of_last false hunits (by rfl)) rfl
    have hshown : echo false (.ofList [.symbol "p", .int 1]) .nil ≠ "" := by decide +kernel
    exact hshown (hcall.2 (by decide +kernel))
  · intro h
    have hunits : (units ["(setq print setq)", "(print a ())"]).1 =
        [⟨">> ", "(setq print setq)"⟩] ++ [⟨">> ", "(print a ())"⟩] := by decide +kernel
    have hcall := h (.ofList [.symbol "print", .symbol "a", .nil]) .nil _ _
      (.of_last false hunits (by rfl)) rfl
    exact absurd (hcall.1 (by decide +kernel)) (by decide +kernel)

end Repl
end PairLisp
