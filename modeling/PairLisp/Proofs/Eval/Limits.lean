import PairLisp.Proofs.Eval.Values
import PairLisp.Proofs.Reader.Nesting

/-! # How deep evaluation goes

Evaluation goes into the elements of a list and nowhere else, whatever names are bound to, so the
evaluations under way are at most one more than the nesting of the expression. Each of them is
counted and taken back, however it ends. Texts do not nest as deeply as evaluation may, and their
lists are proper, so the evaluator's own limits are out of reach for them.
-/

namespace PairLisp

open EvalM

def Expr.OnlyBuiltins : Expr → Prop
  | .native f => ∃ b, f = .builtin b
  | .pair car cdr => car.OnlyBuiltins ∧ cdr.OnlyBuiltins
  | _ => True

/-- The machine has `k` evaluations under way and binds nothing that holds a foreign function. -/
structure Machine.Running (k : Nat) (m : Machine) : Prop where
  active : m.active = k
  bound : ∀ name value, m.scope.lookup name = some value → value.OnlyBuiltins

/-- The fault is no limit exceeded but that of `list`, or that on evaluations where `n` of them are
too many. -/
def EvalFault.WithinDepth (n : Nat) (f : EvalFault) : Prop :=
  ∀ limit, f = .depthOverflow limit →
    limit = maxListDepth ∨ (limit = maxEvaluations ∧ maxEvaluations < n)

namespace Expr

theorem onlyBuiltins_ofList_iff {es : List Expr} :
    (ofList es).OnlyBuiltins ↔ ∀ e ∈ es, e.OnlyBuiltins := by
  induction es with
  | nil => simp [OnlyBuiltins]
  | cons e es ih => simp [OnlyBuiltins, ih]

theorem IsDatum.onlyBuiltins {e : Expr} (h : e.IsDatum) : e.OnlyBuiltins := by
  induction h with
  | nil | int | float | string => trivial
  | builtin b => exact ⟨b, rfl⟩
  | list _ _ _ ih => exact onlyBuiltins_ofList_iff.2 ih

theorem IsSource.onlyBuiltins {e : Expr} (h : e.IsSource) : e.OnlyBuiltins := by
  induction h with
  | symbol | int | float | string => trivial
  | list _ _ ih => exact onlyBuiltins_ofList_iff.2 ih

end Expr

namespace EvalFault.WithinDepth

variable {f : EvalFault} {m n : Nat}

theorem of_isOrdinary (h : f.isOrdinary = true) : f.WithinDepth n := by
  rintro limit rfl
  exact .inl (by simpa [isOrdinary] using h)

theorem improper (chain : Expr) : (improperArguments chain).WithinDepth n := by
  rintro limit ⟨⟩

theorem full (h : maxEvaluations < n) : (depthOverflow maxEvaluations).WithinDepth n := by
  rintro limit ⟨⟩
  exact .inr ⟨rfl, h⟩

theorem mono (h : f.WithinDepth m) (hle : m ≤ n) : f.WithinDepth n :=
  fun limit hlimit => (h limit hlimit).imp_right fun hfull =>
    ⟨hfull.1, Nat.lt_of_lt_of_le hfull.2 hle⟩

theorem eq_maxListDepth (h : f.WithinDepth n) (hn : n ≤ maxEvaluations) {limit : Nat}
    (hf : f = .depthOverflow limit) : limit = maxListDepth := by
  rcases h limit hf with hlist | ⟨-, hlt⟩
  · exact hlist
  · exact absurd hn (Nat.not_le.2 hlt)

end EvalFault.WithinDepth

theorem ClosedButNames.of_onlyBuiltins {I : Machine → Prop} {F : EvalFault → Prop}
    (hprint : ∀ m value, I m → I (m.print value))
    (hfault : ∀ f : EvalFault, f.isOrdinary = true → F f) :
    ClosedButNames I Expr.OnlyBuiltins F (fun _ => True) where
  nil := trivial
  int _ _ _ := trivial
  float _ := trivial
  car h := h.1
  ofList _ hes _ := Expr.onlyBuiltins_ofList_iff.2 hes
  builtin h := h
  print hm _ := hprint _ _ hm
  fault := hfault

theorem Machine.Running.closed (k n : Nat) :
    Closed (Running k) Expr.OnlyBuiltins (·.WithinDepth n) (fun _ => True) where
  toClosedButNames := .of_onlyBuiltins (fun _ _ hm => ⟨hm.active, hm.bound⟩)
    fun _ hf => .of_isOrdinary hf
  bound hm hvalue := hm.bound _ _ hvalue
  assign name hm hvalue := ⟨hm.active, Scope.forall_lookup_set name hvalue hm.bound⟩

/-- With `k` evaluations under way, evaluating an expression has at most as many more under way as
it is nested, and one. The fuel is no further limit. -/
theorem ensures_evalWithin_depth (host : Host) (fuel k : Nat) {e : Expr} (he : e.OnlyBuiltins)
    (hfuel : maxEvaluations < fuel + k) :
    Ensures (Machine.Running k) Expr.OnlyBuiltins (·.WithinDepth (k + e.nestingByParts + 1))
      (evalWithin host fuel e) := by
  induction fuel generalizing k e with
  | zero => exact .throw (.full (by omega))
  | succ fuel ih =>
    have hclosed := Machine.Running.closed (k + 1) (k + e.nestingByParts + 1)
    refine Ensures.nested (J := Machine.Running (k + 1)) ?_ ?_ ?_ ?_
    · cases e with
      | symbol name => exact hclosed.ensures_evalForm_symbol name
      | pair car cdr =>
        have hpart {part : Expr} (hpart : part.OnlyBuiltins)
            (hlt : part.nestingByParts < (Expr.pair car cdr).nestingByParts) :
            Ensures (Machine.Running (k + 1)) Expr.OnlyBuiltins
              (·.WithinDepth (k + (Expr.pair car cdr).nestingByParts + 1))
              (evalWithin host fuel part) :=
          (ih (k + 1) hpart (by omega)).weaken fun f hf => hf.mono (by omega)
        apply hclosed.ensures_evalForm_pair
        · exact hpart he.1 (by simp only [Expr.nestingByParts]; omega)
        · intro args hargs
          obtain rfl := Expr.eq_ofList_of_elements? hargs
          refine ⟨trivial, fun arg harg => hpart (Expr.onlyBuiltins_ofList_iff.1 he.2 arg harg) ?_⟩
          have hlt := Expr.nestingByParts_lt_ofList harg
          simp only [Expr.nestingByParts]
          omega
        · exact fun _ => .improper cdr
      | nil | atom | native => exact .pure he
    · exact fun m hm _ => ⟨congrArg (· + 1) hm.active, hm.bound⟩
    · exact fun m hm => ⟨by rw [hm.active, Nat.add_sub_cancel], hm.bound⟩
    · intro m hm hfull
      rw [hm.active] at hfull
      exact .full (by omega)

/-- Evaluating takes back what it counts, and there are too many evaluations at once only where the
nesting of the expression asks for them. -/
theorem active_eval (host : Host) {e : Expr} {m : Machine} (he : e.OnlyBuiltins)
    (hbound : ∀ name value, m.scope.lookup name = some value → value.OnlyBuiltins) :
    ((eval host e).runOn m).2.active = m.active ∧ ∀ fault,
      ((eval host e).runOn m).1 = .error fault →
        fault.WithinDepth (m.active + e.nestingDepth + 1) := by
  have hall := ensures_evalWithin_depth host (maxEvaluations + 1) m.active he (by omega) m
    ⟨rfl, hbound⟩
  refine ⟨hall.1.active, fun fault hfault => ?_⟩
  rw [Expr.nestingDepth_eq_nestingByParts]
  have hresult := hall.2
  rw [eval] at hfault
  rwa [hfault] at hresult

/-! ## Sessions -/

/-- The form is evaluated on the machine `m` when `texts` are interpreted from the start on: the
texts before its own have been interpreted, and the forms before it in its text have values. -/
inductive EvaluatedIn (host : Host) (echo : Expr → Expr → String) (texts : List String)
    (form : Expr) (m : Machine) : Prop where
  | intro {before after : List String} {text : String} {done rest : List Expr}
      {results : List (Expr × Expr)} : texts = before ++ text :: after →
      readText text = .ok (done ++ form :: rest) →
      evalForms host echo done (session host echo before .start).2 = (⟨results, none⟩, m) →
      EvaluatedIn host echo texts form m

/-- Between forms: everything in the machine is a value and no evaluation is under way. -/
structure Machine.AtRest (m : Machine) : Prop where
  sound : m.Sound
  active : m.active = 0

/-- No fault of calls that are improper or of evaluations that are too many. -/
def EvalFault.Expected (f : EvalFault) : Prop :=
  (∀ chain, f ≠ .improperArguments chain) ∧ ∀ limit, f = .depthOverflow limit → limit = 128

section Sessions

variable (host : Host) (echo : Expr → Expr → String) {m : Machine}

theorem eval_atRest {form : Expr} (hform : form.IsSource) (hdepth : form.nestingDepth ≤ 128)
    (hm : m.AtRest) :
    ((eval host form).runOn m).2.AtRest ∧
      ∀ fault, ((eval host form).runOn m).1 = .error fault → fault.Expected := by
  obtain ⟨hsound, hresult⟩ := ensures_evalWithin host (maxEvaluations + 1) hform m hm.sound
  obtain ⟨hactive, hlimit⟩ := active_eval host hform.onlyBuiltins
    fun name value hvalue => (hm.sound.bound name value hvalue).datum.onlyBuiltins
  refine ⟨⟨hsound, hactive.trans hm.active⟩, fun fault hfault => ⟨?_, fun limit => ?_⟩⟩
  · rintro chain rfl
    rw [eval] at hfault
    rw [hfault] at hresult
    cases hresult
  · rw [hm.active] at hlimit
    exact (hlimit fault hfault).eq_maxListDepth (by rw [maxEvaluations]; omega)

theorem evalForms_atRest {forms : List Expr}
    (hforms : ∀ e ∈ forms, e.IsSource ∧ e.nestingDepth ≤ 128) (hm : m.AtRest) :
    (evalForms host echo forms m).2.AtRest ∧
      ∀ fault, (evalForms host echo forms m).1.fault = some (.eval fault) → fault.Expected := by
  induction forms generalizing m with
  | nil => exact ⟨hm, nofun⟩
  | cons form forms ih =>
    obtain ⟨hform, hforms⟩ := List.forall_mem_cons.1 hforms
    obtain ⟨hafter, hfault⟩ := eval_atRest host hform.1 hform.2 hm
    rw [evalForms]
    rcases hrun : (eval host form).runOn m with ⟨fault | value, after⟩
    · rw [hrun] at hafter hfault
      refine ⟨hafter, ?_⟩
      rintro _ ⟨⟩
      exact hfault fault rfl
    · rw [hrun] at hafter
      exact ih hforms ⟨hafter.sound.write _, hafter.active⟩

theorem forms_of_readText {text : String} {forms : List Expr} (h : readText text = .ok forms) :
    ∀ e ∈ forms, e.IsSource ∧ e.nestingDepth ≤ 128 :=
  fun e he => ⟨isSource_of_readText h e he, nestingDepth_of_readText h e he⟩

theorem interpret_atRest (text : String) (hm : m.AtRest) :
    (interpret host echo text m).2.AtRest ∧
      ∀ fault, (interpret host echo text m).1.fault = some (.eval fault) → fault.Expected := by
  rw [interpret]
  cases hread : readText text with
  | error fault =>
    refine ⟨hm, ?_⟩
    rintro fault ⟨⟩
    have hstop := readText_stop text
    rw [hread] at hstop
    cases hstop
  | ok forms => exact evalForms_atRest host echo (forms_of_readText hread) hm

theorem session_atRest (texts : List String) (hm : m.AtRest) :
    (session host echo texts m).2.AtRest ∧ ∀ report ∈ (session host echo texts m).1,
      ∀ fault, report.fault = some (.eval fault) → fault.Expected := by
  induction texts generalizing m with
  | nil => exact ⟨hm, by simp [session]⟩
  | cons text texts ih =>
    obtain ⟨hafter, hfault⟩ := interpret_atRest host echo text hm
    obtain ⟨hlast, hreports⟩ := ih hafter
    exact ⟨hlast, List.forall_mem_cons.2 ⟨hfault, hreports⟩⟩

theorem start_atRest : Machine.start.AtRest := ⟨.start, rfl⟩

variable {host echo} in
theorem EvaluatedIn.atRest {texts : List String} {form : Expr}
    (h : EvaluatedIn host echo texts form m) :
    m.AtRest ∧ form.IsSource ∧ form.nestingDepth ≤ 128 := by
  obtain ⟨-, hread, hdone⟩ := h
  rename_i before after text done rest results
  have hforms := forms_of_readText hread
  have hbefore := (session_atRest host echo before start_atRest).1
  have hafter := (evalForms_atRest host echo
    (fun e he => hforms e (List.mem_append_left _ he)) hbefore).1
  rw [hdone] at hafter
  exact ⟨hafter, hforms form (by simp)⟩

end Sessions

/-- In a session no evaluation is under way between forms, whatever comes of them, and no form
meets an improper call or the limit on evaluations. On any machine, this limit is met only by
expressions that are nested deeply enough for it. -/
theorem session_within_limits (host : Host) (echo : Expr → Expr → String) :
    (∀ texts form m, EvaluatedIn host echo texts form m →
        m.active = 0 ∧ ((eval host form).runOn m).2.active = 0 ∧
          ∀ fault, ((eval host form).runOn m).1 = .error fault → fault.Expected) ∧
      (∀ texts, ∀ report ∈ (session host echo texts .start).1, ∀ fault,
        report.fault = some (.eval fault) → fault.Expected) ∧
      ∀ (e : Expr) (m : Machine), e.OnlyBuiltins →
        (∀ name value, m.scope.lookup name = some value → value.OnlyBuiltins) →
        ((eval host e).runOn m).2.active = m.active ∧
          (((eval host e).runOn m).1 = .error (.depthOverflow 256) →
            256 < m.active + e.nestingDepth + 1) := by
  refine ⟨?_, fun texts => (session_atRest host echo texts start_atRest).2, ?_⟩
  · intro texts form m h
    obtain ⟨hm, hform, hdepth⟩ := h.atRest
    obtain ⟨hafter, hfault⟩ := eval_atRest host hform hdepth hm
    exact ⟨hm.active, hafter.active, hfault⟩
  · intro e m he hbound
    obtain ⟨hactive, hlimit⟩ := active_eval host he hbound
    refine ⟨hactive, fun hfault => ?_⟩
    rcases hlimit _ hfault 256 rfl with hlist | ⟨-, hlt⟩
    · cases hlist
    · exact hlt

/-- A call that fails two evaluations deep after a text that cannot be read, and one that is entered
with a single evaluation to spare. -/
theorem session_within_limits_of_calls :
    (∃ fault, ((eval .none (.ofList [.symbol "f", .ofList [.symbol "f", .symbol "x"]])).runOn
        (session .none silent ["(setq f first)", ")"] .start).2).1 = .error fault ∧
      fault.Expected) ∧
    (∃ report ∈ (session .none silent ["(setq f first)", ")", "(f (f x))"] .start).1, ∃ fault,
      report.fault = some (.eval fault) ∧ fault.Expected) ∧
    ((eval .none (.ofList [.symbol "list", .int 1])).runOn
        { Machine.start with active := 255 }).1 = .error (.depthOverflow 256) ∧
      256 < 255 + (Expr.ofList [.symbol "list", .int 1]).nestingDepth + 1 := by
  obtain ⟨hforms, hsessions, hmachines⟩ := session_within_limits .none silent
  refine ⟨?_, ?_, ?_⟩
  · have hfails : ((eval .none (.ofList [.symbol "f", .ofList [.symbol "f", .symbol "x"]])).runOn
        (session .none silent ["(setq f first)", ")"] .start).2).1.toOption.isNone = true := by
      decide +kernel
    cases hresult : ((eval .none (.ofList [.symbol "f", .ofList [.symbol "f", .symbol "x"]])).runOn
        (session .none silent ["(setq f first)", ")"] .start).2).1 with
    | ok value =>
      rw [hresult] at hfails
      cases hfails
    | error fault =>
      refine ⟨fault, rfl, (hforms ["(setq f first)", ")", "(f (f x))"] _ _ ?_).2.2 fault hresult⟩
      exact @EvaluatedIn.intro _ _ _ _ _ ["(setq f first)", ")"] [] _ [] [] [] rfl (by rfl) rfl
  · have hfails : (session .none silent ["(setq f first)", ")", "(f (f x))"] .start).1.any
        (fun report => match report.fault with | some (.eval _) => true | _ => false) = true := by
      decide +kernel
    obtain ⟨report, hreport, hfault⟩ := List.any_eq_true.1 hfails
    split at hfault
    · next fault heq => exact ⟨report, hreport, fault, heq, hsessions _ report hreport fault heq⟩
    · cases hfault
  · have hfull : ((eval .none (.ofList [.symbol "list", .int 1])).runOn
        { Machine.start with active := 255 }).1 = .error (.depthOverflow 256) := by rfl
    exact ⟨hfull, (hmachines (.ofList [.symbol "list", .int 1]) { Machine.start with active := 255 }
      (by simp [Expr.OnlyBuiltins, Expr.int]) fun name value h =>
        (Machine.Sound.start.bound name value h).datum.onlyBuiltins).2 hfull⟩

end PairLisp
