import PairLisp.Eval.Report
import PairLisp.Proofs.Eval.Closure
import PairLisp.Proofs.Expr.Depth
import PairLisp.Proofs.Reader.Sources

/-! # What programs can compute

Whatever a session does, its values are data: literals that are not negative, the language's own
functions and proper lists of such, within limits on their length and nesting. Symbols and other
code never become part of a value, since functions give back nothing that they did not evaluate.
-/

namespace PairLisp

namespace Expr

/-- Data of any nesting: a list is proper, not empty and shorter than the longest call. -/
inductive IsDatum : Expr → Prop where
  | nil : IsDatum .nil
  | int {raw : String} {n : Int64} : 0 ≤ n.toInt → n.toInt ≤ 0x7FFFFFFFFFFFFFFF →
      IsDatum (.atom ⟨raw, .int n⟩)
  | float (raw : String) (x : Float) : IsDatum (.atom ⟨raw, .float x⟩)
  | string (raw s : String) : IsDatum (.atom ⟨raw, .string s⟩)
  | builtin (b : Builtin) : IsDatum (.native (.builtin b))
  | list {es : List Expr} : es ≠ [] → es.length ≤ 4095 → (∀ e ∈ es, IsDatum e) →
      IsDatum (.ofList es)

structure IsValue (e : Expr) : Prop where
  datum : e.IsDatum
  shallow : e.nestingDepth ≤ 128

theorem ne_ofList {e : Expr} {es : List Expr} (h : e.isPair = false) (hne : es ≠ []) :
    e ≠ ofList es := by
  rintro rfl
  cases es with
  | nil => exact hne rfl
  | cons e es => cases h

namespace IsDatum

theorem car {car cdr : Expr} (h : IsDatum (.pair car cdr)) : IsDatum car := by
  generalize he : Expr.pair car cdr = e at h
  cases h with
  | nil | int | float | string | builtin => cases he
  | @list es hne hlength hes =>
    cases es with
    | nil => exact absurd rfl hne
    | cons e es =>
      cases he
      exact hes car List.mem_cons_self

theorem exists_builtin {f : Native} (h : IsDatum (.native f)) : ∃ b, f = .builtin b := by
  generalize he : Expr.native f = e at h
  cases h with
  | nil | int | float | string => cases he
  | builtin b =>
    cases he
    exact ⟨b, rfl⟩
  | list hne => exact absurd he (ne_ofList rfl hne)

theorem int_nonneg {raw : String} {n : Int64} (h : IsDatum (.atom ⟨raw, .int n⟩)) :
    0 ≤ n.toInt := by
  generalize he : Expr.atom ⟨raw, .int n⟩ = e at h
  cases h with
  | nil | float | string | builtin => cases he
  | int hn _ =>
    cases he
    exact hn
  | list hne => exact absurd he (ne_ofList rfl hne)

end IsDatum

namespace IsValue

theorem of_not_isPair {e : Expr} (h : e.IsDatum) (hpair : e.isPair = false) : e.IsValue := by
  refine ⟨h, ?_⟩
  rw [nestingDepth_eq_nestingByParts, nestingByParts_of_not_isPair hpair]
  exact Nat.zero_le _

theorem nil : IsValue .nil := of_not_isPair .nil rfl

theorem int {raw : String} {n : Int64} (h : 0 ≤ n.toInt) : IsValue (.atom ⟨raw, .int n⟩) :=
  of_not_isPair (.int h (Int.le_sub_one_of_lt n.toInt_lt)) rfl

theorem car {car cdr : Expr} (h : IsValue (.pair car cdr)) : IsValue car := by
  refine ⟨h.datum.car, ?_⟩
  have hdepth := h.shallow
  rw [nestingDepth_eq_nestingByParts] at hdepth ⊢
  exact Nat.le_trans (Nat.le_succ _) (Nat.le_trans (Nat.le_max_left _ _) hdepth)

theorem ofList {es : List Expr} (hlength : es.length ≤ 4095) (hes : ∀ e ∈ es, IsValue e)
    (hdepth : (Expr.ofList es).nestingDepth ≤ 128) : IsValue (.ofList es) := by
  by_cases hne : es = []
  · rw [hne]
    exact nil
  · exact ⟨.list hne hlength fun e he => (hes e he).datum, hdepth⟩

end IsValue

/-- What a text gives outside lists stands for itself unless it is a symbol. -/
theorem IsSource.symbol_or_isValue {e : Expr} (h : IsSource e) (hpair : e.isPair = false) :
    (∃ name, e = .symbol name) ∨ e.IsValue := by
  cases h with
  | symbol name => exact .inl ⟨name, rfl⟩
  | int hn => exact .inr (.int hn)
  | float raw x => exact .inr (.of_not_isPair (.float raw x) rfl)
  | string raw s => exact .inr (.of_not_isPair (.string raw s) rfl)
  | @list es _ _ =>
    by_cases hne : es = []
    · rw [hne]
      exact .inr .nil
    · exact absurd rfl (ne_ofList hpair hne)

theorem IsSource.pair {car cdr : Expr} (h : IsSource (.pair car cdr)) :
    car.IsSource ∧ ∃ args, cdr.elements? = some args ∧ args.length ≤ 4095 ∧
      ∀ e ∈ args, e.IsSource := by
  generalize he : Expr.pair car cdr = e at h
  cases h with
  | symbol | int | float | string => cases he
  | @list es hlength hes =>
    cases es with
    | nil => cases he
    | cons e es =>
      cases he
      obtain ⟨hcar, hargs⟩ := List.forall_mem_cons.1 hes
      rw [maxElements, List.length_cons] at hlength
      exact ⟨hcar, es, elements?_ofList es, by omega, hargs⟩

end Expr

theorem Scope.of_lookup_install {s : Scope} {name : String} {value : Expr}
    (h : s.install.lookup name = some value) :
    (∃ b, value = .native (.builtin b)) ∨ s.lookup name = some value := by
  rw [install] at h
  generalize Builtin.all = bs at h
  induction bs generalizing s with
  | nil => exact .inr h
  | cons b bs ih =>
    rcases ih h with hvalue | hset
    · exact .inl hvalue
    · rw [lookup_set] at hset
      split at hset
      · exact .inl ⟨b, (Option.some.inj hset).symm⟩
      · exact .inr hset

theorem Scope.isSome_lookup_install {s : Scope} (b : Builtin) :
    (s.install.lookup b.name).isSome := by
  cases b <;> simp [install, Builtin.all, Builtin.name, lookup_set]

/-- What holds of everything that is bound still does after binding one thing of which it holds. -/
theorem Scope.forall_lookup_set {s : Scope} {P : Expr → Prop} {value : Expr} (name : String)
    (hvalue : P value) (h : ∀ n v, s.lookup n = some v → P v) :
    ∀ n v, (s.set name value).lookup n = some v → P v := by
  intro n v
  rw [lookup_set]
  split
  · rintro ⟨⟩
    exact hvalue
  · exact h n v

/-- Everything that a machine can give to a program or has shown is a value, and the language's
functions have not become unbound. -/
structure Machine.Sound (m : Machine) : Prop where
  bound : ∀ name value, m.scope.lookup name = some value → value.IsValue
  printed : ∀ value, .line value ∈ m.shown → value.IsValue
  installed : ∀ b : Builtin, (m.scope.lookup b.name).isSome

namespace Machine.Sound

variable {m : Machine} {value : Expr}

theorem assign (h : m.Sound) (name : String) (hvalue : value.IsValue) :
    Sound { m with scope := m.scope.set name value } := by
  refine ⟨Scope.forall_lookup_set name hvalue h.bound, h.printed, fun b => ?_⟩
  rw [Scope.lookup_set]
  split
  · rfl
  · exact h.installed b

theorem print (h : m.Sound) (hvalue : value.IsValue) : Sound (m.print value) := by
  refine ⟨h.bound, fun v hv => ?_, h.installed⟩
  rcases Array.mem_push.1 hv with hv | hv
  · exact h.printed v hv
  · cases hv
    exact hvalue

theorem write (h : m.Sound) (text : String) : Sound (m.write text) := by
  refine ⟨h.bound, fun v hv => ?_, h.installed⟩
  rcases Array.mem_push.1 hv with hv | hv
  · exact h.printed v hv
  · cases hv

theorem start : Machine.start.Sound := by
  refine ⟨fun name value h => ?_, fun value hvalue => ?_, fun b => ?_⟩
  · rcases Scope.of_lookup_install h with ⟨b, rfl⟩ | hroot
    · exact .of_not_isPair (.builtin b) rfl
    · cases hroot
  · exact absurd hvalue (Array.not_mem_empty _)
  · exact Scope.isSome_lookup_install b

end Machine.Sound

/-! ## Evaluation -/

section Evaluation

open EvalM

variable {host : Host} {eval : Expr → EvalM Expr}

theorem Builtin.checkedSum_nonneg {m n s : Int64} (h : checkedSum m n = some s)
    (hm : 0 ≤ m.toInt) (hn : 0 ≤ n.toInt) : 0 ≤ s.toInt := by
  rw [checkedSum] at h
  split at h
  · next hrange =>
    cases h
    rw [Int64.toInt_ofInt_of_le hrange.1 (Int.lt_add_one_of_le hrange.2)]
    exact Int.add_nonneg hm hn
  · cases h

/-- Calls of a text have fewer arguments than the longest list has elements. -/
theorem Machine.Sound.closed :
    Closed Machine.Sound Expr.IsValue (fun f => f.isImproper = false) (· ≤ 4095) where
  nil := .nil
  int hm hn hsum := .int (Builtin.checkedSum_nonneg hsum hm.datum.int_nonneg hn.datum.int_nonneg)
  float x := .of_not_isPair (.float _ x) rfl
  car h := h.car
  ofList hlength hes hdepth := .ofList hlength hes hdepth
  builtin h := h.datum.exists_builtin
  bound hm hvalue := hm.bound _ _ hvalue
  assign name hm hvalue := hm.assign name hvalue
  print hm hvalue := hm.print hvalue
  fault f hf := by cases f <;> first | rfl | cases hf

theorem ensures_evalForm
    (heval : ∀ e, e.IsSource →
      Ensures Machine.Sound Expr.IsValue (fun f => f.isImproper = false) (eval e))
    {e : Expr} (he : e.IsSource) :
    Ensures Machine.Sound Expr.IsValue (fun f => f.isImproper = false) (evalForm host eval e) := by
  cases e with
  | symbol name => exact Machine.Sound.closed.ensures_evalForm_symbol name
  | pair car cdr =>
    obtain ⟨hcar, args, hcdr, hlength, hargs⟩ := he.pair
    apply Machine.Sound.closed.ensures_evalForm_pair (heval car hcar)
    · rw [hcdr]
      rintro _ ⟨⟩
      exact ⟨hlength, fun e he => heval e (hargs e he)⟩
    · rw [hcdr]
      exact nofun
  | nil | atom | native =>
    rcases he.symbol_or_isValue rfl with ⟨name, hname⟩ | hvalue
    · cases hname
    · exact .pure hvalue

/-- Evaluating what can stand in a text gives values only, leaves only values behind and never meets
an improper call. -/
theorem ensures_evalWithin (host : Host) (fuel : Nat) {e : Expr} (he : e.IsSource) :
    Ensures Machine.Sound Expr.IsValue (fun f => f.isImproper = false)
      (evalWithin host fuel e) := by
  induction fuel generalizing e with
  | zero => exact .throw rfl
  | succ fuel ih =>
    refine .nested (ensures_evalForm (fun e he => ih he) he) ?_ ?_ fun _ _ _ => rfl
    · exact fun m hm _ => ⟨hm.bound, hm.printed, hm.installed⟩
    · exact fun m hm => ⟨hm.bound, hm.printed, hm.installed⟩

/-! ## Sessions -/

variable {echo : Expr → Expr → String} {m : Machine}

theorem evalForms_sound {forms : List Expr} (hforms : ∀ e ∈ forms, e.IsSource) (hm : m.Sound) :
    (evalForms host echo forms m).2.Sound ∧
      ∀ result ∈ (evalForms host echo forms m).1.results, result.2.IsValue := by
  induction forms generalizing m with
  | nil => exact ⟨hm, by simp [evalForms]⟩
  | cons form forms ih =>
    obtain ⟨hform, hforms⟩ := List.forall_mem_cons.1 hforms
    obtain ⟨hafter, hresult⟩ := ensures_evalWithin host (maxEvaluations + 1) hform m hm
    rw [evalForms, eval]
    rcases hrun : (evalWithin host (maxEvaluations + 1) form).runOn m with ⟨fault | value, after⟩
    · rw [hrun] at hafter
      exact ⟨hafter, by simp⟩
    · rw [hrun] at hafter hresult
      obtain ⟨hlast, hresults⟩ := ih hforms (hafter.write (echo form value))
      exact ⟨hlast, List.forall_mem_cons.2 ⟨hresult, hresults⟩⟩

theorem interpret_sound (host : Host) (echo : Expr → Expr → String) (text : String)
    (hm : m.Sound) : (interpret host echo text m).2.Sound ∧
      ∀ result ∈ (interpret host echo text m).1.results, result.2.IsValue := by
  rw [interpret]
  cases hread : readText text with
  | error fault => exact ⟨hm, by simp⟩
  | ok forms => exact evalForms_sound (isSource_of_readText hread) hm

theorem session_sound (host : Host) (echo : Expr → Expr → String) (texts : List String)
    (hm : m.Sound) : (session host echo texts m).2.Sound ∧
      ∀ report ∈ (session host echo texts m).1, ∀ result ∈ report.results, result.2.IsValue := by
  induction texts generalizing m with
  | nil => exact ⟨hm, by simp [session]⟩
  | cons text texts ih =>
    obtain ⟨hafter, hresults⟩ := interpret_sound host echo text hm
    obtain ⟨hlast, hreports⟩ := ih hafter
    exact ⟨hlast, List.forall_mem_cons.2 ⟨hresults, hreports⟩⟩

end Evaluation

/-- Whatever texts are interpreted one after the other from the start on, everything that is bound
then, that an evaluation resulted in and that was printed is a value, and the names of the
language's functions are bound. -/
theorem session_values (host : Host) (echo : Expr → Expr → String) (texts : List String) :
    (∀ name value, (session host echo texts .start).2.scope.lookup name = some value →
        value.IsValue) ∧
      (∀ report ∈ (session host echo texts .start).1, ∀ result ∈ report.results,
        result.2.IsValue) ∧
      (∀ value, .line value ∈ (session host echo texts .start).2.shown → value.IsValue) ∧
      ∀ b : Builtin, ((session host echo texts .start).2.scope.lookup b.name).isSome := by
  obtain ⟨hm, hreports⟩ := session_sound host echo texts Machine.Sound.start
  exact ⟨hm.bound, hreports, hm.printed, hm.installed⟩

/-- A session whose second text cannot be read. -/
theorem session_values_of_setq :
    ∃ value, (session .none silent ["(setq a 5)", ")"] .start).2.scope.lookup "a" = some value ∧
      value.IsValue := by
  have hbound : ((session .none silent ["(setq a 5)", ")"] .start).2.scope.lookup "a").isSome := by
    decide +kernel
  obtain ⟨value, hvalue⟩ := Option.isSome_iff_exists.1 hbound
  exact ⟨value, hvalue, (session_values .none silent _).1 "a" value hvalue⟩

end PairLisp
