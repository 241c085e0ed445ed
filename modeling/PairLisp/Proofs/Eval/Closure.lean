import PairLisp.Proofs.Eval.Ensures

/-! # What native functions cannot lead out of

A native function of the language evaluates arguments, takes values apart and puts them together. A
property of machines and a class of values that survive each of these single acts survive every call
and every evaluation. What names are looked up and bound is kept apart from the other acts, since an
expression may restrict it. The faults that evaluation raises itself are listed apart from those
that its parts raise.
-/

namespace PairLisp

open EvalM

def EvalFault.isImproper : EvalFault → Bool
  | improperArguments _ => true
  | _ => false

/-- Every fault of evaluation but those of an improper call and of too many evaluations at once. -/
def EvalFault.isOrdinary : EvalFault → Bool
  | improperArguments _ => false
  | depthOverflow limit => limit = maxListDepth
  | _ => true

/-- The machines with `I`, values with `P` and faults with `F` are not left by what evaluation does
in one act, names aside. A list may have as many elements as `Room` allows. -/
structure ClosedButNames (I : Machine → Prop) (P : Expr → Prop) (F : EvalFault → Prop)
    (Room : Nat → Prop) : Prop where
  nil : P .nil
  int : ∀ {raw raw' : String} {m n s : Int64}, P (.atom ⟨raw, .int m⟩) → P (.atom ⟨raw', .int n⟩) →
    Builtin.checkedSum m n = some s → P (.int s)
  float : ∀ x, P (.float x)
  car : ∀ {car cdr : Expr}, P (.pair car cdr) → P car
  ofList : ∀ {es : List Expr}, Room es.length → (∀ e ∈ es, P e) →
    (Expr.ofList es).nestingDepth ≤ maxListDepth → P (.ofList es)
  builtin : ∀ {f : Native}, P (.native f) → ∃ b, f = .builtin b
  print : ∀ {m : Machine} {value : Expr}, I m → P value → I (m.print value)
  fault : ∀ f : EvalFault, f.isOrdinary = true → F f

/-- Binding the name to a value with `P` keeps `I`. -/
def Bindable (I : Machine → Prop) (P : Expr → Prop) (name : String) : Prop :=
  ∀ {m : Machine} {value : Expr}, I m → P value → I { m with scope := m.scope.set name value }

/-- Nor are they left by looking up or binding a name, whichever it is. -/
structure Closed (I : Machine → Prop) (P : Expr → Prop) (F : EvalFault → Prop)
    (Room : Nat → Prop) : Prop extends ClosedButNames I P F Room where
  bound : ∀ {m : Machine} {name : String} {value : Expr}, I m →
    m.scope.lookup name = some value → P value
  assign : ∀ {m : Machine} {value : Expr} (name : String), I m → P value →
    I { m with scope := m.scope.set name value }

variable {I : Machine → Prop} {P : Expr → Prop} {F : EvalFault → Prop} {Room : Nat → Prop}
  {eval : Expr → EvalM Expr} {args : List Expr}

namespace ClosedButNames

theorem ensures_number (h : ClosedButNames I P F Room) (e : Expr) :
    Ensures I (fun v => ∃ raw, e = .atom ⟨raw, v⟩) F (Builtin.number e) := by
  unfold Builtin.number
  split
  · exact .pure ⟨_, rfl⟩
  · exact .pure ⟨_, rfl⟩
  · exact .throw (h.fault _ rfl)

theorem ensures_sum (h : ClosedButNames I P F Room) {lhs rhs : Expr} (hl : P lhs) (hr : P rhs) :
    Ensures I P F (Builtin.sum lhs rhs) := by
  apply Ensures.bind (h.ensures_number lhs)
  rintro l ⟨raw, rfl⟩
  apply Ensures.bind (h.ensures_number rhs)
  rintro r ⟨raw', rfl⟩
  split
  · next m n =>
    cases hsum : Builtin.checkedSum m n with
    | some s => exact .pure (h.int hl hr hsum)
    | none => exact .throw (h.fault _ rfl)
  · exact .pure (h.float _)
  · exact .throw (h.fault _ rfl)

theorem ensures_apply (h : ClosedButNames I P F Room) (b : Builtin) (hroom : Room args.length)
    (hargs : ∀ e ∈ args, Ensures I P F (eval e))
    (hname : b = .setq → ∀ name rest, args = .symbol name :: rest → Bindable I P name) :
    Ensures I P F (b.apply eval args) := by
  have hall := Ensures.evalAll hargs
  cases b with
  | setq =>
    match args, hargs, hname with
    | [], _, _ => exact .pure h.nil
    | [_], _, _ => exact .pure h.nil
    | name :: e :: _, hargs, hname =>
      cases name with
      | symbol name =>
        apply Ensures.bind (hargs e (by simp))
        intro value hvalue
        apply Ensures.bind (.modify fun m hm => hname rfl name _ rfl hm hvalue)
        exact fun _ _ => .pure hvalue
      | nil | atom | native | pair => exact .throw (h.fault _ rfl)
  | print =>
    apply Ensures.bind hall
    intro values hvalues
    cases values with
    | nil => exact .pure h.nil
    | cons value values =>
      apply Ensures.bind (.modify fun m hm => h.print hm (hvalues.2 value (by simp)))
      exact fun _ _ => .pure h.nil
  | list =>
    apply Ensures.bind hall
    intro values hvalues
    by_cases hdepth : maxListDepth < (Expr.ofList values).nestingDepth
    · rw [if_pos hdepth]
      exact .throw (h.fault _ rfl)
    · rw [if_neg hdepth]
      exact .pure (h.ofList (hvalues.1 ▸ hroom) hvalues.2 (Nat.not_lt.1 hdepth))
  | first =>
    apply Ensures.bind hall
    intro values hvalues
    match values, hvalues with
    | [], _ => exact .pure h.nil
    | .pair car cdr :: _, hvalues => exact .pure (h.car (hvalues.2 _ List.mem_cons_self))
    | .nil :: _, _ | .symbol _ :: _, _ | .atom _ :: _, _ | .native _ :: _, _ =>
      exact .throw (h.fault _ rfl)
  | add =>
    apply Ensures.bind hall
    intro values hvalues
    match values, hvalues with
    | [lhs, rhs], hvalues =>
      exact h.ensures_sum (hvalues.2 lhs (by simp)) (hvalues.2 rhs (by simp))
    | [], _ | [_], _ | _ :: _ :: _ :: _, _ => exact .pure h.nil

theorem ensures_call (h : ClosedButNames I P F Room) (b : Builtin) (hroom : Room args.length)
    (hargs : ∀ e ∈ args, Ensures I P F (eval e))
    (hname : b = .setq → ∀ name rest, args = .symbol name :: rest → Bindable I P name) :
    Ensures I P F (b.call eval args) := by
  rw [Builtin.call]
  split
  · exact h.ensures_apply b hroom hargs hname
  · exact .throw (h.fault _ rfl)

/-- Evaluating a call, given what evaluating its parts ensures and what the name that it may bind
can be bound to. -/
theorem ensures_evalForm_call (h : ClosedButNames I P F Room) {host : Host} {car cdr : Expr}
    (hcar : Ensures I P F (eval car))
    (hargs : ∀ args, cdr.elements? = some args →
      Room args.length ∧ ∀ e ∈ args, Ensures I P F (eval e))
    (himproper : cdr.elements? = none → F (.improperArguments cdr))
    (hname : P (.native (.builtin .setq)) → ∀ name rest,
      cdr.elements? = some (.symbol name :: rest) → Bindable I P name) :
    Ensures I P F (evalForm host eval (.pair car cdr)) := by
  apply Ensures.bind hcar
  intro f hf
  cases f with
  | native f =>
    obtain ⟨b, rfl⟩ := h.builtin hf
    unfold argumentsOf
    cases helements : cdr.elements? with
    | none => exact .throw (himproper helements)
    | some args =>
      obtain ⟨hroom, hall⟩ := hargs args helements
      refine h.ensures_call b hroom hall ?_
      rintro rfl name rest rfl
      exact hname hf name rest helements
  | nil | symbol | atom | pair => exact .throw (h.fault _ rfl)

end ClosedButNames

namespace Closed

theorem ensures_evalForm_pair (h : Closed I P F Room) {host : Host} {car cdr : Expr}
    (hcar : Ensures I P F (eval car))
    (hargs : ∀ args, cdr.elements? = some args →
      Room args.length ∧ ∀ e ∈ args, Ensures I P F (eval e))
    (himproper : cdr.elements? = none → F (.improperArguments cdr)) :
    Ensures I P F (evalForm host eval (.pair car cdr)) :=
  h.ensures_evalForm_call hcar hargs himproper fun _ name _ _ => h.assign name

theorem ensures_evalForm_symbol (h : Closed I P F Room) {host : Host} (name : String) :
    Ensures I P F (evalForm host eval (.symbol name)) :=
  .lookup (fun _ _ hm hvalue => h.bound hm hvalue) (h.fault _ rfl)

end Closed
end PairLisp
