import PairLisp.Proofs.Eval.Frame

/-! # Output is never taken back

Evaluation adds to the output of a machine and changes nothing of what is there already, however it
ends. So whatever is written after a form stays where it is, right behind what the form printed.
-/

namespace PairLisp

open EvalM

theorem Machine.output_write (m : Machine) (text : String) :
    (m.write text).output = m.output ++ text := by
  rw [output, write, Array.foldl_push]
  rfl

/-- The output starts with `out`, and nothing foreign is bound. -/
structure Machine.Continues (out : String) (m : Machine) : Prop where
  output : ∃ more, m.output = out ++ more
  bound : ∀ name value, m.scope.lookup name = some value → value.OnlyBuiltins

namespace Machine.Continues

variable {out : String} {m : Machine} {value e : Expr} {es : List Expr}

theorem start : Continues "" .start where
  output := ⟨"", rfl⟩
  bound name value h := (Machine.Sound.start.bound name value h).datum.onlyBuiltins

theorem restart (h : Continues out m) : Continues m.output m :=
  ⟨⟨"", String.append_empty.symm⟩, h.bound⟩

theorem print (h : Continues out m) (value : Expr) : Continues out (m.print value) := by
  obtain ⟨more, hmore⟩ := h.output
  exact ⟨⟨_, by rw [output_print, hmore, String.append_assoc]⟩, h.bound⟩

theorem write (h : Continues out m) (text : String) : Continues out (m.write text) := by
  obtain ⟨more, hmore⟩ := h.output
  exact ⟨⟨_, by rw [output_write, hmore, String.append_assoc]⟩, h.bound⟩

theorem assign (h : Continues out m) (name : String) (hvalue : value.OnlyBuiltins) :
    Continues out { m with scope := m.scope.set name value } :=
  ⟨h.output, Scope.forall_lookup_set name hvalue h.bound⟩

theorem closed :
    ClosedButNames (Continues out) Expr.OnlyBuiltins (fun _ => True) (fun _ => True) :=
  .of_onlyBuiltins (fun _ value h => h.print value) fun _ _ => trivial

theorem eval (host : Host) (he : e.OnlyBuiltins) (h : Continues out m) :
    Continues out ((eval host e).runOn m).2 := by
  refine (ClosedButNames.ensures_evalWithin (C := Expr.OnlyBuiltins) closed ?_ ?_ ?_ ?_ ?_ ?_ host
    (maxEvaluations + 1) he m h).1
  · exact fun m n hm => ⟨hm.output, hm.bound⟩
  · exact fun name _ m value hm => hm.bound name value
  · exact fun e he _ => he
  · exact fun car cdr he => he.1
  · rintro car cdr args he hargs
    obtain rfl := Expr.eq_ofList_of_elements? hargs
    exact Expr.onlyBuiltins_ofList_iff.1 he.2
  · exact fun car cdr name rest _ _ _ m value hm hvalue => hm.assign name hvalue

theorem evalForms (host : Host) (echo : Expr → Expr → String) (hes : ∀ e ∈ es, e.OnlyBuiltins)
    (h : Continues out m) : Continues out (evalForms host echo es m).2 := by
  induction es generalizing m with
  | nil => exact h
  | cons e es ih =>
    obtain ⟨he, hes⟩ := List.forall_mem_cons.1 hes
    have hafter := h.eval host he
    rw [PairLisp.evalForms]
    rcases hrun : (PairLisp.eval host e).runOn m with ⟨fault | value, after⟩
    · rw [hrun] at hafter
      exact hafter
    · rw [hrun] at hafter
      exact ih hes (hafter.write _)

theorem interpret (host : Host) (echo : Expr → Expr → String) (text : String)
    (h : Continues out m) : Continues out (interpret host echo text m).2 := by
  rw [PairLisp.interpret]
  cases hread : readText text with
  | error fault => exact h
  | ok forms =>
    exact h.evalForms host echo fun e he => (isSource_of_readText hread e he).onlyBuiltins

end Machine.Continues
end PairLisp
