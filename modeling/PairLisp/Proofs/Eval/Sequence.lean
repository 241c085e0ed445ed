import PairLisp.Eval.Report

/-! # Forms one after the other

Forms are evaluated in order up to the first failure. So what a text does depends on its forms
alone, and forms may be cut into groups at will: the groups one after the other, up to the first
that fails, do what all forms do at once.
-/

namespace PairLisp

variable {host : Host} {echo : Expr → Expr → String} {text : String} {m m' : Machine}
  {texts : List String} {es fs : List Expr} {report : Report}

theorem evalForms_fault {f : Fault} (h : (evalForms host echo es m).1.fault = some f) :
    ∃ fault, f = .eval fault := by
  induction es generalizing m with
  | nil => cases h
  | cons e es ih =>
    rw [evalForms] at h
    rcases hrun : (eval host e).runOn m with ⟨fault | value, after⟩
    · rw [hrun] at h
      cases h
      exact ⟨fault, rfl⟩
    · rw [hrun] at h
      exact ih h

theorem interpret_of_ok (h : readText text = .ok es) :
    interpret host echo text m = evalForms host echo es m := by
  rw [interpret, h]

theorem readText_of_interpret_fault {f : ReadFault}
    (h : (interpret host echo text m).1.fault = some (.read f)) :
    readText text = .error (.read f) := by
  cases hread : readText text with
  | error fault =>
    rw [interpret, hread] at h
    exact congrArg Except.error (Option.some.inj h)
  | ok es =>
    rw [interpret_of_ok hread] at h
    obtain ⟨fault, hfault⟩ := evalForms_fault h
    cases hfault

theorem evalForms_append_of_fault {f : Fault} (h : evalForms host echo es m = (report, m'))
    (hfault : report.fault = some f) : evalForms host echo (es ++ fs) m = (report, m') := by
  induction es generalizing m report with
  | nil =>
    cases h
    cases hfault
  | cons e es ih =>
    rw [evalForms] at h
    rw [List.cons_append, evalForms]
    rcases hrun : (eval host e).runOn m with ⟨fault | value, after⟩
    · rw [hrun] at h
      exact h
    · rw [hrun] at h
      rcases hrest : evalForms host echo es (after.write (echo e value)) with ⟨rest, last⟩
      simp only [hrest] at h
      obtain ⟨rfl, rfl⟩ := Prod.mk.inj h
      simp only [ih hrest hfault]

theorem evalForms_append_of_none (h : evalForms host echo es m = (report, m'))
    (hfault : report.fault = none) :
    evalForms host echo (es ++ fs) m =
      (⟨report.results ++ (evalForms host echo fs m').1.results,
        (evalForms host echo fs m').1.fault⟩, (evalForms host echo fs m').2) := by
  induction es generalizing m report with
  | nil =>
    cases h
    rfl
  | cons e es ih =>
    rw [evalForms] at h
    rw [List.cons_append, evalForms]
    rcases hrun : (eval host e).runOn m with ⟨fault | value, after⟩
    · rw [hrun] at h
      cases h
      cases hfault
    · rw [hrun] at h
      rcases hrest : evalForms host echo es (after.write (echo e value)) with ⟨rest, last⟩
      simp only [hrest] at h
      obtain ⟨rfl, rfl⟩ := Prod.mk.inj h
      simp only [ih hrest hfault, List.cons_append]

/-! ## Texts one after the other -/

/-- Interprets texts one after the other on the same machine, up to the first failure, with all
that was evaluated in one report. -/
def interpretTexts (host : Host) (echo : Expr → Expr → String) :
    List String → Machine → Report × Machine
  | [], m => (⟨[], none⟩, m)
  | text :: texts, m =>
    match interpret host echo text m with
    | (⟨results, some fault⟩, m) => (⟨results, some fault⟩, m)
    | (⟨results, none⟩, m) =>
      let (rest, m) := interpretTexts host echo texts m
      (⟨results ++ rest.results, rest.fault⟩, m)

/-- Texts that can be read are evaluated like all their forms at once. -/
theorem interpretTexts_eq_evalForms {parts : List (List Expr)}
    (h : texts.map readText = parts.map .ok) :
    interpretTexts host echo texts m = evalForms host echo parts.flatten m := by
  induction texts generalizing parts m with
  | nil =>
    obtain rfl : parts = [] := List.map_eq_nil_iff.1 h.symm
    rfl
  | cons text texts ih =>
    cases parts with
    | nil => cases h
    | cons forms parts =>
      obtain ⟨hread, hrest⟩ := List.cons.inj h
      rw [interpretTexts, interpret_of_ok hread, List.flatten_cons]
      rcases heval : evalForms host echo forms m with ⟨⟨results, fault⟩, after⟩
      cases fault with
      | some fault => rw [evalForms_append_of_fault heval rfl]
      | none => rw [evalForms_append_of_none heval rfl, ← ih hrest]

end PairLisp
