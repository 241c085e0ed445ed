import PairLisp.Text.Lines

/-! # Where lines end

A text is cut at its first line feed into a line and the text of the other lines. The cuts are the
same in the bytes of a text, since no byte of another character looks like a line feed or a
carriage return.
-/

namespace PairLisp.Text

section Cutting

variable {α : Type} [DecidableEq α] {feed ret : α}

theorem linesFrom_append_of_not_mem (line : Array α) {cs : List α} (h : feed ∉ cs) (ds : List α) :
    linesFrom feed ret line (cs ++ ds) = linesFrom feed ret (line ++ cs.toArray) ds := by
  induction cs generalizing line with
  | nil => simp
  | cons c cs ih =>
    obtain ⟨hc, hcs⟩ := not_or.1 (mt List.mem_cons.2 h)
    rw [List.cons_append, linesFrom, if_neg (Ne.symm hc), ih _ hcs]
    simp

theorem linesFrom_append_feed (line : Array α) {cs : List α} (h : feed ∉ cs) (ds : List α) :
    linesFrom feed ret line (cs ++ feed :: ds) =
      endLine ret (line.toList ++ cs) :: linesFrom feed ret #[] ds := by
  rw [linesFrom_append_of_not_mem line h, linesFrom, if_pos rfl, Array.toList_append]

theorem linesFrom_of_not_mem (line : Array α) {cs : List α} (h : feed ∉ cs) :
    linesFrom feed ret line cs = if line.toList ++ cs = [] then [] else [line.toList ++ cs] := by
  have hend : linesFrom feed ret line (cs ++ []) = linesFrom feed ret (line ++ cs.toArray) [] :=
    linesFrom_append_of_not_mem line h []
  rw [← List.append_nil cs, hend, linesFrom]
  simp

theorem eq_endLine_or (ret : α) (line : List α) :
    line = endLine ret line ∨ line = endLine ret line ++ [ret] := by
  rw [endLine]
  split
  · next h =>
    obtain ⟨front, rfl⟩ := List.getLast?_eq_some_iff.1 h
    exact .inr (by simp)
  · exact .inl rfl

end Cutting

/-! ## Codes -/

section Codes

variable {α β : Type} {feed ret : α} {feed' ret' : β} {code : α → List β}

/-- A code that has a line feed and a return of its own and uses them for nothing else. -/
structure KeepsBreaks (feed ret : α) (feed' ret' : β) (code : α → List β) : Prop where
  code_feed : code feed = [feed']
  code_ret : code ret = [ret']
  ne_nil : ∀ c, code c ≠ []
  eq_feed : ∀ c, feed' ∈ code c → c = feed
  eq_ret : ∀ c, ret' ∈ code c → c = ret

namespace KeepsBreaks

theorem flatMap_eq_nil_iff (h : KeepsBreaks feed ret feed' ret' code) {cs : List α} :
    cs.flatMap code = [] ↔ cs = [] := by
  cases cs with
  | nil => simp
  | cons c cs => simp [h.ne_nil c]

variable [DecidableEq α] [DecidableEq β]

theorem endLine_flatMap (h : KeepsBreaks feed ret feed' ret' code) (line : List α) :
    endLine ret' (line.flatMap code) = (endLine ret line).flatMap code := by
  rcases List.eq_nil_or_concat line with rfl | ⟨front, c, rfl⟩
  · rfl
  · by_cases hc : c = ret
    · simp [endLine, hc, h.code_ret]
    · obtain hnil | ⟨inner, b, hcode⟩ := List.eq_nil_or_concat (code c)
      · exact absurd hnil (h.ne_nil c)
      · have hb : b ≠ ret' := by
          rintro rfl
          exact hc (h.eq_ret c (by simp [hcode]))
        simp [endLine, hc, hcode, hb, ← List.append_assoc]

theorem linesFrom_flatMap (h : KeepsBreaks feed ret feed' ret' code) (line cs : List α) :
    linesFrom feed' ret' (line.flatMap code).toArray (cs.flatMap code) =
      (linesFrom feed ret line.toArray cs).map (·.flatMap code) := by
  induction cs generalizing line with
  | nil =>
    by_cases hline : line = []
    · simp [linesFrom, hline]
    · simp [linesFrom, hline, mt h.flatMap_eq_nil_iff.1 hline]
  | cons c cs ih =>
    by_cases hc : c = feed
    · have hrest := ih []
      rw [hc, List.flatMap_cons, h.code_feed, List.singleton_append, linesFrom, if_pos rfl,
        linesFrom, if_pos rfl, List.map_cons, ← h.endLine_flatMap]
      exact congrArg _ hrest
    · have hrest := ih (line ++ [c])
      rw [List.flatMap_cons, linesFrom_append_of_not_mem _ (mt (h.eq_feed c) hc), linesFrom,
        if_neg hc]
      simpa using hrest

end KeepsBreaks
end Codes

end PairLisp.Text
