import PairLisp.Proofs.Scanner.Next

/-! # Runs of the scanner

A run takes tokens up to the end of the text or the first fault. The tokens taken so far make up the
text that is gone, lead to the place where the scanner stands, and open and close parentheses as its
depth says. The bound on the number of calls is never what ends a run.
-/

namespace PairLisp

def Token.opens (ts : List Token) : Nat := ts.countP (·.kind = .leftParen)

def Token.closes (ts : List Token) : Nat := ts.countP (·.kind = .rightParen)

def Token.chars (ts : List Token) : List Char := ts.flatMap (·.raw.toList)

def Token.among (results : List (Except ScanFault Token)) : List Token :=
  results.filterMap Except.toOption

namespace Token

@[simp] theorem opens_nil : opens [] = 0 := rfl

@[simp] theorem closes_nil : closes [] = 0 := rfl

@[simp] theorem chars_nil : chars [] = [] := rfl

@[simp] theorem opens_cons (t : Token) (ts : List Token) :
    opens (t :: ts) = opens ts + if t.kind = .leftParen then 1 else 0 := by
  simp [opens, List.countP_cons]

@[simp] theorem closes_cons (t : Token) (ts : List Token) :
    closes (t :: ts) = closes ts + if t.kind = .rightParen then 1 else 0 := by
  simp [closes, List.countP_cons]

@[simp] theorem chars_cons (t : Token) (ts : List Token) :
    chars (t :: ts) = t.raw.toList ++ chars ts := rfl

@[simp] theorem opens_append (ts us : List Token) : opens (ts ++ us) = opens ts + opens us :=
  List.countP_append

@[simp] theorem closes_append (ts us : List Token) : closes (ts ++ us) = closes ts + closes us :=
  List.countP_append

@[simp] theorem chars_append (ts us : List Token) : chars (ts ++ us) = chars ts ++ chars us :=
  List.flatMap_append

@[simp] theorem among_map_ok (ts : List Token) : among (ts.map .ok) = ts := by
  rw [among, List.filterMap_map]
  exact List.filterMap_some

@[simp] theorem among_append (rs qs : List (Except ScanFault Token)) :
    among (rs ++ qs) = among rs ++ among qs := List.filterMap_append

end Token

namespace Scanner

variable {s t u : Scanner} {token : Token} {tokens : List Token}

/-- Taking some tokens, none of them the end of the text, leads from one scanner to another. -/
inductive Steps : Scanner → List Token → Scanner → Prop where
  | refl (s : Scanner) : Steps s [] s
  | head {s t u : Scanner} {token : Token} {tokens : List Token} :
      s.next = (.ok token, t) → token.kind ≠ .endOfText → Steps t tokens u →
        Steps s (token :: tokens) u

/-- What the calls of a run give, without the scanners after them. -/
def outcomes (s : Scanner) : List (Except ScanFault Token) := s.run.map Prod.fst

theorem scanText_eq_outcomes (text : String) : scanText text = (ofText text).outcomes := rfl

/-! ## A run by its first call -/

/-- Any number of calls above the length of the text is as good as any other. -/
theorem runFor_eq_runFor {s : Scanner} {m n : Nat} (hm : s.rest.length < m)
    (hn : s.rest.length < n) : s.runFor m = s.runFor n := by
  induction m generalizing n s with
  | zero => omega
  | succ m ih =>
    obtain ⟨n, rfl⟩ := Nat.exists_eq_succ_of_ne_zero (Nat.ne_zero_of_lt hn)
    rw [runFor, runFor]
    split
    · rfl
    · next token t hnext =>
      split
      · rfl
      · next hkind =>
        have hlt := rest_length_lt_of_next hnext hkind
        exact congrArg _ (ih (by omega) (by omega))

theorem run_of_nil (h : s.rest = []) :
    s.run = [(.ok ⟨.endOfText, "", s.position⟩, s)] := by
  rw [run, runFor, next_of_nil h]
  rfl

theorem run_of_error {fault : ScanFault} (h : s.next = (.error fault, t)) :
    s.run = [(.error fault, t)] := by
  rw [run, runFor, h]

theorem run_of_token (h : s.next = (.ok token, t)) (hkind : token.kind ≠ .endOfText) :
    s.run = (.ok token, t) :: t.run := by
  have hlt := rest_length_lt_of_next h hkind
  rw [run, runFor, h]
  simp only [if_neg hkind]
  rw [run, runFor_eq_runFor hlt (Nat.lt_succ_self _)]

theorem outcomes_of_nil (h : s.rest = []) :
    s.outcomes = [.ok ⟨.endOfText, "", s.position⟩] := by
  rw [outcomes, run_of_nil h]
  rfl

theorem outcomes_of_error {fault : ScanFault} (h : s.next = (.error fault, t)) :
    s.outcomes = [.error fault] := by
  rw [outcomes, run_of_error h]
  rfl

theorem outcomes_of_token (h : s.next = (.ok token, t)) (hkind : token.kind ≠ .endOfText) :
    s.outcomes = .ok token :: t.outcomes := by
  rw [outcomes, run_of_token h hkind]
  rfl

/-- To show something of every scanner, show it where nothing is left, before a fault, and before a
token if it holds after that token. -/
theorem run_induction {motive : Scanner → Prop} (nil : ∀ s : Scanner, s.rest = [] → motive s)
    (fault : ∀ (s t : Scanner) (fault : ScanFault), s.next = (.error fault, t) → motive s)
    (token : ∀ (s t : Scanner) (token : Token), s.next = (.ok token, t) →
      token.kind ≠ .endOfText → motive t → motive s) (s : Scanner) : motive s := by
  generalize hn : s.rest.length = n
  induction n using Nat.strongRecOn generalizing s with
  | ind n ih =>
    rcases hnext : s.next with ⟨f | tok, t⟩
    · exact fault s t f hnext
    · by_cases hkind : tok.kind = .endOfText
      · exact nil s ((kind_eq_endOfText_iff hnext).1 hkind)
      · exact token s t tok hnext hkind
          (ih _ (hn ▸ rest_length_lt_of_next hnext hkind) t rfl)

/-! ## Steps of a run -/

namespace Steps

theorem trans {us : List Token} (h : Steps s tokens t) (h' : Steps t us u) :
    Steps s (tokens ++ us) u := by
  induction h with
  | refl => exact h'
  | head hnext hkind _ ih => exact .head hnext hkind (ih h')

theorem snoc (h : Steps s tokens t) (hnext : t.next = (.ok token, u))
    (hkind : token.kind ≠ .endOfText) : Steps s (tokens ++ [token]) u :=
  h.trans (.head hnext hkind (.refl u))

theorem split {ts us : List Token} (h : Steps s (ts ++ us) u) :
    ∃ t, Steps s ts t ∧ Steps t us u := by
  induction ts generalizing s with
  | nil => exact ⟨s, .refl s, h⟩
  | cons token ts ih =>
    cases h with
    | head hnext hkind hsteps =>
      obtain ⟨t, hfirst, hlast⟩ := ih hsteps
      exact ⟨t, .head hnext hkind hfirst, hlast⟩

theorem kind_ne_endOfText (h : Steps s tokens t) : ∀ token ∈ tokens, token.kind ≠ .endOfText := by
  induction h with
  | refl => simp
  | head _ hkind _ ih => exact List.forall_mem_cons.2 ⟨hkind, ih⟩

theorem rest_eq (h : Steps s tokens t) :
    s.rest = Token.chars tokens ++ t.rest ∧
      t.position = s.position.advance (Token.chars tokens) := by
  induction h with
  | refl => simp
  | head hnext hkind _ ih =>
    obtain ⟨hrest, hposition⟩ := rest_eq_of_next hnext hkind
    rw [hrest, ih.1, ih.2, hposition]
    simp

/-- The depth counts the parentheses that were opened and not closed. -/
theorem depth_add_closes (h : Steps s tokens t) :
    t.depth + Token.closes tokens = s.depth + Token.opens tokens := by
  induction h with
  | refl => rfl
  | head hnext hkind _ ih =>
    have hdepth := depth_of_next hnext hkind
    rw [Token.closes_cons, Token.opens_cons]
    omega

theorem outcomes_eq (h : Steps s tokens t) : s.outcomes = tokens.map .ok ++ t.outcomes := by
  induction h with
  | refl => rfl
  | head hnext hkind _ ih => rw [outcomes_of_token hnext hkind, ih]; rfl

theorem run_suffix (h : Steps s tokens t) : t.run <:+ s.run := by
  induction h with
  | refl => exact List.suffix_refl _
  | head hnext hkind _ ih =>
    rw [run_of_token hnext hkind]
    exact ih.trans (List.suffix_cons _ _)

theorem getLast?_run (h : Steps s tokens t) (hrest : t.rest = []) :
    s.run.getLast? = some (.ok ⟨.endOfText, "", t.position⟩, t) := by
  obtain ⟨before, hbefore⟩ := h.run_suffix
  rw [← hbefore, run_of_nil hrest, List.getLast?_concat]

theorem getLast?_run_of_error {fault : ScanFault} (h : Steps s tokens t)
    (hnext : t.next = (.error fault, u)) : s.run.getLast? = some (.error fault, u) := by
  obtain ⟨before, hbefore⟩ := h.run_suffix
  rw [← hbefore, run_of_error hnext, List.getLast?_concat]

end Steps

/-- Every run ends at the end of the text or in a fault. -/
theorem exists_steps (s : Scanner) :
    ∃ tokens t, Steps s tokens t ∧ (t.rest = [] ∨ ∃ fault u, t.next = (.error fault, u)) := by
  induction s using run_induction with
  | nil s h => exact ⟨[], s, .refl s, .inl h⟩
  | fault s t fault h => exact ⟨[], s, .refl s, .inr ⟨fault, t, h⟩⟩
  | token s t token hnext hkind ih =>
    obtain ⟨tokens, u, hsteps, hend⟩ := ih
    exact ⟨token :: tokens, u, .head hnext hkind hsteps, hend⟩

theorem next_of_outcomes {r : Except ScanFault Token} {after : List (Except ScanFault Token)}
    (h : s.outcomes = r :: after) : ∃ t, s.next = (r, t) := by
  rcases hnext : s.next with ⟨fault | token, t⟩
  · rw [outcomes_of_error hnext] at h
    cases h
    exact ⟨t, rfl⟩
  · rw [outcomes, run, runFor, hnext] at h
    cases h
    exact ⟨t, rfl⟩

/-- What a run gives before something else are tokens that lead there. -/
theorem exists_tokens_of_outcomes {before after : List (Except ScanFault Token)}
    {r : Except ScanFault Token} (h : s.outcomes = before ++ r :: after) :
    ∃ tokens t, before = tokens.map .ok ∧ Steps s tokens t ∧ t.outcomes = r :: after := by
  induction before generalizing s with
  | nil => exact ⟨[], s, rfl, .refl s, h⟩
  | cons first before ih =>
    obtain ⟨t, hnext⟩ := next_of_outcomes h
    cases first with
    | error fault =>
      rw [outcomes_of_error hnext] at h
      simp at h
    | ok token =>
      have hkind : token.kind ≠ .endOfText := by
        intro hkind
        rw [outcomes_of_nil ((kind_eq_endOfText_iff hnext).1 hkind)] at h
        simp at h
      rw [outcomes_of_token hnext hkind] at h
      obtain ⟨tokens, u, rfl, hsteps, hafter⟩ := ih (List.cons.inj h).2
      exact ⟨token :: tokens, u, rfl, .head hnext hkind hsteps, hafter⟩

theorem exists_steps_of_outcomes {r : Except ScanFault Token}
    {after : List (Except ScanFault Token)} (h : s.outcomes = tokens.map .ok ++ r :: after) :
    ∃ t, Steps s tokens t ∧ t.outcomes = r :: after := by
  obtain ⟨ts, t, hts, hsteps, hafter⟩ := exists_tokens_of_outcomes h
  obtain rfl : tokens = ts := by simpa using congrArg Token.among hts
  exact ⟨t, hsteps, hafter⟩

end Scanner

/-- What the scanner gives is placed where the tokens before it end. -/
theorem place_eq_advance {text : String} {before : List Token} {r : Except ScanFault Token}
    {after : List (Except ScanFault Token)} (h : scanText text = before.map .ok ++ r :: after) :
    Scanner.place r = Position.start.advance (Token.chars before) := by
  obtain ⟨s, hsteps, hafter⟩ := Scanner.exists_steps_of_outcomes h
  obtain ⟨t, hnext⟩ := Scanner.next_of_outcomes hafter
  rw [Scanner.place_of_next hnext]
  exact hsteps.rest_eq.2

end PairLisp
