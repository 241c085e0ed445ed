import PairLisp.Proofs.Reader.Descent

/-! # Procedures that share a reader

The procedures of a recursive reader work on one reader. Where they fail they leave it as it is,
with the number of lists open by then. They add one to it at an opening parenthesis and take one off
when the list is complete. In this account, neither adding one beyond the limit nor taking one off
zero gives anything. Since every call gives something, neither is ever done.
-/

namespace PairLisp

/-- Computations on a reader that may fail, and that may give nothing at all. -/
abbrev ReadM := ExceptT Fault (StateT Reader Option)

namespace ReadM

/-- What a computation gives, with the reader after it. -/
def runOn {α : Type} (x : ReadM α) (r : Reader) : Option (Except Fault α × Reader) := x r

def nothing {α : Type} : ReadM α := fun _ => none

/-- Takes the next token in place of the held one, which stays if that token has a fault. -/
def advance : ReadM Unit := fun r =>
  match r.scanner.next with
  | (.ok token, scanner) => some (.ok (), ⟨token, scanner, r.depth⟩)
  | (.error fault, scanner) => some (.error (.scan fault), ⟨r.token, scanner, r.depth⟩)

def enter : ReadM Unit := fun r =>
  if r.depth < maxOpenLists then some (.ok (), { r with depth := r.depth + 1 }) else none

def leave : ReadM Unit := fun r =>
  if 0 < r.depth then some (.ok (), { r with depth := r.depth - 1 }) else none

/-- Goes on to a token that is not blank, by at most `n` steps. -/
def skipBlanks : (n : Nat) → ReadM Unit
  | 0 => nothing
  | n + 1 => do
    let r ← get
    if r.token.isBlank then
      advance
      skipBlanks n

mutual

/-- The form that starts with the held token, by at most `n` nested calls. -/
def form : (n : Nat) → ReadM Expr
  | 0 => nothing
  | n + 1 => do
    let r ← get
    match r.token.leaf? with
    | some e =>
      advance
      return e
    | none =>
      match r.token.kind with
      | .leftParen =>
        if maxOpenLists ≤ r.depth then throw (.read ⟨.depthOverflow, r.token.position⟩)
        else
          enter
          advance
          let list ← elements n r.token.position #[]
          leave
          return list
      | .endOfText => throw (.read ⟨.unmatchedOpen, r.token.position⟩)
      | _ => throw (.read ⟨.invalidToken r.token.raw, r.token.position⟩)

/-- The list opened at `start` whose elements so far are `es`, through its closing parenthesis. -/
def elements : (n : Nat) → Position → Array Expr → ReadM Expr
  | 0, _, _ => nothing
  | n + 1, start, es => do
    let blank ← get
    skipBlanks (blank.size + 1)
    let r ← get
    match r.token.kind with
    | .rightParen =>
      advance
      return .ofList es.toList
    | .endOfText => throw (.read ⟨.unmatchedOpen, start⟩)
    | _ =>
      if es.size < maxElements then
        let e ← form n
        elements n start (es.push e)
      else throw (.read ⟨.lengthOverflow, start⟩)

end

def nextForm : ReadM (Option Expr) := do
  let blank ← get
  skipBlanks (blank.size + 1)
  let r ← get
  if r.token.kind = .endOfText then return none
  else
    let e ← form (2 * r.size + 1)
    return some e

end ReadM

namespace Reader

open Token

variable {r after : Reader} {stuck : Nat} {lists : List OpenList} {p : Progress} {f : ReadFault}
  {a : Except Fault (Option Expr)} {token : Token} {s : Scanner} {n d : Nat}

/-- What a call comes to that has `lists` open and `stuck` more from calls before it. -/
def resume (stuck : Nat) (lists : List OpenList) (r : Reader) :
    Except Fault (Option Expr) × Reader :=
  readForm stuck lists r.token r.scanner r.scanner.run

theorem look_of_end (h : token.kind = .endOfText) :
    look stuck lists token = .answer (match atEnd lists with
      | .ok () => .ok none
      | .error fault => .error (.read fault)) := by
  rw [look, if_pos h]
  cases atEnd lists <;> rfl

theorem look_of_read (hend : token.kind ≠ .endOfText) (h : token.read stuck lists = .ok p) :
    look stuck lists token = .more p := by
  rw [look, if_neg hend, h]

theorem look_of_refused (hend : token.kind ≠ .endOfText)
    (h : token.read stuck lists = .error f) :
    look stuck lists token = .answer (.error (.read f)) := by
  rw [look, if_neg hend, h]

theorem ne_end_of_look (h : look stuck lists token = .more p) : token.kind ≠ .endOfText := by
  intro hend
  rw [look_of_end hend] at h
  cases h

theorem readForm_of_answer (h : look stuck lists token = .answer a)
    (ahead : List (Except ScanFault Token × Scanner)) :
    readForm stuck lists token s ahead = (a, ⟨token, s, stuck + lists.length⟩) := by
  cases ahead with
  | nil => rw [readForm, h]
  | cons => rw [readForm, h]

theorem resume_of_answer (h : look stuck lists r.token = .answer a) :
    resume stuck lists r = (a, ⟨r.token, r.scanner, stuck + lists.length⟩) :=
  readForm_of_answer h _

theorem resume_of_fault {fault : ScanFault} (h : look stuck lists r.token = .more p)
    (hnext : r.scanner.next = (.error fault, s)) :
    resume stuck lists r =
      (.error (.scan fault), ⟨r.token, s, stuck + max lists.length p.lists.length⟩) := by
  rw [resume, Scanner.run_of_error hnext, readForm, h]

/-- After a token that is read, the call goes on with the next one unless a form is complete. -/
theorem resume_of_token (h : look stuck lists r.token = .more p)
    (hnext : r.scanner.next = (.ok token, s)) :
    resume stuck lists r = match p.form with
      | some e => (.ok (some e), ⟨token, s, stuck⟩)
      | none => resume stuck p.lists ⟨token, s, d⟩ := by
  obtain ⟨lists', form⟩ := p
  -- a run stops at the end of the text, which is all that a new run gives there
  by_cases hend : token.kind = .endOfText
  · have hrest := (Scanner.kind_eq_endOfText_iff hnext).1 hend
    rw [Scanner.next_of_nil hrest] at hnext
    cases hnext
    rw [resume, Scanner.run_of_nil hrest, readForm, h]
    cases form with
    | some e => rfl
    | none =>
      have hlook : look stuck lists' ⟨.endOfText, "", r.scanner.position⟩ = _ := look_of_end hend
      exact (readForm_of_answer hlook []).trans (resume_of_answer (r := ⟨_, _, d⟩) hlook).symm
  · rw [resume, Scanner.run_of_token hnext hend, readForm, h]
    rfl

theorem size_of_next (hend : r.token.kind ≠ .endOfText) (h : r.scanner.next = (.ok token, s)) :
    size ⟨token, s, d⟩ < r.size := by
  have hadvance : r.advance = .ok ⟨token, s, r.depth⟩ := by rw [advance, h]
  exact (size_of_advance hend hadvance).1

end Reader

namespace ReadM

variable {α β : Type} {r after : Reader} {stuck : Nat} {lists : List OpenList} {p : Progress}
  {n : Nat}

theorem runOn_bind (x : ReadM α) (f : α → ReadM β) (r : Reader) :
    (x >>= f).runOn r = match x.runOn r with
      | none => none
      | some (.ok a, after) => (f a).runOn after
      | some (.error fault, after) => some (.error fault, after) := by
  show Option.bind (x r) (fun result => ExceptT.bindCont f result.1 result.2) = _
  rw [runOn]
  rcases x r with _ | ⟨fault | a, after⟩ <;> rfl

theorem runOn_get_bind (f : Reader → ReadM α) (r : Reader) :
    ((get : ReadM Reader) >>= f).runOn r = (f r).runOn r := rfl

theorem runOn_advance_bind (f : Unit → ReadM α) (r : Reader) :
    (advance >>= f).runOn r = match r.scanner.next with
      | (.ok token, scanner) => (f ()).runOn ⟨token, scanner, r.depth⟩
      | (.error fault, scanner) => some (.error (.scan fault), ⟨r.token, scanner, r.depth⟩) := by
  rw [runOn_bind, runOn, advance]
  rcases r.scanner.next with ⟨fault | token, scanner⟩ <;> rfl

theorem exists_of_bind {x : ReadM α} {f : α → ReadM β} {b : β}
    (h : (x >>= f).runOn r = some (.ok b, after)) :
    ∃ a mid, x.runOn r = some (.ok a, mid) ∧ (f a).runOn mid = some (.ok b, after) := by
  rw [runOn_bind] at h
  split at h
  · cases h
  · next a mid hx => exact ⟨a, mid, hx, h⟩
  · cases h

/-! ## Readers after what does not fail -/

theorem of_advance (hend : r.token.kind ≠ .endOfText) (h : advance.runOn r = some (.ok (), after)) :
    after.size < r.size ∧ after.depth = r.depth := by
  rw [runOn, advance] at h
  split at h
  · next token s hnext =>
    cases h
    exact ⟨Reader.size_of_next hend hnext, rfl⟩
  · cases h

theorem of_enter (h : enter.runOn r = some (.ok (), after)) :
    after.size = r.size ∧ after.token = r.token ∧ after.depth = r.depth + 1 := by
  rw [runOn, enter] at h
  split at h
  · cases h
    exact ⟨rfl, rfl, rfl⟩
  · cases h

theorem of_leave (h : leave.runOn r = some (.ok (), after)) :
    after.size = r.size ∧ after.depth + 1 = r.depth := by
  rw [runOn, leave] at h
  split at h
  · next hpos =>
    cases h
    exact ⟨rfl, Nat.sub_add_cancel hpos⟩
  · cases h

theorem of_skipBlanks (h : (skipBlanks n).runOn r = some (.ok (), after)) :
    after.size ≤ r.size ∧ after.depth = r.depth ∧ after.token.isBlank = false := by
  induction n generalizing r with
  | zero => cases h
  | succ n ih =>
    rw [skipBlanks, runOn_get_bind] at h
    split at h
    · next hblank =>
      obtain ⟨_, mid, hadvance, h⟩ := exists_of_bind h
      have hmid := of_advance (Reader.kind_ne_of_isBlank hblank) hadvance
      have hafter := ih h
      exact ⟨by omega, hafter.2.1.trans hmid.2, hafter.2.2⟩
    · next hblank =>
      cases h
      exact ⟨Nat.le_refl _, rfl, Bool.eq_false_iff.2 hblank⟩

theorem shorter (n : Nat) :
    (∀ {r e after}, (form n).runOn r = some (.ok e, after) →
      after.size < r.size ∧ after.depth = r.depth) ∧
    ∀ {start es r e after}, (elements n start es).runOn r = some (.ok e, after) →
      after.size < r.size ∧ after.depth = r.depth := by
  induction n with
  | zero =>
    constructor
    · intro r e after h
      cases h
    · intro start es r e after h
      cases h
  | succ n ih =>
    constructor
    · intro r e after h
      rw [form, runOn_get_bind] at h
      split at h
      · next hleaf =>
        obtain ⟨_, next, hadvance, h⟩ := exists_of_bind h
        cases h
        refine of_advance ?_ hadvance
        rcases Token.kind_of_leaf? hleaf with hk | hk | hk | hk <;> simp [hk]
      · split at h
        · next hkind =>
          split at h
          · cases h
          · obtain ⟨_, entered, henter, h⟩ := exists_of_bind h
            obtain ⟨_, inside, hadvance, h⟩ := exists_of_bind h
            obtain ⟨list, next, helements, h⟩ := exists_of_bind h
            obtain ⟨_, left, hleave, h⟩ := exists_of_bind h
            cases h
            have hentered := of_enter henter
            have hinside := of_advance (by simp [hentered.2.1, hkind]) hadvance
            have hnext := ih.2 helements
            have hleft := of_leave hleave
            exact ⟨by omega, by omega⟩
        · cases h
        · cases h
    · intro start es r e after h
      rw [elements, runOn_get_bind] at h
      obtain ⟨_, first, hskip, h⟩ := exists_of_bind h
      have hfirst := of_skipBlanks hskip
      rw [runOn_get_bind] at h
      split at h
      · next hkind =>
        obtain ⟨_, next, hadvance, h⟩ := exists_of_bind h
        cases h
        have hnext := of_advance (by simp [hkind]) hadvance
        exact ⟨by omega, hnext.2.trans hfirst.2.1⟩
      · cases h
      · split at h
        · obtain ⟨e, next, hform, h⟩ := exists_of_bind h
          have hnext := ih.1 hform
          have hafter := ih.2 h
          exact ⟨by omega, by omega⟩
        · cases h

/-! ## Agreement -/

/-- Goes on as the call does after some progress, whatever is counted as open. -/
def proceed (stuck : Nat) (p : Progress) : ReadM (Option Expr) := fun r =>
  some <| match p.form with
    | some e => (.ok (some e), { r with depth := stuck })
    | none => r.resume stuck p.lists

theorem leave_proceed (h : 0 < r.depth) :
    (leave >>= fun _ => proceed stuck p).runOn r = (proceed stuck p).runOn r := by
  rw [runOn_bind, show leave.runOn r = _ from if_pos h]
  rfl

/-- Reading the held token and going on is taking the next token and going on from there. -/
theorem advance_agrees {k : ReadM (Option Expr)} (hlook : Reader.look stuck lists r.token = .more p)
    (hdepth : r.depth = stuck + max lists.length p.lists.length)
    (hk : ∀ after, after.size < r.size → after.depth = r.depth →
      k.runOn after = (proceed stuck p).runOn after) :
    (advance >>= fun _ => k).runOn r = some (r.resume stuck lists) := by
  rw [runOn_advance_bind]
  rcases hnext : r.scanner.next with ⟨fault | token, s⟩
  · rw [Reader.resume_of_fault hlook hnext, hdepth]
  · rw [Reader.resume_of_token hlook hnext]
    exact hk _ (Reader.size_of_next (Reader.ne_end_of_look hlook) hnext) rfl

theorem skipBlanks_agrees {k : ReadM (Option Expr)} (hn : r.size < n)
    (hdepth : r.depth = stuck + lists.length)
    (hk : ∀ first : Reader, first.size ≤ r.size → first.depth = r.depth →
      first.token.isBlank = false → k.runOn first = some (first.resume stuck lists)) :
    (skipBlanks n >>= fun _ => k).runOn r = some (r.resume stuck lists) := by
  induction n generalizing r with
  | zero => omega
  | succ n ih =>
    rw [skipBlanks, bind_assoc, runOn_get_bind]
    split
    · next hblank =>
      have hread : r.token.read stuck lists = _ := Token.read_of_isBlank hblank
      rw [bind_assoc]
      refine advance_agrees (Reader.look_of_read (Reader.kind_ne_of_isBlank hblank) hread)
        (by simpa using hdepth) fun after hsize hafter => ?_
      exact ih (by omega) (hafter.trans hdepth) fun first hfirst hsame =>
        hk first (by omega) (hsame.trans hafter)
    · next hblank => exact hk r (Nat.le_refl _) rfl (Bool.eq_false_iff.2 hblank)

/-- With `n` calls for it, a form is read as in a call of the reader, where it has room. -/
def FormAgrees (n : Nat) : Prop :=
  ∀ (r : Reader) (stuck : Nat) (lists : List OpenList), 2 * r.size < n →
    r.depth = stuck + lists.length → r.token.kind ≠ .endOfText → r.token.isBlank = false →
    HasRoom lists → (r.token.kind = .rightParen → lists = []) →
      (form n >>= fun e => proceed stuck (.deliver e lists)).runOn r = some (r.resume stuck lists)

def ElementsAgree (n : Nat) : Prop :=
  ∀ (start : Position) (es : Array Expr) (r : Reader) (stuck : Nat) (lists : List OpenList),
    2 * r.size + 1 < n → r.depth = stuck + lists.length + 1 →
      (elements n start es >>= fun e =>
        leave >>= fun _ => proceed stuck (.deliver e lists)).runOn r =
          some (r.resume stuck (⟨start, es⟩ :: lists))

theorem throw_agrees {α : Type} {k : α → ReadM (Option Expr)} {f : ReadFault}
    (hend : r.token.kind ≠ .endOfText) (hdepth : r.depth = stuck + lists.length)
    (hread : r.token.read stuck lists = .error f) :
    ((throw (.read f) : ReadM α) >>= k).runOn r = some (r.resume stuck lists) := by
  rw [Reader.resume_of_answer (Reader.look_of_refused hend hread), ← hdepth]
  rfl

theorem ElementsAgree.form (h : ElementsAgree n) : FormAgrees (n + 1) := by
  intro r stuck lists hn hdepth hend hblank hroom hclose
  rw [ReadM.form, bind_assoc, runOn_get_bind]
  rcases r.token.classify with hkind | hkind | ⟨e, hleaf⟩ | hkind | hkind | hkind
  · exact absurd hkind hend
  · rw [hblank] at hkind
    cases hkind
  · have hread : r.token.read stuck lists = .ok (.deliver e lists) := by
      rw [Token.read_of_leaf? hleaf, Token.elementOf_of_hasRoom hroom]
    simp only [hleaf, bind_assoc, pure_bind]
    exact advance_agrees (Reader.look_of_read hend hread) (by simpa [length_deliver] using hdepth)
      fun _ _ _ => rfl
  · have hread : r.token.read stuck lists = _ := Token.read_of_leftParen hkind
    rw [Token.elementOf_of_hasRoom hroom, ← hdepth] at hread
    simp only [Token.leaf?_eq_none (.inl hkind), hkind]
    split at hread
    · next hdeep =>
      rw [if_pos hdeep]
      exact throw_agrees hend hdepth hread
    · next hdeep =>
      have henter : enter.runOn r = some (.ok (), { r with depth := r.depth + 1 }) :=
        if_pos (Nat.lt_of_not_le hdeep)
      rw [if_neg hdeep, bind_assoc, runOn_bind, henter]
      simp only [bind_assoc, pure_bind]
      have hsame : ({ r with depth := r.depth + 1 } : Reader).size = r.size := rfl
      refine advance_agrees (r := { r with depth := r.depth + 1 }) (Reader.look_of_read hend hread)
        (by simp; omega) fun inside hsize hinside => ?_
      exact h r.token.position #[] inside stuck lists (by omega) (by simpa [hdepth] using hinside)
  · obtain rfl := hclose hkind
    simp only [Token.leaf?_eq_none (.inr (.inl hkind)), hkind]
    exact throw_agrees hend hdepth (Token.read_of_unmatched hkind)
  · simp only [Token.leaf?_eq_none (.inr (.inr hkind)), hkind]
    refine throw_agrees hend hdepth ?_
    rw [Token.read_of_invalid hkind, Token.elementOf_of_hasRoom hroom]

theorem FormAgrees.elements (hform : FormAgrees n) (hrest : ElementsAgree n) :
    ElementsAgree (n + 1) := by
  intro start es r stuck lists hn hdepth
  rw [ReadM.elements, bind_assoc, runOn_get_bind, bind_assoc]
  refine skipBlanks_agrees (Nat.lt_succ_self _) hdepth fun first hsize hfirst hblank => ?_
  rw [bind_assoc, runOn_get_bind]
  split
  · next hkind =>
    have hread : first.token.read stuck (⟨start, es⟩ :: lists) = _ :=
      Token.read_of_rightParen hkind
    simp only [bind_assoc, pure_bind]
    refine advance_agrees (Reader.look_of_read (by simp [hkind]) hread)
      (by simp [length_deliver]; omega) fun after _ hafter => leave_proceed (by omega)
  · next hkind =>
    rw [Reader.resume_of_answer (Reader.look_of_end hkind), List.length_cons, ← Nat.add_assoc,
      ← hdepth, ← hfirst]
    rfl
  · next hclose hend =>
    have hstart : first.token.startsElement = true := by
      simpa [Token.startsElement, hblank] using ⟨hclose, hend⟩
    by_cases hroom : es.size < maxElements
    · have hagrees := hform first stuck (⟨start, es⟩ :: lists) (by omega)
        (hfirst.trans hdepth) hend hblank (by simpa [HasRoom] using hroom)
        (fun hkind => absurd hkind hclose)
      rw [← hagrees, if_pos hroom, bind_assoc, runOn_bind, runOn_bind]
      rcases hresult : (ReadM.form n).runOn first with _ | ⟨fault | e, after⟩
      · rfl
      · rfl
      · obtain ⟨hafter, hsame⟩ := (shorter n).1 hresult
        exact hrest start (es.push e) after stuck lists (by omega) (by omega)
    · rw [if_neg hroom]
      exact throw_agrees hend (hfirst.trans hdepth)
        (Token.read_of_full hstart (Nat.not_lt.1 hroom))

theorem agree (n : Nat) : FormAgrees n ∧ ElementsAgree n := by
  induction n with
  | zero => exact ⟨fun _ _ _ hn => absurd hn (Nat.not_lt_zero _),
      fun _ _ _ _ _ hn => absurd hn (Nat.not_lt_zero _)⟩
  | succ n ih => exact ⟨ih.2.form, ih.1.elements ih.2⟩

/-- The procedures give what a call of the reader does, so they never count too far either way. -/
theorem runOn_nextForm (r : Reader) : nextForm.runOn r = some r.next := by
  rw [nextForm, runOn_get_bind, show r.next = r.resume r.depth [] from rfl]
  refine skipBlanks_agrees (Nat.lt_succ_self _) rfl fun first hsize hfirst hblank => ?_
  rw [runOn_get_bind]
  split
  · next hend =>
    rw [Reader.resume_of_answer (Reader.look_of_end hend), ← hfirst]
    rfl
  · next hend =>
    have hagrees := (agree (2 * first.size + 1)).1 first r.depth [] (Nat.lt_succ_self _) hfirst hend
      hblank (by simp [HasRoom]) (fun _ => rfl)
    rw [← hagrees, runOn_bind, runOn_bind]
    rcases hresult : (form (2 * first.size + 1)).runOn first with _ | ⟨fault | e, after⟩
    · rfl
    · rfl
    · obtain ⟨-, hsame⟩ := (shorter _).1 hresult
      rw [← hfirst, ← hsame]
      rfl

end ReadM

end PairLisp
