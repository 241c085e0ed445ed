import PairLisp.Proofs.Reader.Offence
import PairLisp.Reader.Stepwise

/-! # Reading by recursive descent

A recursive reader holds one token and has a procedure for a form and one for the elements of a
list, which call each other. It scans the next token before a form is finished. Still it reads every
text as the token by token reader does, with the same faults. Whatever a form would answer at the
end of a text makes no difference, since no form is ever asked for there.
-/

namespace PairLisp
namespace Reader

def size (r : Reader) : Nat :=
  r.scanner.rest.length + if r.token.kind = .endOfText then 0 else 1

/-- Everything that a reader has before it, the held token first. -/
def ahead (r : Reader) : List (Except ScanFault Token) :=
  .ok r.token :: if r.token.kind = .endOfText then [] else r.scanner.outcomes

/-- Takes the next token in place of the held one. -/
def advance (r : Reader) : Except Fault Reader :=
  match r.scanner.next with
  | (.ok token, scanner) => .ok ⟨token, scanner, r.depth⟩
  | (.error fault, _) => .error (.scan fault)

def enter (r : Reader) : Reader := { r with depth := r.depth + 1 }

def leave (r : Reader) : Reader := { r with depth := r.depth - 1 }

def skipBlanks : Nat → Reader → Except Fault Reader
  | 0, r => .ok r
  | n + 1, r => if r.token.isBlank then r.advance >>= skipBlanks n else .ok r

mutual

/-- The form that starts with the held token, by at most `n` nested calls. The answer `dead` stands
for the end of the text and for too few calls. -/
def form (dead : Fault) : Nat → Reader → Except Fault (Expr × Reader)
  | 0, _ => .error dead
  | n + 1, r =>
    match r.token.leaf? with
    | some e => do
      let after ← r.advance
      return (e, after)
    | none =>
      match r.token.kind with
      | .leftParen =>
        if maxOpenLists ≤ r.depth then .error (.read ⟨.depthOverflow, r.token.position⟩)
        else do
          let inside ← r.enter.advance
          let (list, after) ← elements dead n r.token.position #[] inside
          return (list, after.leave)
      | .endOfText => .error dead
      | _ => .error (.read ⟨.invalidToken r.token.raw, r.token.position⟩)

/-- The list opened at `start` whose elements so far are `es`, through its closing parenthesis. -/
def elements (dead : Fault) : Nat → Position → Array Expr → Reader → Except Fault (Expr × Reader)
  | 0, _, _, _ => .error dead
  | n + 1, start, es, r => do
    let r ← skipBlanks r.size r
    match r.token.kind with
    | .rightParen => do
      let after ← r.advance
      return (.ofList es.toList, after)
    | .endOfText => .error (.read ⟨.unmatchedOpen, start⟩)
    | _ =>
      if es.size < maxElements then do
        let (e, after) ← form dead n r
        elements dead n start (es.push e) after
      else .error (.read ⟨.lengthOverflow, start⟩)

end

/-- All forms up to the end of the text, after those in `done`. -/
def forms (dead : Fault) : Nat → Array Expr → Reader → Except Fault (List Expr)
  | 0, _, _ => .error dead
  | n + 1, done, r => do
    let r ← skipBlanks r.size r
    if r.token.kind = .endOfText then return done.toList
    else
      let (e, after) ← form dead (2 * r.size + 1) r
      forms dead n (done.push e) after

end Reader

/-- Reads a text by recursive descent. -/
def descend (dead : Fault) (text : String) : Except Fault (List Expr) := do
  let r ← Reader.ofText text
  r.forms dead (r.size + 1) #[]

namespace Reader

open Token

variable {r after : Reader} {e : Expr} {dead : Fault} {lists : List OpenList}
  {forms : List Expr} {n : Nat}

theorem ahead_of_ne_end (h : r.token.kind ≠ .endOfText) :
    r.ahead = .ok r.token :: r.scanner.outcomes := by
  rw [ahead, if_neg h]

theorem kind_ne_of_isBlank {t : Token} (h : t.isBlank = true) : t.kind ≠ .endOfText := by
  intro hend
  simp [isBlank, hend] at h

@[simp] theorem ok_bind {α β : Type} {a : α} {f : α → Except Fault β} :
    (.ok a >>= f) = f a := rfl

theorem exists_of_bind {α β : Type} {x : Except Fault α} {f : α → Except Fault β} {b : β}
    (h : x >>= f = .ok b) : ∃ a, x = .ok a ∧ f a = .ok b := by
  cases x with
  | error fault => cases h
  | ok a => exact ⟨a, rfl, h⟩

theorem outcomes_eq_advance {α : Type} {f : List (Except ScanFault Token) → Except Fault α}
    (hf : ∀ fault, f [.error fault] = .error (.scan fault)) :
    f r.scanner.outcomes = r.advance >>= fun after => f after.ahead := by
  rw [advance]
  rcases hnext : r.scanner.next with ⟨fault | token, s⟩
  · rw [Scanner.outcomes_of_error hnext, hf]
    rfl
  · by_cases hend : token.kind = .endOfText
    · have hrest := (Scanner.kind_eq_endOfText_iff hnext).1 hend
      rw [Scanner.next_of_nil hrest] at hnext
      cases hnext
      rw [Scanner.outcomes_of_nil hrest]
      rfl
    · rw [Scanner.outcomes_of_token hnext hend]
      simp only [bind, Except.bind, ahead, if_neg hend]

theorem size_of_advance (hend : r.token.kind ≠ .endOfText) (h : r.advance = .ok after) :
    after.size < r.size ∧ after.depth = r.depth := by
  rw [advance] at h
  rcases hnext : r.scanner.next with ⟨fault | token, s⟩
  · rw [hnext] at h
    cases h
  · rw [hnext] at h
    cases h
    refine ⟨?_, rfl⟩
    simp only [size, if_neg hend]
    by_cases htoken : token.kind = .endOfText
    · have hrest := (Scanner.kind_eq_endOfText_iff hnext).1 htoken
      rw [Scanner.next_of_nil hrest] at hnext
      cases hnext
      simp [htoken]
    · have hlt := Scanner.rest_length_lt_of_next hnext htoken
      simp only [if_neg htoken]
      omega

theorem readTokens_ahead {p : Progress} (hend : r.token.kind ≠ .endOfText)
    (hread : r.token.read 0 lists = .ok p) :
    readTokens lists forms.toArray r.ahead = r.advance >>= fun after =>
      readTokens p.lists (forms ++ p.form.toList).toArray after.ahead := by
  rw [ahead_of_ne_end hend, readTokens_of_ok hend hread]
  exact outcomes_eq_advance fun fault => by rw [readTokens]

theorem readTokens_ahead_of_error {fault : ReadFault} (hend : r.token.kind ≠ .endOfText)
    (hread : r.token.read 0 lists = .error fault) :
    readTokens lists forms.toArray r.ahead = .error (.read fault) := by
  rw [ahead_of_ne_end hend, readTokens_of_error hend hread]

theorem readTokens_ahead_of_end (hend : r.token.kind = .endOfText) :
    readTokens lists forms.toArray r.ahead = match atEnd lists with
      | .ok () => .ok forms
      | .error fault => .error (.read fault) := by
  cases lists <;> simp [ahead, hend, readTokens, atEnd]

/-! ## Blanks -/

theorem of_skipBlanks (hsize : r.size ≤ n) (h : r.skipBlanks n = .ok after) :
    after.size ≤ r.size ∧ after.depth = r.depth ∧ after.token.isBlank = false := by
  induction n generalizing r with
  | zero =>
    cases h
    refine ⟨Nat.le_refl _, rfl, ?_⟩
    cases hblank : after.token.isBlank with
    | false => rfl
    | true => simp [size, kind_ne_of_isBlank hblank] at hsize
  | succ n ih =>
    rw [skipBlanks] at h
    split at h
    · next hblank =>
      obtain ⟨next, hadvance, h⟩ := exists_of_bind h
      have hnext := size_of_advance (kind_ne_of_isBlank hblank) hadvance
      have hafter := ih (by omega) h
      exact ⟨by omega, hafter.2.1.trans hnext.2, hafter.2.2⟩
    · next hblank =>
      cases h
      exact ⟨Nat.le_refl _, rfl, Bool.eq_false_iff.2 hblank⟩

theorem readTokens_skipBlanks :
    readTokens lists forms.toArray r.ahead =
      r.skipBlanks n >>= fun after => readTokens lists forms.toArray after.ahead := by
  induction n generalizing r with
  | zero => rfl
  | succ n ih =>
    rw [skipBlanks]
    split
    · next hblank =>
      rw [readTokens_ahead (kind_ne_of_isBlank hblank) (read_of_isBlank hblank), bind_assoc]
      simpa using congrArg (r.advance >>= ·) (funext fun _ => ih)
    · rfl

/-! ## Forms and lists -/

theorem shorter (dead : Fault) (n : Nat) :
    (∀ {r e after}, form dead n r = .ok (e, after) →
      after.size < r.size ∧ after.depth = r.depth) ∧
    ∀ {start es r e after}, elements dead n start es r = .ok (e, after) →
      after.size < r.size ∧ after.depth = r.depth := by
  induction n with
  | zero =>
    constructor
    · intro r e after h
      cases h
    · intro start es r e after h
      cases h
  | succ n ih =>
    constructor
    · intro r e after h
      rw [form] at h
      split at h
      · next hleaf =>
        obtain ⟨next, hadvance, h⟩ := exists_of_bind h
        cases h
        refine size_of_advance ?_ hadvance
        rcases kind_of_leaf? hleaf with hk | hk | hk | hk <;> simp [hk]
      · split at h
        · next hkind =>
          split at h
          · cases h
          · obtain ⟨inside, hadvance, h⟩ := exists_of_bind h
            obtain ⟨⟨list, next⟩, helements, h⟩ := exists_of_bind h
            cases h
            have hinside := size_of_advance (r := r.enter) (by simp [enter, hkind]) hadvance
            have hnext := ih.2 helements
            refine ⟨Nat.lt_trans hnext.1 hinside.1, ?_⟩
            simp [leave, hnext.2, hinside.2, enter]
        · cases h
        · cases h
    · intro start es r e after h
      rw [elements] at h
      obtain ⟨first, hskip, h⟩ := exists_of_bind h
      have hfirst := of_skipBlanks (Nat.le_refl _) hskip
      split at h
      · next hkind =>
        obtain ⟨next, hadvance, h⟩ := exists_of_bind h
        cases h
        have hnext := size_of_advance (by simp [hkind]) hadvance
        exact ⟨by omega, hnext.2.trans hfirst.2.1⟩
      · cases h
      · split at h
        · obtain ⟨⟨e, next⟩, hform, h⟩ := exists_of_bind h
          have hnext := ih.1 hform
          have hafter := ih.2 h
          exact ⟨by omega, by omega⟩
        · cases h

/-- With `n` calls for it, a form is read as by the token by token reader where it has room. -/
def FormAgrees (dead : Fault) (n : Nat) : Prop :=
  ∀ (r : Reader) (lists : List OpenList) (forms : List Expr), 2 * r.size < n →
    r.depth = lists.length → r.token.kind ≠ .endOfText → r.token.isBlank = false →
    HasRoom lists → (r.token.kind = .rightParen → lists = []) →
      readTokens lists forms.toArray r.ahead = form dead n r >>= fun (e, after) =>
        readTokens (Progress.deliver e lists).lists
          (forms ++ (Progress.deliver e lists).form.toList).toArray after.ahead

def ElementsAgree (dead : Fault) (n : Nat) : Prop :=
  ∀ (start : Position) (es : Array Expr) (r : Reader) (lists : List OpenList)
    (forms : List Expr), 2 * r.size + 1 < n → r.depth = lists.length + 1 →
      readTokens (⟨start, es⟩ :: lists) forms.toArray r.ahead =
        elements dead n start es r >>= fun (e, after) =>
          readTokens (Progress.deliver e lists).lists
            (forms ++ (Progress.deliver e lists).form.toList).toArray after.ahead

theorem ElementsAgree.form (h : ElementsAgree dead n) : FormAgrees dead (n + 1) := by
  intro r lists forms hn hdepth hend hblank hroom hclose
  rcases r.token.classify with hkind | hkind | ⟨e, hleaf⟩ | hkind | hkind | hkind
  · exact absurd hkind hend
  · rw [hblank] at hkind
    cases hkind
  · have hread : r.token.read 0 lists = .ok (.deliver e lists) := by
      rw [read_of_leaf? hleaf, elementOf_of_hasRoom hroom]
    rw [readTokens_ahead hend hread, Reader.form, hleaf, bind_assoc]
    rfl
  · have hread : r.token.read 0 lists = _ := read_of_leftParen hkind
    rw [elementOf_of_hasRoom hroom, Nat.zero_add, ← hdepth] at hread
    rw [Reader.form, leaf?_eq_none (.inl hkind)]
    simp only [hkind]
    split at hread
    · next hdeep =>
      rw [if_pos hdeep]
      exact readTokens_ahead_of_error hend hread
    · next hdeep =>
      rw [if_neg hdeep, show r.ahead = r.enter.ahead from rfl,
        readTokens_ahead (r := r.enter) hend hread]
      cases hadvance : r.enter.advance with
      | error fault => rfl
      | ok inside =>
        obtain ⟨hsize, hinside⟩ := size_of_advance (r := r.enter) hend hadvance
        have hsame : r.enter.size = r.size := rfl
        have hlist := h r.token.position #[] inside lists forms (by omega)
          (hinside.trans (congrArg (· + 1) hdepth))
        simp only [Option.toList_none, List.append_nil, ok_bind, bind_assoc]
        exact hlist
  · obtain rfl := hclose hkind
    rw [Reader.form, leaf?_eq_none (.inr (.inl hkind))]
    simp only [hkind]
    exact readTokens_ahead_of_error hend (read_of_unmatched hkind)
  · rw [Reader.form, leaf?_eq_none (.inr (.inr hkind))]
    simp only [hkind]
    refine readTokens_ahead_of_error hend ?_
    rw [read_of_invalid hkind, elementOf_of_hasRoom hroom]

theorem FormAgrees.elements (hform : FormAgrees dead n) (hrest : ElementsAgree dead n) :
    ElementsAgree dead (n + 1) := by
  intro start es r lists forms hn hdepth
  rw [readTokens_skipBlanks (n := r.size), Reader.elements]
  cases hskip : r.skipBlanks r.size with
  | error fault => rfl
  | ok first =>
    obtain ⟨hsize, hfirst, hblank⟩ := of_skipBlanks (Nat.le_refl _) hskip
    rw [hdepth] at hfirst
    simp only [ok_bind]
    split
    · next hkind =>
      rw [readTokens_ahead (by simp [hkind]) (read_of_rightParen hkind), bind_assoc]
      rfl
    · next hkind => rw [readTokens_ahead_of_end hkind]; rfl
    · next hclose hend =>
      have hstart : first.token.startsElement = true := by
        simpa [startsElement, hblank] using ⟨hclose, hend⟩
      by_cases hroom : es.size < maxElements
      · have hagrees := hform first (⟨start, es⟩ :: lists) forms (by omega)
          (by simpa using hfirst) hend hblank (by simpa [HasRoom] using hroom)
          (fun hkind => absurd hkind hclose)
        rw [hagrees, if_pos hroom, bind_assoc]
        cases hresult : Reader.form dead n first with
        | error fault => rfl
        | ok result =>
          obtain ⟨e, after⟩ := result
          obtain ⟨hafter, hsame⟩ := (shorter dead n).1 hresult
          refine Eq.trans ?_ (hrest start (es.push e) after lists forms (by omega) (by omega))
          simp [Progress.deliver]
      · rw [readTokens_ahead_of_error hend (read_of_full hstart (Nat.not_lt.1 hroom)),
          if_neg hroom]
        rfl

theorem agree (dead : Fault) (n : Nat) : FormAgrees dead n ∧ ElementsAgree dead n := by
  induction n with
  | zero => exact ⟨fun _ _ _ hn => absurd hn (Nat.not_lt_zero _),
      fun _ _ _ _ _ hn => absurd hn (Nat.not_lt_zero _)⟩
  | succ n ih => exact ⟨ih.2.form, ih.1.elements ih.2⟩

theorem readTokens_forms {done : Array Expr} (hn : r.size < n) (hdepth : r.depth = 0) :
    readTokens [] done r.ahead = r.forms dead n done := by
  induction n generalizing r done with
  | zero => exact absurd hn (Nat.not_lt_zero _)
  | succ n ih =>
    obtain ⟨done⟩ := done
    rw [readTokens_skipBlanks (n := r.size), Reader.forms]
    cases hskip : r.skipBlanks r.size with
    | error fault => rfl
    | ok first =>
      obtain ⟨hsize, hfirst, hblank⟩ := of_skipBlanks (Nat.le_refl _) hskip
      simp only [ok_bind]
      split
      · next hend => rw [readTokens_ahead_of_end hend]; rfl
      · next hend =>
        have hagrees := (agree dead (2 * first.size + 1)).1 first [] done (Nat.lt_succ_self _)
          (hfirst.trans hdepth) hend hblank (by simp [HasRoom]) (fun _ => rfl)
        rw [hagrees]
        cases hresult : Reader.form dead (2 * first.size + 1) first with
        | error fault => rfl
        | ok result =>
          obtain ⟨e, after⟩ := result
          obtain ⟨hafter, hsame⟩ := (shorter dead _).1 hresult
          have hrest : readTokens [] ⟨done ++ [e]⟩ after.ahead = _ :=
            ih (by omega) (hsame.trans (hfirst.trans hdepth))
          simpa [Progress.deliver] using hrest

end Reader

/-- Recursive descent reads every text as the token by token reader, so no form is asked for at the
end of a text. -/
theorem descend_eq_readText (dead : Fault) (text : String) :
    descend dead text = readText text := by
  let before : Reader := ⟨⟨.newline, "", .start⟩, .ofText text, 0⟩
  have hfirst : Reader.ofText text = before.advance := by
    unfold Reader.ofText Reader.advance
    rcases (Scanner.ofText text).next with ⟨fault | token, s⟩ <;> rfl
  have hread : readText text =
      before.advance >>= fun first => readTokens [] #[] first.ahead :=
    Reader.outcomes_eq_advance (r := before) fun fault => by rw [readTokens]
  rw [descend, hfirst, hread]
  cases hadvance : before.advance with
  | error fault => rfl
  | ok first =>
    have hdepth := (Reader.size_of_advance (r := before) (by simp [before, Token.kind,
      Token.Content.kind]) hadvance).2
    exact (Reader.readTokens_forms (Nat.lt_succ_self _) hdepth).symm

/-- The fault of a text is that of its first offence, placed where the offending token starts or
where the innermost list open there does. A closing parenthesis without a partner is one for the
scanner, and recursive descent never asks for a form at the end of a text. -/
theorem readText_leftmost (text : String) :
    (∀ fault, readText text = .error fault ↔ FirstOffence text fault) ∧
      (∀ before r after, scanText text = before.map .ok ++ r :: after →
        Scanner.place r = Position.start.advance (Token.chars before)) ∧
      (∀ before r after cs, scanText text = before.map .ok ++ r :: after → Unoffending before →
        Token.opens before = Token.closes before →
        text.toList = Token.chars before ++ ')' :: cs → readText text =
          .error (.scan ⟨.unmatchedClose, Position.start.advance (Token.chars before)⟩)) ∧
      (∀ p, readText text ≠ .error (.read ⟨.invalidToken ")", p⟩)) ∧
      ∀ dead, descend dead text = readText text :=
  ⟨fun _ => ⟨firstOffence_of_readText, readText_of_firstOffence⟩,
    fun _ _ _ => place_eq_advance, fun _ _ _ _ => readText_of_unmatched,
    readText_ne_invalidClose, fun dead => descend_eq_readText dead text⟩

theorem readText_leftmost_of_parentheses :
    FirstOffence "( )\n(" (.read ⟨.unmatchedOpen, ⟨2, 1⟩⟩) ∧
      readText ")" = .error (.scan ⟨.unmatchedClose, .start⟩) := by
  constructor
  · exact ((readText_leftmost "( )\n(").1 _).1 (by rfl)
  · exact (readText_leftmost ")").2.2.1 [] _ [] [] (by rfl) Reads.nil.unoffending rfl (by rfl)

end PairLisp
