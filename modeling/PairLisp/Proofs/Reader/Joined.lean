import PairLisp.Proofs.Reader.Reads
import PairLisp.Proofs.Scanner.Extent
import PairLisp.Proofs.Scanner.Shift

/-! # Texts one after the other

A text that can be read may be followed by a line feed and any other text: the forms of both come
one after the other, and a fault of the other text moves down by the lines before it. A fault of the
first text stays what it is, unless it was found at the end of that text.
-/

namespace PairLisp

def ReadFault.down (k : Nat) (f : ReadFault) : ReadFault := { f with position := f.position.down k }

def Fault.down (k : Nat) : Fault → Fault
  | .scan f => .scan (f.down k)
  | .read f => .read (f.down k)
  | .eval f => .eval f

def OpenList.down (k : Nat) (l : OpenList) : OpenList := { l with start := l.start.down k }

def Progress.down (k : Nat) (p : Progress) : Progress := { p with lists := p.lists.map (.down k) }

variable {t : Token} {lists : List OpenList} {forms : List Expr} {k : Nat}

namespace Progress

def resultDown (k : Nat) : Except ReadFault Progress → Except ReadFault Progress
  | .ok p => .ok { p with lists := p.lists.map (.down k) }
  | .error f => .error (f.down k)

theorem deliver_down (e : Expr) (lists : List OpenList) :
    .ok (deliver e (lists.map (.down k))) = resultDown k (.ok (deliver e lists)) := by
  cases lists <;> rfl

end Progress

namespace Token

open Progress (resultDown deliver_down)

theorem elementOf_down (r : Except ReadFault Progress) :
    elementOf (lists.map (.down k)) (resultDown k r) = resultDown k (elementOf lists r) := by
  cases lists with
  | nil => rfl
  | cons innermost outer =>
    simp only [elementOf, List.map_cons, OpenList.down]
    split <;> rfl

theorem read_down (k : Nat) (t : Token) (lists : List OpenList) :
    (t.down k).read 0 (lists.map (.down k)) = resultDown k (t.read 0 lists) := by
  rw [read.eq_def, read.eq_def, show (t.down k).content = t.content from rfl]
  cases t.content with
  | whitespace | newline => rfl
  | symbol | int | float | string =>
    simp only [deliver_down, elementOf_down]
    rfl
  | invalid | endOfText => exact elementOf_down (.error ⟨.invalidToken t.raw, t.position⟩)
  | leftParen =>
    simp only [List.length_map]
    split
    · exact elementOf_down (.error ⟨.depthOverflow, t.position⟩)
    · exact elementOf_down (.ok ⟨⟨t.position, #[]⟩ :: lists, none⟩)
  | rightParen =>
    cases lists with
    | nil => rfl
    | cons innermost outer => exact deliver_down _ outer

end Token

/-- Reading tokens `k` lines down leads to the same forms, or to the same fault as far down. -/
theorem readTokens_down (k : Nat) (rs : List (Except ScanFault Token)) (lists : List OpenList)
    (forms : List Expr) :
    readTokens (lists.map (.down k)) forms.toArray (rs.map (Scanner.resultDown k)) =
      (readTokens lists forms.toArray rs).mapError (.down k) := by
  induction rs generalizing lists forms with
  | nil => rfl
  | cons r rs ih =>
    cases r with
    | error fault => rfl
    | ok t =>
      rw [List.map_cons, Scanner.resultDown]
      by_cases hend : t.kind = .endOfText
      · rw [readTokens, readTokens, if_pos hend, if_pos (by exact hend)]
        cases lists <;> rfl
      · have hdown := t.read_down k lists
        cases hread : t.read 0 lists with
        | error fault =>
          rw [hread] at hdown
          rw [readTokens_of_error hend hread, readTokens_of_error (by exact hend) hdown]
          rfl
        | ok p =>
          rw [hread] at hdown
          rw [readTokens_of_ok hend hread, readTokens_of_ok (by exact hend) hdown, ih]

theorem readTokens_append (rs : List (Except ScanFault Token)) (lists : List OpenList)
    (before forms : List Expr) :
    readTokens lists (before ++ forms).toArray rs =
      (readTokens lists forms.toArray rs).map (before ++ ·) := by
  induction rs generalizing lists forms with
  | nil => rfl
  | cons r rs ih =>
    cases r with
    | error fault => rfl
    | ok t =>
      by_cases hend : t.kind = .endOfText
      · rw [readTokens, readTokens, if_pos hend, if_pos hend]
        cases atEnd lists <;> rfl
      · cases hread : t.read 0 lists with
        | error fault =>
          rw [readTokens_of_error hend hread, readTokens_of_error hend hread]
          rfl
        | ok p =>
          rw [readTokens_of_ok hend hread, readTokens_of_ok hend hread, List.append_assoc, ih]

theorem Scanner.ofText_append_newline (t₁ t₂ : String) :
    ofText (t₁ ++ "\n" ++ t₂) = (ofText t₁).extend ('\n' :: t₂.toList) := by
  rw [String.append_assoc, ofText_append]
  simp

/-- A scanner that is through with a text and a line feed after it is at the start of the text that
follows, only further down. -/
theorem scanText_append_newline {t₁ : String} {ts : List Token} {s : Scanner} (t₂ : String)
    (hsteps : (Scanner.ofText t₁).Steps ts s) (hrest : s.rest = []) (hdepth : s.depth = 0) :
    ∃ newline : Token, newline.kind = .newline ∧ scanText (t₁ ++ "\n" ++ t₂) =
      (ts ++ [newline]).map .ok ++
        (scanText t₂).map (Scanner.resultDown (Position.breaks t₁.toList + 1)) := by
  obtain ⟨htext, hposition⟩ := hsteps.rest_eq
  obtain rfl : s = ⟨[], Position.start.advance t₁.toList, 0⟩ := by
    obtain ⟨rest, position, depth⟩ := s
    obtain rfl : rest = [] := hrest
    obtain rfl : depth = 0 := hdepth
    rw [show (Scanner.ofText t₁).rest = t₁.toList from rfl, List.append_nil] at htext
    rw [htext]
    congr 1
  have hnext : (Scanner.extend ⟨[], Position.start.advance t₁.toList, 0⟩
      ('\n' :: t₂.toList)).next = (.ok ⟨.newline, "\n", Position.start.advance t₁.toList⟩,
        (Scanner.ofText t₂).down (Position.breaks t₁.toList + 1)) := by
    rw [Scanner.down, show (Scanner.ofText t₂).position = Position.start from rfl,
      ← Position.advance_newline, Position.advance_append]
    rfl
  have hall := (hsteps.extend (.of_newline t₂.toList)).snoc hnext (by simp [Token.kind,
    Token.Content.kind])
  refine ⟨⟨.newline, "\n", Position.start.advance t₁.toList⟩, rfl, ?_⟩
  rw [Scanner.scanText_eq_outcomes, Scanner.ofText_append_newline, hall.outcomes_eq,
    Scanner.outcomes_down, Scanner.scanText_eq_outcomes]

/-- After a text that can be read, a line feed and another text are read as the other text alone,
only further down and after the forms of the first. -/
theorem readText_append_of_ok {t₁ t₂ : String} {a : List Expr} (h : readText t₁ = .ok a) :
    readText (t₁ ++ "\n" ++ t₂) =
      ((readText t₂).mapError (.down (Position.breaks t₁.toList + 1))).map (a ++ ·) := by
  have hstop := readText_stop t₁
  rw [h] at hstop
  cases hstop with
  | @finished ts s _ hsteps hrest hreads =>
    obtain ⟨newline, hkind, hscan⟩ :=
      scanText_append_newline t₂ hsteps hrest (hreads.length_eq_depth hsteps).symm
    have hblank : newline.isBlank = true := by simp [Token.isBlank, hkind]
    have hall := hreads.snoc (by simp [hkind]) (Token.read_of_isBlank hblank)
    rw [readText, hscan, hall.readTokens_eq]
    have happend := readTokens_append
      ((scanText t₂).map (Scanner.resultDown (Position.breaks t₁.toList + 1))) [] a []
    simp only [Option.toList_none, List.append_nil] at happend ⊢
    rw [happend]
    exact congrArg _ (readTokens_down _ (scanText t₂) [] [])

/-- A fault that was not found at the end of a text is the fault of every text that goes on after
it with a line feed. -/
theorem readText_append_of_error {t₁ t₂ : String} {f : Fault} (h : readText t₁ = .error f)
    (hopen : ∀ p, f ≠ .read ⟨.unmatchedOpen, p⟩)
    (hstring : ∀ p, f ≠ .scan ⟨.unterminatedString, p⟩) :
    readText (t₁ ++ "\n" ++ t₂) = .error f := by
  have hseparated := Separated.of_newline t₂.toList
  have hstop := readText_stop t₁
  rw [h] at hstop
  rw [readText, Scanner.scanText_eq_outcomes, Scanner.ofText_append_newline]
  cases hstop with
  | unclosed => exact absurd rfl (hopen _)
  | @scan ts s t lists forms fault hsteps hnext hreads =>
    have hreason : fault.reason ≠ .unterminatedString := by
      intro hreason
      exact hstring fault.position (by rw [← hreason])
    obtain ⟨u, hlonger⟩ := Scanner.next_extend_of_error hseparated hnext hreason
    rw [(hsteps.extend hseparated).outcomes_eq, hreads.readTokens_eq,
      Scanner.outcomes_of_error hlonger, readTokens]
  | refused hsteps hnext hend hreads hread =>
    rw [(hsteps.extend hseparated).outcomes_eq, hreads.readTokens_eq,
      Scanner.outcomes_of_token (Scanner.next_extend_of_ok hseparated hnext hend) hend,
      readTokens_of_error hend hread]

/-- What is read from two texts with a line feed between them. The lines of a fault of the second
are counted without an upper bound: 32-bit counters give the same place if the texts have fewer than
`2 ^ 32 - 2` characters together. -/
theorem readText_joined (t₁ t₂ : String) :
    (∀ a b, readText t₁ = .ok a → readText t₂ = .ok b →
        readText (t₁ ++ "\n" ++ t₂) = .ok (a ++ b)) ∧
      (∀ a f, readText t₁ = .ok a → readText t₂ = .error f →
        readText (t₁ ++ "\n" ++ t₂) = .error (f.down (Position.breaks t₁.toList + 1))) ∧
      ∀ f, readText t₁ = .error f → (∀ p, f ≠ .read ⟨.unmatchedOpen, p⟩) →
        (∀ p, f ≠ .scan ⟨.unterminatedString, p⟩) → readText (t₁ ++ "\n" ++ t₂) = .error f := by
  refine ⟨fun a b h h' => ?_, fun a f h h' => ?_, fun f => readText_append_of_error⟩
  · rw [readText_append_of_ok h, h']
    rfl
  · rw [readText_append_of_ok h, h']
    rfl

theorem readText_joined_of_parentheses :
    readText "()\r\n()" = .ok [.nil, .nil] ∧
      readText "()\r\n(" = .error (.read ⟨.unmatchedOpen, ⟨3, 1⟩⟩) ∧
      readText ")\n(" = .error (.scan ⟨.unmatchedClose, .start⟩) := by
  refine ⟨?_, ?_, ?_⟩
  · exact (readText_joined "()\r" "()").1 [.nil] [.nil] (by rfl) (by rfl)
  · exact (readText_joined "()\r" "(").2.1 [.nil] _ (by rfl) (by rfl)
  · exact (readText_joined ")" "(").2.2 _ (by rfl) (fun _ h => nomatch h) (fun _ h => nomatch h)

end PairLisp
