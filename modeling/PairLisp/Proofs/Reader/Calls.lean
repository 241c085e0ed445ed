import PairLisp.Proofs.Reader.Procedures
import PairLisp.Proofs.Scanner.Calls

/-! # Reading on after faults

A call that fails may leave lists counted as open for good, and it still holds the token that it
read last, which the next call reads again. So an opening parenthesis can be counted more than once,
but never without characters being taken in between, since behind it no closing one is refused. The
end of the text, an invalid token and a list that would be too deep are held for good.
-/

namespace PairLisp
namespace Reader

open Token

variable {r t : Reader} {stuck : Nat} {lists : List OpenList} {p : Progress} {f : ReadFault}
  {result a : Except Fault (Option Expr)} {token : Token} {s : Scanner} {k n : Nat}

def after (n : Nat) (r : Reader) : Reader := (fun r => r.next.2)^[n] r

/-- What a call comes to that has `lists` open and `stuck` more from calls before it, and the reader
after it. -/
inductive Call (stuck : Nat) :
    List OpenList → Reader → Except Fault (Option Expr) → Reader → Prop where
  | answer {lists : List OpenList} {r : Reader} {a : Except Fault (Option Expr)} :
      look stuck lists r.token = .answer a →
        Call stuck lists r a { r with depth := stuck + lists.length }
  | fault {lists : List OpenList} {r : Reader} {p : Progress} {fault : ScanFault} {s : Scanner} :
      look stuck lists r.token = .more p → r.scanner.next = (.error fault, s) →
        Call stuck lists r (.error (.scan fault))
          ⟨r.token, s, stuck + max lists.length p.lists.length⟩
  | form {lists outer : List OpenList} {r : Reader} {e : Expr} {token : Token} {s : Scanner} :
      look stuck lists r.token = .more ⟨outer, some e⟩ → r.scanner.next = (.ok token, s) →
        Call stuck lists r (.ok (some e)) ⟨token, s, stuck⟩
  | more {lists inner : List OpenList} {r after : Reader} {token : Token} {s : Scanner}
      {a : Except Fault (Option Expr)} :
      look stuck lists r.token = .more ⟨inner, none⟩ → r.scanner.next = (.ok token, s) →
        Call stuck inner ⟨token, s, stuck⟩ a after → Call stuck lists r a after

theorem call_resume (stuck : Nat) (lists : List OpenList) (r : Reader) :
    Call stuck lists r (r.resume stuck lists).1 (r.resume stuck lists).2 := by
  generalize hn : r.size = n
  induction n using Nat.strongRecOn generalizing lists r with
  | ind n ih =>
    cases hlook : look stuck lists r.token with
    | answer a =>
      rw [resume_of_answer hlook]
      exact .answer hlook
    | more p =>
      obtain ⟨inner, form⟩ := p
      rcases hnext : r.scanner.next with ⟨fault | token, s⟩
      · rw [resume_of_fault hlook hnext]
        exact .fault hlook hnext
      · rw [resume_of_token (d := stuck) hlook hnext]
        cases form with
        | some e => exact .form hlook hnext
        | none =>
          have hsize := size_of_next (d := stuck) (ne_end_of_look hlook) hnext
          exact .more hlook hnext (ih _ (hn ▸ hsize) inner ⟨token, s, stuck⟩ rfl)

theorem call_next (r : Reader) : Call r.depth [] r r.next.1 r.next.2 := call_resume r.depth [] r

/-! ## Held tokens -/

theorem next_of_answer (h : look r.depth [] r.token = .answer a) : r.next = (a, r) :=
  resume_of_answer h

theorem read_of_look (h : look stuck lists token = .more p) : token.read stuck lists = .ok p := by
  rw [look, if_neg (ne_end_of_look h)] at h
  split at h
  · next hread =>
    cases h
    exact hread
  · cases h

theorem eq_nil_of_look {form : Option Expr} (h : look stuck lists token = .answer (.ok form)) :
    lists = [] := by
  rw [look] at h
  split at h
  · cases lists with
    | nil => rfl
    | cons => cases h
  · split at h <;> cases h

theorem refused_of_look (h : look stuck lists token = .answer (.error (.read f)))
    (hend : token.kind ≠ .endOfText) : token.read stuck lists = .error f := by
  rw [look, if_neg hend] at h
  split at h
  · cases h
  · next hread =>
    cases h
    exact hread

/-- A token that is refused, be it for lists of this call or of earlier ones, is refused again by a
call of its own, unless a full list was in its way. -/
theorem read_nil_of_refused (h : token.read stuck lists = .error f)
    (hend : token.kind ≠ .endOfText) : f.reason = .lengthOverflow ∨
      f.reason ≠ .unmatchedOpen ∧ token.read (stuck + lists.length) [] = .error f := by
  rcases token.classify with hkind | hblank | ⟨e, hleaf⟩ | hkind | hkind | hkind
  · exact absurd hkind hend
  · rw [read_of_isBlank hblank] at h
    cases h
  · rw [read_of_leaf? hleaf] at h
    rcases elementOf_eq_error h with hlength | hread
    · exact .inl hlength
    · cases hread
  · rw [read_of_leftParen hkind] at h
    refine (elementOf_eq_error h).imp_right fun hdeep => ?_
    split at hdeep
    · next hmax =>
      cases hdeep
      refine ⟨nofun, ?_⟩
      rw [read_of_leftParen hkind]
      exact if_pos hmax
    · cases hdeep
  · cases lists with
    | nil =>
      rw [read_of_unmatched hkind] at h
      cases h
      exact .inr ⟨nofun, read_of_unmatched hkind⟩
    | cons =>
      rw [read_of_rightParen hkind] at h
      cases h
  · rw [read_of_invalid hkind] at h
    refine (elementOf_eq_error h).imp_right fun hinvalid => ?_
    cases hinvalid
    exact ⟨nofun, read_of_invalid hkind⟩

/-! ## One call -/

/-- What a call is refused for holds for the token that is left: it is the end of the text behind an
open list, it would be an element of a full list, or it is refused for good. -/
theorem Call.refused (h : Call stuck lists r result t) (hresult : result = .error (.read f)) :
    (t.token.kind = .endOfText ∧ f.reason = .unmatchedOpen) ∨ f.reason = .lengthOverflow ∨
      (f.reason ≠ .unmatchedOpen ∧ look t.depth [] t.token = .answer (.error (.read f))) := by
  induction h with
  | @answer lists r a hlook =>
    subst hresult
    by_cases hend : r.token.kind = .endOfText
    · refine .inl ⟨hend, ?_⟩
      rw [look_of_end hend] at hlook
      cases lists with
      | nil => cases hlook
      | cons => cases hlook; rfl
    · exact .inr <| (read_nil_of_refused (refused_of_look hlook hend) hend).imp_right fun hread =>
        ⟨hread.1, look_of_refused hend hread.2⟩
  | fault | form => cases hresult
  | more _ _ _ ih => exact ih hresult

theorem Call.depth_of_ok {form : Option Expr} (h : Call stuck lists r result t)
    (hresult : result = .ok form) : t.depth = stuck := by
  induction h with
  | answer hlook =>
    subst hresult
    obtain rfl := eq_nil_of_look hlook
    rfl
  | fault => cases hresult
  | form => rfl
  | more _ _ _ ih => exact ih hresult

theorem Call.stuck_le (h : Call stuck lists r result t) : stuck ≤ t.depth := by
  induction h with
  | answer | fault => exact Nat.le_add_right _ _
  | form => exact Nat.le_refl _
  | more _ _ _ ih => exact ih

theorem open_of_look (h : look stuck lists token = .more p)
    (hopen : stuck + lists.length ≤ maxOpenLists) : stuck + p.lists.length ≤ maxOpenLists := by
  rcases read_eq_ok (read_of_look h) (ne_end_of_look h) with ⟨-, rfl⟩ | ⟨-, e, -, rfl⟩ |
    ⟨-, hlt, -, rfl⟩ | ⟨-, innermost, outer, rfl, rfl⟩
  · exact hopen
  · rwa [length_deliver]
  · exact hlt
  · rw [List.length_cons] at hopen
    rw [length_deliver]
    omega

theorem Call.depth_le (h : Call stuck lists r result t)
    (hopen : stuck + lists.length ≤ maxOpenLists) : t.depth ≤ maxOpenLists := by
  induction h with
  | answer => exact hopen
  | fault hlook =>
    have hopen' := open_of_look hlook hopen
    simp only
    omega
  | form => exact Nat.le_trans (Nat.le_add_right _ _) hopen
  | more hlook _ _ ih => exact ih (open_of_look hlook hopen)

/-- A scan that fails where the scanner stays is the only one that takes nothing. -/
theorem size_of_fault {fault : ScanFault} (h : r.scanner.next = (.error fault, s)) (d : Nat) :
    s = r.scanner ∨ size ⟨r.token, s, d⟩ < r.size := by
  have hrest : s = r.scanner ∨ s.rest.length < r.scanner.rest.length := by
    simpa [h] using r.scanner.next_eq_self_or_shorter
  refine hrest.imp_right fun hless => ?_
  simp only [size]
  omega

theorem Call.size_le (h : Call stuck lists r result t) : t.size ≤ r.size := by
  induction h with
  | answer => exact Nat.le_refl _
  | fault _ hnext =>
    rcases size_of_fault hnext _ with rfl | hless
    · exact Nat.le_refl _
    · exact Nat.le_of_lt hless
  | form hlook hnext => exact Nat.le_of_lt (size_of_next (ne_end_of_look hlook) hnext)
  | more hlook hnext _ ih =>
    exact Nat.le_of_lt (Nat.lt_of_le_of_lt ih (size_of_next (ne_end_of_look hlook) hnext))

/-- The scanner counts an opening parenthesis that is held. -/
def Counted (r : Reader) : Prop := r.token.kind = .leftParen → 0 < r.scanner.depth

theorem counted_of_next {s' : Scanner} (h : s.next = (.ok token, s')) (d : Nat) :
    Counted ⟨token, s', d⟩ := by
  intro hkind
  have hdepth : s'.depth = s.depth + 1 := by
    simpa [hkind] using Scanner.depth_of_next h (by rw [hkind]; nofun)
  show 0 < s'.depth
  omega

theorem Call.counted (h : Call stuck lists r result t) (hr : r.Counted) : t.Counted := by
  induction h with
  | answer => exact hr
  | fault _ hnext =>
    intro hkind
    rw [Scanner.depth_of_next_of_error hnext]
    exact hr hkind
  | form _ hnext => exact counted_of_next hnext _
  | more _ hnext _ ih => exact ih (counted_of_next hnext _)

/-- A parenthesis that is held leaves the scanner nothing to refuse for good. -/
theorem lists_eq_nil_of_look (hr : r.Counted) (hlook : look stuck [] r.token = .more p)
    {fault : ScanFault} (hnext : r.scanner.next = (.error fault, r.scanner)) : p.lists = [] := by
  rcases read_eq_ok (read_of_look hlook) (ne_end_of_look hlook) with ⟨-, rfl⟩ | ⟨-, e, -, rfl⟩ |
    ⟨-, -, hkind, -⟩ | ⟨-, innermost, outer, hcons, -⟩
  · rfl
  · rfl
  · have hpos := hr hkind
    have hsame : r.scanner.next.2 = r.scanner := by rw [hnext]
    rcases Scanner.rest_eq_nil_or_isBlocked hsame with hrest | hblocked
    · rw [Scanner.next_of_nil hrest] at hnext
      cases hnext
    · exact absurd hblocked.1 (Nat.ne_of_gt hpos)
  · cases hcons

/-- A call that takes no characters changes nothing at all. -/
theorem Call.eq_self_or_smaller (h : Call r.depth [] r result t) (hr : r.Counted) :
    t = r ∨ t.size < r.size := by
  cases h with
  | answer => exact .inl rfl
  | fault hlook hnext =>
    -- where the scan stays at its place no list was opened, so the number of lists stays too
    refine (size_of_fault hnext _).imp_left ?_
    rintro rfl
    rw [lists_eq_nil_of_look hr hlook hnext]
    rfl
  | form hlook hnext => exact .inr (size_of_next (ne_end_of_look hlook) hnext)
  | more hlook hnext hcall =>
    exact .inr (Nat.lt_of_le_of_lt hcall.size_le (size_of_next (ne_end_of_look hlook) hnext))

/-! ## Any number of calls -/

theorem of_ofText {text : String} (h : ofText text = .ok r) :
    r.depth = 0 ∧ r.Counted ∧ r.size ≤ text.length := by
  rw [ofText] at h
  split at h
  · next token s hnext =>
    cases h
    refine ⟨rfl, counted_of_next hnext 0, ?_⟩
    have hlength : (Scanner.ofText text).rest.length = text.length := String.length_toList
    rw [size, ← hlength]
    split
    · next hend =>
      have hrest := (Scanner.kind_eq_endOfText_iff hnext).1 hend
      rw [Scanner.next_of_nil hrest] at hnext
      cases hnext
      exact Nat.le_refl _
    · next hend => exact Scanner.rest_length_lt_of_next hnext hend
  · cases h

theorem after_succ (k : Nat) (r : Reader) : r.after (k + 1) = (r.after k).next.2 :=
  Function.iterate_succ_apply' _ k r

/-- A reader that a call leaves as it is gives the same ever after. -/
theorem next_after_of_fixed (h : (r.after k).next = (a, r.after k)) (hn : k ≤ n) :
    (r.after n).next = (a, r.after k) := by
  obtain ⟨m, rfl⟩ := Nat.exists_eq_add_of_le' hn
  rw [after, Function.iterate_add_apply, Function.iterate_fixed (congrArg Prod.snd h)]
  exact h

theorem invariant_after (hr : r.Counted) (hdepth : r.depth ≤ maxOpenLists) (k : Nat) :
    (r.after k).Counted ∧ (r.after k).depth ≤ maxOpenLists := by
  induction k with
  | zero => exact ⟨hr, hdepth⟩
  | succ k ih =>
    rw [after_succ]
    exact ⟨(call_next _).counted ih.1, (call_next _).depth_le ih.2⟩

end Reader

open Reader

/-- However often the reader of a text is called, the lists counted as open are never more than 128,
and its procedures neither go beyond that nor take one off zero. A call that does not fail leaves
their number as it was, and one that fails no smaller. After a list that is not closed there is
nothing more to read, and after an invalid token or lists too deep the same fault comes again for
good. After as many calls as the text has characters, all give the same. -/
theorem reader_settles (text : String) (r : Reader) (h : ofText text = .ok r) :
    (∀ k, (r.after k).depth ≤ 128 ∧
        ReadM.nextForm.runOn (r.after k) = some ((r.after k).next.1, r.after (k + 1))) ∧
      (∀ k form, (r.after k).next.1 = .ok form → (r.after (k + 1)).depth = (r.after k).depth) ∧
      (∀ k fault, (r.after k).next.1 = .error fault →
        (r.after k).depth ≤ (r.after (k + 1)).depth) ∧
      (∀ k p, (r.after k).next.1 = .error (.read ⟨.unmatchedOpen, p⟩) →
        ∀ n, k < n → (r.after n).next.1 = .ok none) ∧
      (∀ k f, (r.after k).next.1 = .error (.read f) →
        (∃ raw, f.reason = .invalidToken raw) ∨ f.reason = .depthOverflow →
        ∀ n, k < n → (r.after n).next.1 = .error (.read f)) ∧
      ∀ n, text.length ≤ n → (r.after n).next.1 = (r.after text.length).next.1 := by
  obtain ⟨hzero, hcounted, hsize⟩ := of_ofText h
  have hinvariant := invariant_after hcounted (hzero ▸ Nat.zero_le _)
  refine ⟨fun k => ⟨(hinvariant k).2, ?_⟩, fun k form hform => ?_, fun k fault _ => ?_,
    fun k p hopen n hn => ?_, fun k f hfault hreason n hn => ?_, fun n hn => ?_⟩
  · rw [after_succ]
    exact ReadM.runOn_nextForm _
  · rw [after_succ]
    exact (call_next _).depth_of_ok hform
  · rw [after_succ]
    exact (call_next _).stuck_le
  · have hrefused := (call_next (r.after k)).refused hopen
    rw [← after_succ] at hrefused
    rcases hrefused with ⟨hend, -⟩ | hreason | ⟨hreason, -⟩
    · rw [next_after_of_fixed (next_of_answer (look_of_end hend)) hn]
      rfl
    · cases hreason
    · exact absurd rfl hreason
  · have hrefused := (call_next (r.after k)).refused hfault
    rw [← after_succ] at hrefused
    rcases hrefused with ⟨-, hopen⟩ | hlength | ⟨-, hlook⟩
    · rw [hopen] at hreason
      simp at hreason
    · rw [hlength] at hreason
      simp at hreason
    · rw [next_after_of_fixed (next_of_answer hlook) hn]
  · obtain ⟨-, hsame⟩ := iterate_comes_to_rest (fun r : Reader => r.next.2) Counted size
      (fun r hr => (call_next r).counted hr) (fun r hr => (call_next r).eq_self_or_smaller hr)
      hcounted hsize hn
    rw [after, after, hsame]

/-- One parenthesis is entered twice over a number without digits, and one that closes nothing any
more is met after another such number. -/
theorem reader_settles_of_parentheses :
    (∃ r, ofText "(0x (" = .ok r ∧ (r.after 1).depth = 1 ∧
        (r.after 1).next.1 = .error (.read ⟨.unmatchedOpen, ⟨1, 5⟩⟩) ∧
        (r.after 2).depth = 3 ∧ (r.after 9).next.1 = .ok none) ∧
      ∃ r, ofText "(a 0x)" = .ok r ∧ (r.after 1).depth = 1 ∧
        (r.after 1).next.1 = .error (.read ⟨.invalidToken ")", ⟨1, 6⟩⟩) ∧
        (r.after 9).next.1 = .error (.read ⟨.invalidToken ")", ⟨1, 6⟩⟩) ∧
        "(a 0x)".length ≤ 9 ∧ (r.after 9).next.1 = (r.after 6).next.1 := by
  constructor
  · let r : Reader := ⟨⟨.leftParen, "(", .start⟩, (Scanner.ofText "(0x (").next.2, 0⟩
    have hfirst : ofText "(0x (" = .ok r := by rfl
    have hopen : (r.after 1).next.1 = .error (.read ⟨.unmatchedOpen, ⟨1, 5⟩⟩) := by rfl
    exact ⟨r, hfirst, by rfl, hopen, by rfl,
      (reader_settles _ r hfirst).2.2.2.1 1 _ hopen 9 (by decide)⟩
  · let r : Reader := ⟨⟨.leftParen, "(", .start⟩, (Scanner.ofText "(a 0x)").next.2, 0⟩
    have hfirst : ofText "(a 0x)" = .ok r := by rfl
    have hinvalid : (r.after 1).next.1 = .error (.read ⟨.invalidToken ")", ⟨1, 6⟩⟩) := by rfl
    obtain ⟨-, -, -, -, hagain, hrest⟩ := reader_settles _ r hfirst
    exact ⟨r, hfirst, by rfl, hinvalid, hagain 1 _ hinvalid (.inl ⟨_, rfl⟩) 9 (by decide),
      by decide, hrest 9 (by decide)⟩

end PairLisp
