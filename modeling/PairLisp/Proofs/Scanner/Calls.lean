import Mathlib.Logic.Function.Iterate
import PairLisp.Proofs.Scanner.Run

/-! # Calls that go on after faults

A scanner can be called again whatever came of the last call. Two states stay as they are, the end
of the text and a closing parenthesis with nothing to close; from any other a call takes at least
one character, be it for a token or for a fault. So calls come to rest within the length of the
text, and the depth counts the parentheses that were given all the way there.
-/

namespace PairLisp

/-- Steps that lower a measure wherever they change anything have come to rest after as many as the
measure allows. -/
theorem iterate_comes_to_rest {α : Type} (f : α → α) (I : α → Prop) (μ : α → Nat)
    (hkeep : ∀ a, I a → I (f a)) (hstep : ∀ a, I a → f a = a ∨ μ (f a) < μ a) {a : α} (ha : I a)
    {m n : Nat} (hm : μ a ≤ m) (hn : m ≤ n) :
    f (f^[m] a) = f^[m] a ∧ f^[n] a = f^[m] a := by
  have hrest : f (f^[m] a) = f^[m] a := by
    clear hn
    induction m generalizing a with
    | zero => exact (hstep a ha).resolve_right (by omega)
    | succ m ih =>
      rcases hstep a ha with hsame | hless
      · rw [Function.iterate_fixed hsame, hsame]
      · rw [Function.iterate_succ_apply]
        exact ih (hkeep a ha) (by omega)
  obtain ⟨k, rfl⟩ := Nat.exists_eq_add_of_le' hn
  rw [Function.iterate_add_apply, Function.iterate_fixed hrest]
  exact ⟨hrest, rfl⟩

namespace Scanner

variable {s t : Scanner} {depth n : Nat} {c : Char} {cs : List Char}

def after (n : Nat) (s : Scanner) : Scanner := (fun s => s.next.2)^[n] s

/-- The tokens that `n` calls give. -/
def tokensBy (n : Nat) (s : Scanner) : List Token := Token.among ((s.take n).map Prod.fst)

/-- A closing parenthesis is next, and nothing is open that it could close. -/
def IsBlocked (s : Scanner) : Prop := s.depth = 0 ∧ ∃ cs, s.rest = ')' :: cs

theorem after_succ (n : Nat) (s : Scanner) : s.after (n + 1) = s.next.2.after n := rfl

/-! ## One call -/

theorem piece_unmatchedClose_iff :
    (piece depth c cs).outcome = .error .unmatchedClose ↔ depth = 0 ∧ c = ')' := by
  constructor
  · have hcut := cuts_piece depth c cs
    generalize piece depth c cs = p at hcut
    intro h
    cases hcut with
    | unmatchedClose hclose hdepth => exact ⟨hdepth, hclose⟩
    | _ => cases h
  · rintro ⟨rfl, rfl⟩
    rfl

theorem next_of_isBlocked (h : s.IsBlocked) :
    s.next = (.error ⟨.unmatchedClose, s.position⟩, s) := by
  obtain ⟨hdepth, cs, hrest⟩ := h
  have hout : (piece s.depth ')' cs).outcome = .error .unmatchedClose :=
    piece_unmatchedClose_iff.2 ⟨hdepth, rfl⟩
  have hpiece : piece s.depth ')' cs = ⟨[], s.rest, .error .unmatchedClose⟩ := by
    rw [hdepth, hrest]
    rfl
  rw [next_of_error hrest hout, hpiece]
  rfl

theorem unmatchedClose_iff_isBlocked :
    (∃ p, s.next.1 = .error ⟨.unmatchedClose, p⟩) ↔ s.IsBlocked := by
  constructor
  · rintro ⟨p, h⟩
    obtain ⟨c, cs, hrest, hout, -⟩ := exists_piece_of_next_error (Prod.ext h rfl)
    obtain ⟨hdepth, rfl⟩ := piece_unmatchedClose_iff.1 hout
    exact ⟨hdepth, cs, hrest⟩
  · intro h
    rw [next_of_isBlocked h]
    exact ⟨_, rfl⟩

theorem endOfText_iff_rest_eq_nil :
    (∃ token, s.next.1 = .ok token ∧ token.kind = .endOfText) ↔ s.rest = [] := by
  constructor
  · rintro ⟨token, h, hkind⟩
    exact (kind_eq_endOfText_iff (Prod.ext h rfl)).1 hkind
  · intro h
    rw [next_of_nil h]
    exact ⟨_, rfl, rfl⟩

/-- In these two states a call changes nothing. -/
theorem next_eq_self (h : s.rest = [] ∨ s.IsBlocked) : s.next.2 = s := by
  rcases h with h | h
  · rw [next_of_nil h]
  · rw [next_of_isBlocked h]

/-- In any other state a call takes characters, even if it fails. -/
theorem exists_taken (hrest : s.rest ≠ []) (hblocked : ¬s.IsBlocked) :
    ∃ taken, taken ≠ [] ∧ s.rest = taken ++ s.next.2.rest := by
  obtain ⟨c, cs, hcons⟩ := List.exists_cons_of_ne_nil hrest
  have hout : (piece s.depth c cs).outcome ≠ .error .unmatchedClose := by
    intro hout
    obtain ⟨hdepth, rfl⟩ := piece_unmatchedClose_iff.1 hout
    exact hblocked ⟨hdepth, cs, hcons⟩
  refine ⟨(piece s.depth c cs).raw, piece_raw_ne_nil hout, ?_⟩
  rw [next, hcons]
  exact (piece_raw_append_rest s.depth c cs).symm

theorem next_eq_self_or_shorter (s : Scanner) :
    s.next.2 = s ∨ s.next.2.rest.length < s.rest.length := by
  by_cases h : s.rest = [] ∨ s.IsBlocked
  · exact .inl (next_eq_self h)
  · rw [not_or] at h
    obtain ⟨taken, hne, hrest⟩ := exists_taken h.1 h.2
    have hlength := congrArg List.length hrest
    have hpos := List.length_pos_iff.2 hne
    rw [List.length_append] at hlength
    exact .inr (by omega)

theorem depth_of_next_of_error {fault : ScanFault} (h : s.next = (.error fault, t)) :
    t.depth = s.depth := by
  obtain ⟨c, cs, hrest, hout, -⟩ := exists_piece_of_next_error h
  rw [next_of_error hrest hout] at h
  obtain rfl := (Prod.mk.inj h).2
  rfl

theorem depth_next (s : Scanner) :
    s.next.2.depth + Token.closes (Token.among [s.next.1]) =
      s.depth + Token.opens (Token.among [s.next.1]) := by
  rcases hnext : s.next with ⟨fault | token, t⟩
  · rw [depth_of_next_of_error hnext]
    rfl
  · rw [show Token.among [.ok token] = [token] from rfl]
    by_cases hend : token.kind = .endOfText
    · rw [next_of_nil ((kind_eq_endOfText_iff hnext).1 hend)] at hnext
      cases hnext
      rfl
    · have hdepth := depth_of_next hnext hend
      simpa using hdepth

/-! ## Any number of calls -/

theorem tokensBy_succ (n : Nat) (s : Scanner) :
    s.tokensBy (n + 1) = Token.among [s.next.1] ++ s.next.2.tokensBy n :=
  Token.among_append [s.next.1] _

/-- The depth counts what all calls so far opened and closed. -/
theorem depth_after (n : Nat) (s : Scanner) :
    (s.after n).depth + Token.closes (s.tokensBy n) = s.depth + Token.opens (s.tokensBy n) := by
  induction n generalizing s with
  | zero => rfl
  | succ n ih =>
    have hfirst := depth_next s
    have hrest := ih s.next.2
    rw [after_succ, tokensBy_succ, Token.closes_append, Token.opens_append]
    omega

/-- After as many calls as characters are left, no call changes anything. -/
theorem after_comes_to_rest {m : Nat} (hm : s.rest.length ≤ m) (hn : m ≤ n) :
    (s.after m).next.2 = s.after m ∧ s.after n = s.after m :=
  iterate_comes_to_rest (fun s => s.next.2) (fun _ => True) (fun s => s.rest.length)
    (fun _ h => h) (fun s _ => next_eq_self_or_shorter s) trivial hm hn

theorem rest_eq_nil_or_isBlocked (h : s.next.2 = s) : s.rest = [] ∨ s.IsBlocked := by
  by_contra hother
  rw [not_or] at hother
  obtain ⟨taken, hne, hrest⟩ := exists_taken hother.1 hother.2
  rw [h] at hrest
  exact hne (List.self_eq_append_left.1 hrest)

end Scanner

open Scanner

/-- However often the scanner of a text is called, the depth is the number of opening parentheses
given so far less that of closing ones, of which none is given where nothing is open. In any state a
call gives the end of the text exactly if nothing is left and refuses a closing parenthesis exactly
if one is next and nothing is open, and both change nothing; every other call takes characters off.
So after as many calls as the text has characters it is one of these two, for good. -/
theorem scanner_settles (text : String) :
    (∀ n, ((ofText text).after n).depth + Token.closes ((ofText text).tokensBy n) =
        Token.opens ((ofText text).tokensBy n)) ∧
      (∀ n token, ((ofText text).after n).next.1 = .ok token → token.kind = .rightParen →
        0 < ((ofText text).after n).depth) ∧
      (∀ s : Scanner,
        ((∃ token, s.next.1 = .ok token ∧ token.kind = .endOfText) ↔ s.rest = []) ∧
          ((∃ p, s.next.1 = .error ⟨.unmatchedClose, p⟩) ↔ s.IsBlocked) ∧
          (s.rest = [] ∨ s.IsBlocked → s.next.2 = s) ∧
          (¬(s.rest = [] ∨ s.IsBlocked) →
            ∃ taken, taken ≠ [] ∧ s.rest = taken ++ s.next.2.rest)) ∧
      ∀ n, text.length ≤ n →
        ((ofText text).after n).next = ((ofText text).after text.length).next ∧
          (((ofText text).after n).rest = [] ∨ ((ofText text).after n).IsBlocked) := by
  refine ⟨fun n => ?_, fun n token h hkind => ?_, fun s => ?_, fun n hn => ?_⟩
  · have hdepth := depth_after n (ofText text)
    rwa [show (ofText text).depth = 0 from rfl, Nat.zero_add] at hdepth
  · obtain ⟨c, cs, -, hout, -⟩ := exists_piece_of_next (Prod.ext h rfl) (by simp [hkind])
    rw [Token.Content.kind_eq_rightParen.1 hkind] at hout
    exact piece_rightParen hout
  · exact ⟨endOfText_iff_rest_eq_nil, unmatchedClose_iff_isBlocked, next_eq_self,
      fun h => exists_taken (not_or.1 h).1 (not_or.1 h).2⟩
  · have hlength : (ofText text).rest.length ≤ text.length := Nat.le_of_eq String.length_toList
    obtain ⟨hrest, hsame⟩ := after_comes_to_rest hlength hn
    rw [hsame]
    exact ⟨rfl, rest_eq_nil_or_isBlocked hrest⟩

/-- A number without digits is skipped, and the second closing parenthesis is met over and over. -/
theorem scanner_settles_of_parentheses :
    (∃ token, ((ofText "(0x))").after 2).next.1 = .ok token ∧ token.kind = .rightParen ∧
        0 < ((ofText "(0x))").after 2).depth) ∧
      (¬(((ofText "(0x))").after 1).rest = [] ∨ ((ofText "(0x))").after 1).IsBlocked) ∧
        ∃ taken, taken ≠ [] ∧ ((ofText "(0x))").after 1).rest =
          taken ++ ((ofText "(0x))").after 1).next.2.rest) ∧
      (((ofText "(0x))").after 3).IsBlocked ∧
        ((ofText "(0x))").after 3).next.2 = (ofText "(0x))").after 3) ∧
      "(0x))".length ≤ 9 ∧
        ((ofText "(0x))").after 9).next = ((ofText "(0x))").after 5).next := by
  obtain ⟨-, hclose, hcall, hrest⟩ := scanner_settles "(0x))"
  have hnext : ((ofText "(0x))").after 2).next.1 = .ok ⟨.rightParen, ")", ⟨1, 4⟩⟩ := by rfl
  have hfront : ((ofText "(0x))").after 1).rest = ['0', 'x', ')', ')'] := by rfl
  have hmoves : ¬(((ofText "(0x))").after 1).rest = [] ∨ ((ofText "(0x))").after 1).IsBlocked) := by
    rintro (hnil | ⟨-, cs, hcs⟩)
    · rw [hfront] at hnil
      cases hnil
    · rw [hfront] at hcs
      cases hcs
  have hblocked : ((ofText "(0x))").after 3).IsBlocked := ⟨by rfl, [], by rfl⟩
  exact ⟨⟨_, hnext, rfl, hclose 2 _ hnext rfl⟩, ⟨hmoves, (hcall _).2.2.2 hmoves⟩,
    ⟨hblocked, (hcall _).2.2.1 (.inr hblocked)⟩, by decide, (hrest 9 (by decide)).1⟩

end PairLisp
