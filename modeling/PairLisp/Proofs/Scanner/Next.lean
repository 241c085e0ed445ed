import PairLisp.Proofs.Scanner.Cut

/-! # One call of the scanner

A call gives the end of the text exactly when nothing is left, and otherwise cuts a piece off. A
token takes its own characters off the front, moves the place by them and changes the depth by what
it opens or closes.
-/

namespace PairLisp

theorem Token.Content.kind_eq_endOfText {content : Token.Content} :
    content.kind = .endOfText ↔ content = .endOfText := by
  cases content <;> simp [kind]

theorem Token.Content.kind_eq_rightParen {content : Token.Content} :
    content.kind = .rightParen ↔ content = .rightParen := by
  cases content <;> simp [kind]

theorem Token.Content.kind_eq_invalid {content : Token.Content} :
    content.kind = .invalid ↔ content = .invalid := by
  cases content <;> simp [kind]

namespace Scanner

variable {s t : Scanner} {token : Token}

/-- The place that a call of the scanner reports. -/
def place : Except ScanFault Token → Position
  | .ok token => token.position
  | .error fault => fault.position

theorem next_of_nil (h : s.rest = []) : s.next = (.ok ⟨.endOfText, "", s.position⟩, s) := by
  rw [next, h]

theorem next_of_ok {c : Char} {cs : List Char} {content : Token.Content} (h : s.rest = c :: cs)
    (hout : (piece s.depth c cs).outcome = .ok content) :
    s.next = (.ok ⟨content, String.ofList (piece s.depth c cs).raw, s.position⟩,
      ⟨(piece s.depth c cs).rest, s.position.advance (piece s.depth c cs).raw,
        depthAfter s.depth (.ok content)⟩) := by
  simp only [next, h, hout]

theorem next_of_error {c : Char} {cs : List Char} {reason : ScanReason} (h : s.rest = c :: cs)
    (hout : (piece s.depth c cs).outcome = .error reason) :
    s.next = (.error ⟨reason, s.position⟩,
      ⟨(piece s.depth c cs).rest, s.position.advance (piece s.depth c cs).raw, s.depth⟩) := by
  simp only [next, h, hout, depthAfter]

theorem exists_piece_of_next (h : s.next = (.ok token, t)) (hkind : token.kind ≠ .endOfText) :
    ∃ c cs, s.rest = c :: cs ∧ (piece s.depth c cs).outcome = .ok token.content ∧
      token.raw = String.ofList (piece s.depth c cs).raw ∧ token.position = s.position ∧
      t = ⟨(piece s.depth c cs).rest, s.position.advance (piece s.depth c cs).raw,
        depthAfter s.depth (.ok token.content)⟩ := by
  cases hrest : s.rest with
  | nil =>
    rw [next_of_nil hrest] at h
    cases h
    exact absurd rfl hkind
  | cons c cs =>
    cases hout : (piece s.depth c cs).outcome with
    | error reason =>
      rw [next_of_error hrest hout] at h
      cases h
    | ok content =>
      rw [next_of_ok hrest hout] at h
      cases h
      exact ⟨c, cs, rfl, hout, rfl, rfl, rfl⟩

theorem exists_piece_of_next_error {fault : ScanFault} (h : s.next = (.error fault, t)) :
    ∃ c cs, s.rest = c :: cs ∧ (piece s.depth c cs).outcome = .error fault.reason ∧
      fault.position = s.position := by
  cases hrest : s.rest with
  | nil =>
    rw [next_of_nil hrest] at h
    cases h
  | cons c cs =>
    cases hout : (piece s.depth c cs).outcome with
    | error reason =>
      rw [next_of_error hrest hout] at h
      cases h
      exact ⟨c, cs, rfl, hout, rfl⟩
    | ok content =>
      rw [next_of_ok hrest hout] at h
      cases h

theorem place_of_next {r : Except ScanFault Token} (h : s.next = (r, t)) :
    place r = s.position := by
  cases hrest : s.rest with
  | nil =>
    rw [next_of_nil hrest] at h
    cases h
    rfl
  | cons c cs =>
    cases hout : (piece s.depth c cs).outcome with
    | error reason =>
      rw [next_of_error hrest hout] at h
      cases h
      rfl
    | ok content =>
      rw [next_of_ok hrest hout] at h
      cases h
      rfl

theorem kind_eq_endOfText_iff (h : s.next = (.ok token, t)) :
    token.kind = .endOfText ↔ s.rest = [] := by
  constructor
  · intro hkind
    cases hrest : s.rest with
    | nil => rfl
    | cons c cs =>
      have hne := piece_outcome_ne_endOfText s.depth c cs
      cases hout : (piece s.depth c cs).outcome with
      | error reason =>
        rw [next_of_error hrest hout] at h
        cases h
      | ok content =>
        rw [next_of_ok hrest hout] at h
        cases h
        exact absurd (hout.trans (congrArg _ (Token.Content.kind_eq_endOfText.1 hkind))) hne
  · intro hrest
    rw [next_of_nil hrest] at h
    cases h
    rfl

theorem rest_eq_of_next (h : s.next = (.ok token, t)) (hkind : token.kind ≠ .endOfText) :
    s.rest = token.raw.toList ++ t.rest ∧ t.position = s.position.advance token.raw.toList := by
  obtain ⟨c, cs, hrest, -, hraw, -, rfl⟩ := exists_piece_of_next h hkind
  rw [hraw, String.toList_ofList, hrest, piece_raw_append_rest]
  exact ⟨rfl, rfl⟩

theorem rest_length_lt_of_next (h : s.next = (.ok token, t)) (hkind : token.kind ≠ .endOfText) :
    t.rest.length < s.rest.length := by
  obtain ⟨c, cs, hrest, hout, -, -, rfl⟩ := exists_piece_of_next h hkind
  rw [hrest]
  exact piece_rest_length_lt (by simp [hout])

/-- A closing parenthesis is given only if there is something to close. -/
theorem piece_rightParen {depth : Nat} {c : Char} {cs : List Char}
    (h : (piece depth c cs).outcome = .ok .rightParen) : 0 < depth := by
  have hcut := cuts_piece depth c cs
  generalize piece depth c cs = p at h hcut
  cases hcut with
  | rightParen _ hdepth => exact hdepth
  | _ => cases h

theorem piece_invalid {depth : Nat} {c : Char} {cs : List Char}
    (h : (piece depth c cs).outcome = .ok .invalid) :
    (piece depth c cs).raw = [c] ∧ c ≠ ')' := by
  have hcut := cuts_piece depth c cs
  generalize piece depth c cs = p at h hcut
  cases hcut with
  | invalid hclose => exact ⟨rfl, hclose⟩
  | _ => cases h

theorem depth_of_next (h : s.next = (.ok token, t)) (hkind : token.kind ≠ .endOfText) :
    t.depth + (if token.kind = .rightParen then 1 else 0) =
      s.depth + if token.kind = .leftParen then 1 else 0 := by
  obtain ⟨c, cs, -, hout, -, -, rfl⟩ := exists_piece_of_next h hkind
  rw [Token.kind]
  cases hcontent : token.content with
  | rightParen =>
    have hpos := piece_rightParen (hout.trans (congrArg _ hcontent))
    simp only [depthAfter, Token.Content.kind, if_true]
    simp
    omega
  | leftParen => simp [depthAfter, Token.Content.kind]
  | _ => simp [depthAfter, Token.Content.kind]

end Scanner
end PairLisp
