import PairLisp.Proofs.Expr.Pieces
import PairLisp.Repl.Color
import PairLisp.Text.Numeral

/-! # Colors on the screen

A terminal shows the characters between the sequences that set and reset how they look, each in the
color that was set last. What it shows of a list form with colors is the list form without them:
the parentheses of lists have the color for the number of lists around them, and nothing else has
one, whatever parentheses there are inside leaves.
-/

namespace PairLisp

open PairLisp.Expr

namespace Repl

/-- A character on the screen, and the red, green and blue parts of its color if it has one. -/
structure Cell where
  char : Char
  color : Option (Nat × Nat × Nat)
  deriving Repr, DecidableEq

/-- The color that a sequence sets, from what stands between its escape character and its `m`; any
sequence that sets none takes the color back. -/
def colorOf : List Char → Option (Nat × Nat × Nat)
  | '[' :: parameters =>
    match (parameters.splitOn ';').map (Text.Numeral.value 10) with
    | [38, 2, r, g, b] => some (r, g, b)
    | _ => none
  | _ => none

/-- What is shown while `color` is set. Inside a sequence, `code` is what has come of it after its
escape character. -/
def shownFrom (color : Option (Nat × Nat × Nat)) (code : Option (List Char)) :
    List Char → List Cell
  | [] => []
  | c :: cs =>
    match code with
    | some code =>
      if c = 'm' then shownFrom (colorOf code) none cs
      else shownFrom color (some (code ++ [c])) cs
    | none =>
      if c = '\x1b' then shownFrom color (some []) cs else ⟨c, color⟩ :: shownFrom color none cs

/-- What a terminal shows of a text. -/
def shown (text : String) : List Cell := shownFrom none none text.toList

variable {color : Option (Nat × Nat × Nat)} {cs rest : List Char}

theorem shownFrom_plain (h : '\x1b' ∉ cs) :
    shownFrom color none (cs ++ rest) = cs.map (⟨·, color⟩) ++ shownFrom color none rest := by
  induction cs with
  | nil => rfl
  | cons c cs ih =>
    rw [List.mem_cons, not_or] at h
    rw [List.cons_append, shownFrom, if_neg (Ne.symm h.1), ih h.2, List.map_cons, List.cons_append]

theorem shownFrom_code (code : List Char) (h : 'm' ∉ cs) :
    shownFrom color (some code) (cs ++ 'm' :: rest) =
      shownFrom (colorOf (code ++ cs)) none rest := by
  induction cs generalizing code with
  | nil => simp [shownFrom]
  | cons c cs ih =>
    rw [List.mem_cons, not_or] at h
    rw [List.cons_append, shownFrom, if_neg (Ne.symm h.1), ih _ h.2, ← List.append_cons]

theorem toList_decorate (code text : String) : (decorate code text).toList =
    '\x1b' :: ('[' :: code.toList ++ 'm' :: (text.toList ++ '\x1b' :: ['[', '0', 'm'])) := by
  show ("\x1b[" ++ code ++ "m" ++ text ++ "\x1b[0m").toList = _
  simp

theorem shownFrom_decorate {code text : String} (hcode : 'm' ∉ code.toList)
    (htext : '\x1b' ∉ text.toList) :
    shownFrom color none ((decorate code text).toList ++ rest) =
      text.toList.map (⟨·, colorOf ('[' :: code.toList)⟩) ++ shownFrom none none rest := by
  have hreset :
      shownFrom (colorOf ('[' :: code.toList)) none ('\x1b' :: '[' :: '0' :: 'm' :: rest) =
        shownFrom none none rest := rfl
  have hset : 'm' ∉ '[' :: code.toList := by simpa using hcode
  rw [toList_decorate]
  simp only [List.cons_append, List.append_assoc, List.nil_append]
  rw [shownFrom, if_pos rfl, ← List.cons_append, shownFrom_code [] hset, List.nil_append,
    shownFrom_plain htext, hreset]

/-- What is shown of a piece of a list form. -/
def cells : ListPiece → List Cell
  | .paren p depth => p.text.toList.map (⟨·, some (parenColor (depth % 6))⟩)
  | piece => (piece.text .readable).toList.map (⟨·, none⟩)

theorem map_char_cells (piece : ListPiece) :
    (cells piece).map Cell.char = (piece.text .readable).toList := by
  cases piece with
  | paren p depth => simp [cells, Function.comp_def]; rfl
  | leaf | space | point => simp [cells, Function.comp_def]

/-- The code for the color at a depth, as the parentheses at that depth are decorated with it. -/
def parenCode (depth : Nat) : String :=
  let (r, g, b) := parenColor depth
  s!"38;2;{r};{g};{b}"

theorem paren_coloredStyle (p : Paren) (depth : Nat) :
    coloredStyle.paren p depth = decorate (parenCode depth) p.text := rfl

theorem parenColor_mod (depth : Nat) : parenColor (depth % 6) = parenColor depth := by
  rw [parenColor, Nat.mod_mod, parenColor]

theorem colorOf_parenCode (depth : Nat) : 'm' ∉ (parenCode depth).toList ∧
    colorOf ('[' :: (parenCode depth).toList) = some (parenColor (depth % 6)) := by
  have hsix : ∀ i < 6, 'm' ∉ (parenCode i).toList ∧
      colorOf ('[' :: (parenCode i).toList) = some (parenColor i) := by
    decide +kernel
  have hcode : parenCode (depth % 6) = parenCode depth := by
    rw [parenCode, parenColor_mod, parenCode]
  rw [← hcode]
  exact hsix _ (Nat.mod_lt _ (by decide))

theorem shownFrom_paren (p : Paren) (depth : Nat) :
    shownFrom none none ((coloredStyle.paren p depth).toList ++ rest) =
      cells (.paren p depth) ++ shownFrom none none rest := by
  obtain ⟨hcode, hcolor⟩ := colorOf_parenCode depth
  have htext : '\x1b' ∉ p.text.toList := by cases p <;> decide +kernel
  rw [paren_coloredStyle, shownFrom_decorate hcode htext, hcolor, cells]

/-- With colors, the pieces of a list form are shown one after the other. -/
theorem shownFrom_chars {ps : List ListPiece}
    (h : ∀ leaf ∈ ps.filterMap ListPiece.leaf?, '\x1b' ∉ leaf.leafText.toList) :
    shownFrom none none (ListPiece.chars coloredStyle ps) = ps.flatMap cells := by
  induction ps with
  | nil => rfl
  | cons piece ps ih =>
    rw [ListPiece.chars_cons, List.flatMap_cons]
    cases piece with
    | paren p depth => rw [ListPiece.text_paren, shownFrom_paren, ih h]
    | leaf e depth =>
      obtain ⟨hleaf, hrest⟩ := List.forall_mem_cons.1 h
      have htext : '\x1b' ∉ (coloredStyle.leaf e depth).toList := hleaf
      rw [ListPiece.text_leaf, shownFrom_plain htext, ih hrest]
      rfl
    | space | point => rw [shownFrom_plain (by decide +kernel), ih h]; rfl

/-- Colors only decorate. Without them the readable form is written. With them a terminal shows the
characters of the readable form, those of its leaves in no color and the parentheses of each list in
the color for the number of lists around it. -/
theorem rendered_decorates (e : Expr) (h : ∀ leaf ∈ e.leaves, '\x1b' ∉ leaf.leafText.toList) :
    rendered false e = e.readable ∧
      (shown (rendered true e)).map Cell.char = e.readable.toList ∧
      shown (rendered true e) = (e.pieces 0).flatMap cells ∧
      (e.pieces 0).filterMap ListPiece.leaf? = e.leaves ∧
      ListPiece.openBehind 0 (e.pieces 0) = some 0 ∧
      (∀ p k, .paren p k ∈ e.pieces 0 → ∃ l, e.HasList k l) ∧
      ∀ k l, e.HasList k l → l.pieces k <:+: e.pieces 0 ∧
        ListPiece.chars .readable (l.pieces k) = l.readable.toList ∧
        ∃ inner, l.pieces k = .paren .opening k :: (inner ++ [.paren .closing k]) ∧
          ListPiece.openBehind (k + 1) inner = some (k + 1) := by
  have hleaves : (e.pieces 0).filterMap ListPiece.leaf? = e.leaves := filterMap_leaf?_pieces 0 e
  have hshown : shown (rendered true e) = (e.pieces 0).flatMap cells := by
    rw [shown, rendered, if_pos rfl, toList_listing_eq_chars]
    exact shownFrom_chars (hleaves ▸ h)
  refine ⟨rfl, ?_, hshown, hleaves, openBehind_pieces 0 e, fun p k hmem => ?_, fun k l hl => ?_⟩
  · rw [hshown, readable, toList_listing_eq_chars, List.map_flatMap]
    simp only [map_char_cells]
    rfl
  · obtain ⟨j, l, hl, rfl⟩ := exists_hasList_of_paren_mem hmem
    exact ⟨l, by rwa [Nat.zero_add]⟩
  · refine ⟨by simpa using hl.infix_pieces 0, ?_, pieces_eq_of_isPair k hl.isPair_inner⟩
    rw [← toList_listing_eq_chars, readable, ListStyle.readable_eq_plain, toList_listing,
      toList_listing]

/-- A symbol and a string with parentheses in them, in a list that is the head of an improper
list. -/
theorem rendered_decorates_nested :
    let e : Expr := .pair (.pair (.symbol "a)") (.pair (.string "(") .nil)) (.int 1)
    (∀ leaf ∈ e.leaves, '\x1b' ∉ leaf.leafText.toList) ∧
      e.readable = "( ( a) \"(\" ) . 1 )" ∧
      shown (rendered true e) = (e.pieces 0).flatMap cells ∧
      (shown (rendered true e)).filterMap (fun cell => cell.color.map (cell.char, ·)) =
        [('(', 0, 255, 204), ('(', 204, 51, 0), (')', 204, 51, 0), (')', 0, 255, 204)] := by
  intro e
  have h : ∀ leaf ∈ e.leaves, '\x1b' ∉ leaf.leafText.toList := by
    simp only [e, leaves, leavesFrom]
    decide +kernel
  obtain ⟨-, -, hshown, -⟩ := rendered_decorates e h
  exact ⟨h, by decide +kernel, hshown, by decide +kernel⟩

end Repl
end PairLisp
