import PairLisp.Proofs.Expr.Listing

/-! # The pieces of the list form

Every style writes the same pieces in the same order: parentheses, leaves, spaces and the point
before an improper tail. A parenthesis carries the number of lists around its own, which is also
the number of lists that are open to its left, its own aside. So what a style makes of parentheses
and leaves can be told piece by piece.
-/

namespace PairLisp

/-- A piece of the list form; parentheses and leaves come with the number of lists around them. -/
inductive ListPiece where
  | paren (p : Paren) (depth : Nat)
  | leaf (e : Expr) (depth : Nat)
  | space
  | point

namespace ListPiece

def text (style : ListStyle) : ListPiece → String
  | paren p depth => style.paren p depth
  | leaf e depth => style.leaf e depth
  | space => " "
  | point => ". "

def chars (style : ListStyle) (ps : List ListPiece) : List Char :=
  ps.flatMap fun piece => (piece.text style).toList

def leaf? : ListPiece → Option Expr
  | leaf e _ => some e
  | _ => none

/-- The number of open lists behind some pieces that stand inside `n` open lists, provided that each
parenthesis carries the number of open lists around its own. -/
def openBehind (n : Nat) : List ListPiece → Option Nat
  | [] => some n
  | paren .opening depth :: ps => if depth = n then openBehind (n + 1) ps else none
  | paren .closing depth :: ps => if depth + 1 = n then openBehind depth ps else none
  | _ :: ps => openBehind n ps

variable {style : ListStyle} {n depth : Nat} {e : Expr} {p : Paren} {ps qs : List ListPiece}

@[simp] theorem chars_nil : chars style [] = [] := rfl

@[simp] theorem chars_cons {piece : ListPiece} :
    chars style (piece :: ps) = (piece.text style).toList ++ chars style ps := rfl

@[simp] theorem chars_append : chars style (ps ++ qs) = chars style ps ++ chars style qs :=
  List.flatMap_append

@[simp] theorem text_paren : (paren p depth).text style = style.paren p depth := rfl

@[simp] theorem text_leaf : (leaf e depth).text style = style.leaf e depth := rfl

@[simp] theorem text_space : space.text style = " " := rfl

@[simp] theorem text_point : point.text style = ". " := rfl

@[simp] theorem leaf?_paren : (paren p depth).leaf? = none := rfl

@[simp] theorem leaf?_leaf : (leaf e depth).leaf? = some e := rfl

@[simp] theorem leaf?_space : space.leaf? = none := rfl

@[simp] theorem leaf?_point : point.leaf? = none := rfl

@[simp] theorem openBehind_nil : openBehind n [] = some n := rfl

@[simp] theorem openBehind_opening :
    openBehind n (paren .opening n :: ps) = openBehind (n + 1) ps := by
  simp [openBehind]

@[simp] theorem openBehind_closing :
    openBehind (n + 1) (paren .closing n :: ps) = openBehind n ps := by
  simp [openBehind]

@[simp] theorem openBehind_leaf : openBehind n (leaf e depth :: ps) = openBehind n ps := rfl

@[simp] theorem openBehind_space : openBehind n (space :: ps) = openBehind n ps := rfl

@[simp] theorem openBehind_point : openBehind n (point :: ps) = openBehind n ps := rfl

end ListPiece

open ListPiece (chars leaf? openBehind)

namespace Expr

/-- The pieces of a list at `depth`, from some cdr of it on. -/
def restPieces (depth : Nat) : Expr → List ListPiece
  | nil => [.paren .closing depth]
  | pair a d =>
    (if a.isPair then
      .paren .opening (depth + 1) :: .space ::
        (a.restPieces (depth + 1) ++ if d.isNil then [] else [.space])
      else [.leaf a depth, .space]) ++ d.restPieces depth
  | tail => [.point, .leaf tail depth, .space, .paren .closing depth]

def pieces (depth : Nat) (e : Expr) : List ListPiece :=
  if e.isPair then .paren .opening depth :: .space :: e.restPieces depth else [.leaf e depth]

/-- A list in an expression, with `k` lists around it. -/
inductive HasList : Expr → Nat → Expr → Prop where
  | here {l : Expr} : l.isPair = true → HasList l 0 l
  | element {e a l : Expr} {k : Nat} : (a, true) ∈ e.items → HasList a k l → HasList e (k + 1) l

variable {style : ListStyle} {depth n k : Nat} {e l : Expr} {ps : List ListPiece}

theorem pieces_pair (a d : Expr) : (pair a d).pieces depth =
    .paren .opening depth :: .space :: (pair a d).restPieces depth := rfl

theorem pieces_of_not_isPair (h : e.isPair = false) : e.pieces depth = [.leaf e depth] := by
  rw [pieces, h, if_neg Bool.false_ne_true]

/-- An element of a list has its own pieces, with a space behind them unless it is a list at the
end. -/
theorem restPieces_pair (a d : Expr) : (pair a d).restPieces depth =
    a.pieces (if a.isPair then depth + 1 else depth) ++
      ((if a.isPair = true ∧ d.isNil = true then [] else [.space]) ++ d.restPieces depth) := by
  rw [restPieces, pieces]
  cases a.isPair <;> cases d.isNil <;> simp

/-! ## Writing -/

theorem toList_writeRest_eq_chars (out : String) (e : Expr) :
    (writeRest style depth out e).toList = out.toList ++ chars style (e.restPieces depth) := by
  induction e generalizing depth out with
  | nil => simp [writeRest, restPieces]
  | pair a d iha ihd =>
    rw [writeRest, ihd, restPieces]
    cases a.isPair with
    | true => cases d.isNil <;> simp [iha]
    | false => simp
  | symbol | atom | native => simp [writeRest, restPieces]

theorem toList_listing_eq_chars (style : ListStyle) (depth : Nat) (e : Expr) :
    (e.listing style depth).toList = chars style (e.pieces depth) := by
  rw [listing, pieces]
  split <;> simp [toList_writeRest_eq_chars]

/-! ## Leaves -/

theorem filterMap_leaf?_restPieces (e : Expr) :
    (e.restPieces depth).filterMap leaf? = e.leavesFrom true := by
  induction e generalizing depth with
  | pair a d iha ihd =>
    rw [restPieces, leavesFrom, List.filterMap_append, ihd]
    congr 1
    cases a with
    | pair => cases d.isNil <;> simp [isPair, List.filterMap_cons, iha, leavesFrom]
    | nil | symbol | atom | native => simp [isPair, List.filterMap_cons, leavesFrom]
  | nil | symbol | atom | native => simp [restPieces, List.filterMap_cons, leavesFrom]

theorem filterMap_leaf?_pieces (depth : Nat) (e : Expr) :
    (e.pieces depth).filterMap leaf? = e.leaves := by
  cases e with
  | pair a d => exact filterMap_leaf?_restPieces (pair a d)
  | nil | symbol | atom | native => rfl

/-! ## Nesting -/

/-- The rest of a list is what stands inside the list and then its closing parenthesis. -/
theorem restPieces_eq_append (depth : Nat) (e : Expr) :
    ∃ inner, e.restPieces depth = inner ++ [.paren .closing depth] ∧
      ∀ ps, openBehind (depth + 1) (inner ++ ps) = openBehind (depth + 1) ps := by
  induction e generalizing depth with
  | pair a d iha ihd =>
    obtain ⟨inner, hrest, hopen⟩ := ihd depth
    rw [restPieces, hrest, ← List.append_assoc]
    refine ⟨_, rfl, fun ps => ?_⟩
    cases a.isPair with
    | true =>
      obtain ⟨deeper, hdeeper, hopen'⟩ := iha (depth + 1)
      cases d.isNil <;> simp [hdeeper, hopen', hopen]
    | false => simp [hopen]
  | nil => exact ⟨[], rfl, fun ps => rfl⟩
  | symbol | atom | native => exact ⟨[.point, .leaf _ depth, .space], rfl, fun ps => rfl⟩

/-- A list is written from its opening parenthesis to its closing one, and between them everything
that is opened is closed again. -/
theorem pieces_eq_of_isPair (depth : Nat) (h : e.isPair = true) :
    ∃ inner, e.pieces depth = .paren .opening depth :: (inner ++ [.paren .closing depth]) ∧
      openBehind (depth + 1) inner = some (depth + 1) := by
  obtain ⟨inner, hrest, hopen⟩ := restPieces_eq_append depth e
  refine ⟨.space :: inner, ?_, ?_⟩
  · rw [pieces, if_pos h, hrest, List.cons_append]
  · simpa using hopen []

/-- Each parenthesis carries the number of lists that are open around its own. -/
theorem openBehind_pieces (depth : Nat) (e : Expr) :
    openBehind depth (e.pieces depth) = some depth := by
  cases h : e.isPair with
  | true =>
    obtain ⟨inner, hrest, hopen⟩ := restPieces_eq_append depth e
    simp [pieces, h, hrest, hopen]
  | false => rw [pieces_of_not_isPair h, ListPiece.openBehind_leaf, ListPiece.openBehind_nil]

theorem infix_pieces_of_mem_items {a : Expr} (hmem : (a, true) ∈ e.items) (ha : a.isPair = true) :
    a.pieces (depth + 1) <:+: e.restPieces depth := by
  induction e with
  | pair b d _ ihd =>
    rw [restPieces_pair]
    rcases List.mem_cons.1 hmem with hb | htail
    · obtain rfl : a = b := congrArg Prod.fst hb
      rw [if_pos ha]
      exact (List.prefix_append _ _).isInfix
    · rw [← List.append_assoc]
      exact (ihd htail).trans (List.suffix_append _ _).isInfix
  | nil | symbol | atom | native => simp [items] at hmem

theorem isPair_of_mem_items {a : Expr} (h : (a, true) ∈ e.items) : e.isPair = true := by
  cases e with
  | pair => rfl
  | nil | symbol | atom | native => simp [items] at h

theorem HasList.isPair_outer (h : HasList e k l) : e.isPair = true := by
  cases h with
  | here h => exact h
  | element hmem => exact isPair_of_mem_items hmem

theorem HasList.isPair_inner (h : HasList e k l) : l.isPair = true := by
  induction h with
  | here h => exact h
  | element _ _ ih => exact ih

/-- The pieces of a list stand together among those of what it is in, counted from the number of
lists around it. -/
theorem HasList.infix_pieces (h : HasList e k l) (depth : Nat) :
    l.pieces (depth + k) <:+: e.pieces depth := by
  induction h generalizing depth with
  | here => exact List.infix_rfl
  | @element e a l k hmem h ih =>
    have hrest : e.restPieces depth <:+: e.pieces depth := by
      rw [pieces, if_pos (isPair_of_mem_items hmem)]
      exact (List.suffix_append [_, _] _).isInfix
    have helement : a.pieces (depth + 1) <:+: e.restPieces depth :=
      infix_pieces_of_mem_items hmem h.isPair_outer
    rw [Nat.add_comm k, ← Nat.add_assoc]
    exact (ih (depth + 1)).trans (helement.trans hrest)

theorem exists_hasList_of_paren_mem {p : Paren} (h : .paren p k ∈ e.pieces depth) :
    ∃ j l, e.HasList j l ∧ k = depth + j := by
  induction e generalizing depth with
  | pair a d iha ihd =>
    -- Those of the list itself are at its own depth, whatever they are found with.
    have hself (hk : k = depth) : ∃ j l, (pair a d).HasList j l ∧ k = depth + j :=
      ⟨0, pair a d, .here rfl, hk⟩
    rw [pieces_pair, restPieces_pair] at h
    have hparts :
        k = depth ∨ .paren p k ∈ a.pieces (depth + 1) ∨ .paren p k ∈ d.restPieces depth := by
      cases ha : a.isPair <;> grind [pieces_of_not_isPair]
    rcases hparts with hk | helement | hrest
    · exact hself hk
    · obtain ⟨j, l, hl, hk⟩ := iha helement
      exact ⟨j + 1, l, .element List.mem_cons_self hl, by omega⟩
    · cases d with
      | pair b d =>
        obtain ⟨j, l, hl, hk⟩ := ihd (List.mem_cons_of_mem _ (List.mem_cons_of_mem _ hrest))
        cases hl with
        | here => exact hself hk
        | element hmem hl => exact ⟨_, l, .element (List.mem_cons_of_mem _ hmem) hl, hk⟩
      | nil | symbol | atom | native => exact hself (by simp_all [restPieces])
  | nil | symbol | atom | native => simp [pieces, isPair] at h

end Expr
end PairLisp
