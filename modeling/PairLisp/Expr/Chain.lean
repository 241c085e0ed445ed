import PairLisp.Expr.Basic

/-! # Lists as chains of pairs

Walking the cdrs of a chain gives its elements, and at last a tail if the chain does not end in the
empty list. A list is proper if there is no such tail. Linking the elements of a proper list gives
the list back.
-/

namespace PairLisp.Expr

/-- The elements of a chain, each marked true, and then the improper tail, if any, marked false. -/
def items : Expr → List (Expr × Bool)
  | nil => []
  | pair a d => (a, true) :: d.items
  | tail => [(tail, false)]

def isProperList (e : Expr) : Bool := e.items.all Prod.snd

def elements? (e : Expr) : Option (List Expr) :=
  if e.isProperList then some (e.items.map Prod.fst) else none

def linkOnto (tail : Expr) (es : List Expr) : Expr := es.foldr pair tail

def ofList (es : List Expr) : Expr := linkOnto nil es

@[simp] theorem items_pair (a d : Expr) : (pair a d).items = (a, true) :: d.items := rfl

@[simp] theorem ofList_nil : ofList [] = nil := rfl

@[simp] theorem ofList_cons (e : Expr) (es : List Expr) :
    ofList (e :: es) = pair e (ofList es) := rfl

theorem items_ofList (es : List Expr) : (ofList es).items = es.map (·, true) := by
  induction es with
  | nil => rfl
  | cons e es ih => simp [ih]

theorem elements?_ofList (es : List Expr) : (ofList es).elements? = some es := by
  have h : Prod.fst ∘ (fun e : Expr => (e, true)) = id := rfl
  simp [elements?, isProperList, items_ofList, h]

theorem eq_ofList_of_elements? {e : Expr} {es : List Expr} (h : e.elements? = some es) :
    e = ofList es := by
  induction e generalizing es with
  | nil => simp_all [elements?, isProperList, items]
  | pair a d _ ih =>
    simp only [elements?, isProperList, items_pair, List.all_cons, Bool.true_and, List.map_cons,
      Option.ite_none_right_eq_some, Option.some.injEq] at h
    obtain ⟨hd, rfl⟩ := h
    rw [ofList_cons, ← ih (by simp [elements?, isProperList, hd])]
  | symbol | atom | native => simp_all [elements?, isProperList, items]

/-- The leaves from left to right, where the end of a proper list is none: `inTail` says that the
expression is the cdr of a pair. -/
def leavesFrom (inTail : Bool) : Expr → List Expr
  | pair a d => leavesFrom false a ++ leavesFrom true d
  | nil => if inTail then [] else [nil]
  | leaf => [leaf]

def leaves (e : Expr) : List Expr := e.leavesFrom false

end PairLisp.Expr
