import PairLisp.Expr.Chain
import PairLisp.Expr.Listing

/-! # The list form by parts

The list form is written after what is there already and counts depths. Where leaves and parentheses
look the same at every depth, its characters are those of its parts: a list is written as its
elements one after the other, with a space after each of them except a list at the end.
-/

namespace PairLisp

/-- Parentheses as they are, and leaves that look the same at every depth. -/
def ListStyle.plain (leaf : Expr → String) : ListStyle := ⟨fun e _ => leaf e, fun p _ => p.text⟩

namespace ListStyle

variable {leaf : Expr → String} {depth : Nat}

theorem readable_eq_plain : readable = plain Expr.leafText := rfl

@[simp] theorem leaf_plain {e : Expr} : (plain leaf).leaf e depth = leaf e := rfl

@[simp] theorem opening_plain : (plain leaf).paren .opening depth = "(" := rfl

@[simp] theorem closing_plain : (plain leaf).paren .closing depth = ")" := rfl

end ListStyle

namespace Expr

variable (leaf : Expr → String)

/-- The characters of a list from some cdr of it on. -/
def restListed : Expr → List Char
  | nil => [')']
  | pair a d =>
    (if a.isPair then '(' :: ' ' :: (restListed a ++ if d.isNil then [] else [' '])
      else (leaf a).toList ++ [' ']) ++ restListed d
  | tail => '.' :: ' ' :: ((leaf tail).toList ++ [' ', ')'])

def listed (e : Expr) : List Char :=
  if e.isPair then '(' :: ' ' :: e.restListed leaf else (leaf e).toList

def listedItems : List Expr → List Char
  | [] => []
  | e :: es => e.listed leaf ++ if e.isPair = true ∧ es = [] then [] else ' ' :: listedItems es

variable {leaf}

/-- What is written depends neither on what is there already nor on the depth. -/
theorem toList_writeRest (depth : Nat) (out : String) (e : Expr) :
    (writeRest (.plain leaf) depth out e).toList = out.toList ++ e.restListed leaf := by
  induction e generalizing depth out with
  | nil => simp [writeRest, restListed]
  | pair a d iha ihd =>
    rw [writeRest, ihd, restListed]
    cases a.isPair with
    | true => cases d.isNil <;> simp [iha]
    | false => simp
  | symbol | atom | native => simp [writeRest, restListed]

theorem toList_listing (depth : Nat) (e : Expr) :
    (e.listing (.plain leaf) depth).toList = e.listed leaf := by
  rw [listing, listed]
  split
  · simp [toList_writeRest]
  · rfl

theorem restListed_ofList (es : List Expr) :
    (ofList es).restListed leaf = listedItems leaf es ++ [')'] := by
  induction es with
  | nil => rfl
  | cons e es ih =>
    rw [ofList_cons, restListed, listedItems, listed, ih]
    cases e.isPair with
    | true => cases es <;> simp [isNil, listedItems]
    | false => simp

theorem listed_ofList_cons (e : Expr) (es : List Expr) :
    (ofList (e :: es)).listed leaf = '(' :: ' ' :: (listedItems leaf (e :: es) ++ [')']) := by
  rw [← restListed_ofList]
  rfl

end Expr
end PairLisp
