import PairLisp.Proofs.Reader.Written
import PairLisp.Proofs.Scanner.Literals

/-! # Printed values read back

A value that is made of lists, integers that are not negative, symbols and quotable strings is
printed as a text that is read as this value again, except that the empty list is printed as a name
and comes back as the symbol of that name. Nothing is claimed about floating-point numbers, negative
integers and native functions.
-/

namespace PairLisp
namespace Expr

/-- Replaces the leaves, where the end of a list is none: `inTail` says that the expression is the
cdr of a pair. -/
def mapLeavesFrom (f : Expr → Expr) (inTail : Bool) : Expr → Expr
  | pair a d => pair (mapLeavesFrom f false a) (mapLeavesFrom f true d)
  | nil => if inTail then nil else f nil
  | leaf => f leaf

def mapLeaves (f : Expr → Expr) (e : Expr) : Expr := e.mapLeavesFrom f false

/-- The same value with the symbol `nil` in place of every empty list. -/
def nilAsSymbol : Expr → Expr :=
  mapLeaves fun
    | nil => symbol "nil"
    | leaf => leaf

/-- The form that a printed value comes back as: its atoms have the text that was printed. -/
def readBack : Expr → Expr :=
  mapLeaves fun
    | nil => symbol "nil"
    | atom a => atom (.ofValue a.value)
    | leaf => leaf

/-- Values that come back from their printed form. -/
inductive Printable : Expr → Prop where
  | nil : Printable nil
  | int {raw : String} {n : Int64} : 0 ≤ n.toInt → Printable (atom ⟨raw, .int n⟩)
  | string {raw s : String} : (∀ c ∈ s.toList, Token.StringLiteral.IsQuotable c) →
      Printable (atom ⟨raw, .string s⟩)
  | symbol {name : String} : Token.IsSymbolName name → Printable (symbol name)
  | list {e : Expr} {es : List Expr} : (e :: es).length ≤ maxElements →
      (∀ x ∈ e :: es, Printable x) → Printable (ofList (e :: es))

variable {f g : Expr → Expr} {e v : Expr} {es : List Expr}

theorem mapLeaves_ofList (e : Expr) (es : List Expr) :
    (ofList (e :: es)).mapLeaves f = ofList ((e :: es).map (mapLeaves f)) := by
  have htail : (ofList es).mapLeavesFrom f true = ofList (es.map (mapLeaves f)) := by
    induction es with
    | nil => rfl
    | cons x xs ih =>
      rw [ofList_cons, mapLeavesFrom, ih]
      rfl
  rw [mapLeaves, ofList_cons, mapLeavesFrom, htail]
  rfl

theorem same_ofList (h : ∀ e ∈ es, (f e).same (g e) = true) :
    (ofList (es.map f)).same (ofList (es.map g)) = true := by
  induction es with
  | nil => rfl
  | cons e es ih =>
    obtain ⟨he, hes⟩ := List.forall_mem_cons.1 h
    simp [same, he, ih hes]

namespace Printable

theorem same_readBack (h : v.Printable) : v.readBack.same v.nilAsSymbol = true := by
  induction h with
  | list _ _ ih =>
    rw [readBack, nilAsSymbol, mapLeaves_ofList, mapLeaves_ofList]
    exact same_ofList ih
  | nil => rfl
  | int | string | symbol =>
    simp [readBack, nilAsSymbol, mapLeaves, mapLeavesFrom, same, Atom.ofValue, Atom.Value.same]

theorem parenDepth_readBack (h : v.Printable) : v.readBack.parenDepth ≤ v.nestingByParts := by
  induction h with
  | @list e es _ _ ih =>
    rw [readBack, mapLeaves_ofList, parenDepth_ofList_le_iff]
    refine ⟨nestingByParts_pos rfl, fun x hx => ?_⟩
    obtain ⟨y, hy, rfl⟩ := List.mem_map.1 hx
    exact Nat.lt_of_le_of_lt (ih y hy) (nestingByParts_lt_ofList hy)
  | nil | int | string | symbol => exact Nat.zero_le _

theorem spellsForms (h : v.Printable) : SpellsForms (v.listed leafText) [v.readBack] := by
  induction h with
  | nil =>
    -- The goal does not show the token of a leaf, so its lexeme comes first.
    have hlexeme := Token.isLexeme_symbol Token.isSymbolName_nil
    have hspells := SpellsForms.leaf (e := .symbol "nil") hlexeme rfl
    exact hspells
  | @int raw n hn =>
    have hspells := SpellsForms.leaf (e := .int n) (Token.isLexeme_int hn) rfl
    exact hspells
  | @string raw s hs =>
    have hspells := SpellsForms.leaf (e := .string s) (Token.isLexeme_string hs) rfl
    exact hspells
  | @symbol name hname =>
    have hspells := SpellsForms.leaf (e := .symbol name) (Token.isLexeme_symbol hname) rfl
    exact hspells
  | list hlength _ ih =>
    rw [readBack, mapLeaves_ofList]
    exact SpellsForms.listed_ofList (List.cons_ne_nil _ _) hlength ih

end Printable
end Expr

/-- A printed value is read as one form, which is the value with `nil` for every empty list. -/
theorem readText_readable {v : Expr} (h : v.Printable) (hdepth : v.nestingDepth ≤ 128) :
    ∃ w, readText v.readable = .ok [w] ∧ w.same v.nilAsSymbol = true := by
  refine ⟨v.readBack, ?_, h.same_readBack⟩
  have hparens := h.parenDepth_readBack
  rw [Expr.nestingDepth_eq_nestingByParts] at hdepth
  apply SpellsForms.readText_eq
  · rw [Expr.readable, ListStyle.readable_eq_plain, Expr.toList_listing]
    exact h.spellsForms
  · simpa using Nat.le_trans hparens hdepth

theorem readText_readable_of_nested :
    ∃ v : Expr, v.readable = "( nil \"a\\t\\\"\" ( x 12 ))" ∧ v.Printable ∧ v.nestingDepth ≤ 128 ∧
      ∃ w, readText v.readable = .ok [w] ∧ w.same v.nilAsSymbol = true := by
  have hx : Token.IsSymbolName "x" :=
    ⟨⟨.symbol, "x", .start⟩, ⟨.endOfText, "", ⟨1, 2⟩⟩, by rfl, rfl, rfl⟩
  have hall : "a\t\"".toList.all Token.StringLiteral.IsQuotable = true := by decide +kernel
  have hs : ∀ c ∈ "a\t\"".toList, Token.StringLiteral.IsQuotable c := by
    simpa only [List.all_eq_true, decide_eq_true_eq] using hall
  have hinner : (Expr.ofList [.symbol "x", .int 12]).Printable := by
    apply Expr.Printable.list (by decide)
    simp only [List.forall_mem_cons]
    exact ⟨.symbol hx, .int (by decide), by simp⟩
  have hv : (Expr.ofList [.nil, .string "a\t\"", .ofList [.symbol "x", .int 12]]).Printable := by
    apply Expr.Printable.list (by decide)
    simp only [List.forall_mem_cons]
    exact ⟨.nil, .string hs, hinner, by simp⟩
  have hdepth : (Expr.ofList [.nil, .string "a\t\"", .ofList [.symbol "x", .int 12]]).nestingDepth
      ≤ 128 := by
    rw [Expr.nestingDepth_eq_nestingByParts]
    decide
  exact ⟨_, by decide +kernel, hv, hdepth, readText_readable hv hdepth⟩

end PairLisp
