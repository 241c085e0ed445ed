import PairLisp.Proofs.Scanner.LongestMatch

/-! # Escapes in string literals

What a string literal stands for, by rules of its own: a character other than a backslash stands for
itself, and an escape by letter, by two, four or eight hexadecimal digits or by three octal digits
for the character that it names. The scanner reads a literal by these rules, except that it also
takes a plus sign for the first digit of a hexadecimal escape.
-/

namespace PairLisp
namespace Token.StringLiteral

open Text.Numeral (isDigitIn value read? read?_eq_some_iff)

variable {c d : Char} {n : Nat} {body cs ds es fs rest : List Char}
  {E : List Char → Char → Prop}

/-! ## The rules -/

/-- The letters that stand for one character each after a backslash. -/
def letterEscapes : List (Char × Char) :=
  [('a', '\x07'), ('b', '\x08'), ('f', '\x0c'), ('n', '\n'), ('r', '\r'), ('t', '\t'),
   ('v', '\x0b'), ('\\', '\\'), ('"', '"')]

/-- The letters of hexadecimal escapes, and how many digits follow each. -/
def hexEscapes : List (Char × Nat) := [('x', 2), ('u', 4), ('U', 8)]

/-- What stands behind the backslash of an escape, and the character that the escape stands for. -/
inductive Escape : List Char → Char → Prop where
  | letter {c d : Char} : (c, d) ∈ letterEscapes → Escape [c] d
  | hex {c : Char} {ds : List Char} : (c, ds.length) ∈ hexEscapes →
      (∀ d ∈ ds, isDigitIn 16 d = true) → (value 16 ds).isValidChar →
      Escape (c :: ds) (Char.ofNat (value 16 ds))
  | octal {ds : List Char} : ds.length = 3 → (∀ d ∈ ds, isDigitIn 8 d = true) →
      value 8 ds ≤ 0o377 → Escape ds (Char.ofNat (value 8 ds))

/-- A hexadecimal escape with a plus sign in place of its first digit. -/
inductive SignedEscape : List Char → Char → Prop where
  | mk {c : Char} {ds : List Char} : (c, ds.length + 1) ∈ hexEscapes →
      (∀ d ∈ ds, isDigitIn 16 d = true) → (value 16 ds).isValidChar →
      SignedEscape (c :: '+' :: ds) (Char.ofNat (value 16 ds))

/-- What the scanner takes for an escape. -/
def ReadableEscape (es : List Char) (d : Char) : Prop := Escape es d ∨ SignedEscape es d

/-- A text of characters other than a backslash and of escapes, and the text that it stands for. -/
inductive StandsFor (E : List Char → Char → Prop) : List Char → List Char → Prop where
  | nil : StandsFor E [] []
  | char {c : Char} {cs ds : List Char} : c ≠ '\\' → StandsFor E cs ds →
      StandsFor E (c :: cs) (c :: ds)
  | escape {es cs ds : List Char} {d : Char} : E es d → StandsFor E cs ds →
      StandsFor E ('\\' :: (es ++ cs)) (d :: ds)

/-- A text that the scanner takes, with a sign in one of its escapes. -/
def HasSign (body : List Char) : Prop :=
  ∃ front es d rest, body = front ++ '\\' :: (es ++ rest) ∧ SignedEscape es d ∧
    (∃ cs, StandsFor ReadableEscape front cs) ∧ ∃ cs, StandsFor ReadableEscape rest cs

/-! ## Reading one escape -/

theorem simpleEscape?_eq_some_iff : simpleEscape? c = some d ↔ (c, d) ∈ letterEscapes := by
  constructor
  · intro h
    unfold simpleEscape? at h
    split_ifs at h
    all_goals
      obtain rfl := Option.some.inj h
      simp_all [letterEscapes]
  · have hall : ∀ e ∈ letterEscapes, simpleEscape? e.1 = some e.2 := by decide
    exact fun h => hall (c, d) h

theorem hexLength?_eq_some_iff : hexLength? c = some n ↔ (c, n) ∈ hexEscapes := by
  constructor
  · intro h
    unfold hexLength? at h
    split_ifs at h
    all_goals
      obtain rfl := Option.some.inj h
      simp_all [hexEscapes]
  · have hall : ∀ e ∈ hexEscapes, hexLength? e.1 = some e.2 := by decide
    exact fun h => hall (c, n) h

theorem two_le_of_mem_hexEscapes (h : (c, n) ∈ hexEscapes) : 2 ≤ n := by
  have hall : ∀ e ∈ hexEscapes, 2 ≤ e.2 := by decide
  exact hall (c, n) h

theorem isDigitIn_eight_iff : isDigitIn 8 c = true ↔ '0' ≤ c ∧ c ≤ '7' := by
  rw [isDigitIn, Text.Numeral.digitValue]
  simp only [Char.le_def, UInt32.le_iff_toNat_le, Char.toNat]
  split_ifs <;> simp at * <;> omega

theorem numberedEscape_eq_ok_iff {text : List Char} {code : Option Nat} :
    numberedEscape text code = .ok (d, n) ↔
      ∃ k, code = some k ∧ k.isValidChar ∧ Char.ofNat k = d ∧ text.length = n := by
  cases code with
  | none => simp [numberedEscape]
  | some k =>
    by_cases hk : k.isValidChar <;> simp [numberedEscape, charOfCode?, hk]

theorem hexCode?_eq_some_iff (h : 2 ≤ ds.length) :
    hexCode? ds = some n ↔ ((∀ d ∈ ds, isDigitIn 16 d = true) ∧ value 16 ds = n) ∨
      ∃ es, ds = '+' :: es ∧ (∀ d ∈ es, isDigitIn 16 d = true) ∧ value 16 es = n := by
  have hsign : isDigitIn 16 '+' = false := by decide
  fun_cases hexCode? ds with
  | case1 d ds => simp [read?_eq_some_iff, hsign]
  | case2 ds hplus =>
    have hne : ds ≠ [] := by
      rintro rfl
      simp at h
    have hfirst : ∀ es, ds ≠ '+' :: es := by
      rintro (_ | ⟨e, es⟩) rfl
      · simp at h
      · exact hplus e es rfl
    simp [read?_eq_some_iff, hne, hfirst]

theorem readEscape_of_letter (h : (c, d) ∈ letterEscapes) : readEscape c cs = .ok (d, 1) := by
  simp only [readEscape, simpleEscape?_eq_some_iff.2 h]

theorem readEscape_of_hex (h : (c, n) ∈ hexEscapes) :
    readEscape c cs = numberedEscape (c :: cs.take n)
      (if (cs.take n).length = n then hexCode? (cs.take n) else none) := by
  have hall : ∀ e ∈ hexEscapes, simpleEscape? e.1 = none := by decide
  simp only [readEscape, hall _ h, hexLength?_eq_some_iff.2 h]

theorem readEscape_of_octal (h : isDigitIn 8 c = true) :
    readEscape c cs = numberedEscape (c :: cs.take 2)
      (if (c :: cs.take 2).length = 3 then (read? 8 (c :: cs.take 2)).filter (· ≤ 0xFF)
        else none) := by
  have hletter : simpleEscape? c = none := by
    have hall : ∀ e ∈ letterEscapes, isDigitIn 8 e.1 = false := by decide
    rw [Option.eq_none_iff_forall_ne_some]
    intro d hd
    exact Bool.false_ne_true ((hall _ (simpleEscape?_eq_some_iff.1 hd)).symm.trans h)
  have hhex : hexLength? c = none := by
    have hall : ∀ e ∈ hexEscapes, isDigitIn 8 e.1 = false := by decide
    rw [Option.eq_none_iff_forall_ne_some]
    intro n hn
    exact Bool.false_ne_true ((hall _ (hexLength?_eq_some_iff.1 hn)).symm.trans h)
  simp only [readEscape, hletter, hhex, if_pos (isDigitIn_eight_iff.1 h)]

theorem exists_of_readEscape (h : readEscape c cs = .ok (d, n)) :
    ∃ es rest, c :: cs = es ++ rest ∧ es.length = n ∧ ReadableEscape es d := by
  cases hletter : simpleEscape? c with
  | some e =>
    have hmem := simpleEscape?_eq_some_iff.1 hletter
    rw [readEscape_of_letter hmem] at h
    cases h
    exact ⟨[c], cs, rfl, rfl, .inl (.letter hmem)⟩
  | none =>
    cases hlength : hexLength? c with
    | some m =>
      have hmem := hexLength?_eq_some_iff.1 hlength
      rw [readEscape_of_hex hmem, numberedEscape_eq_ok_iff] at h
      obtain ⟨k, hcode, hvalid, rfl, rfl⟩ := h
      split at hcode
      · next htake =>
        refine ⟨c :: cs.take m, cs.drop m, by simp, rfl, ?_⟩
        generalize cs.take m = digits at htake hcode
        subst htake
        rcases (hexCode?_eq_some_iff (two_le_of_mem_hexEscapes hmem)).1 hcode with
          ⟨hdigits, rfl⟩ | ⟨es, rfl, hdigits, rfl⟩
        · exact .inl (.hex hmem hdigits hvalid)
        · exact .inr (.mk hmem hdigits hvalid)
      · cases hcode
    | none =>
      by_cases hoctal : isDigitIn 8 c = true
      · rw [readEscape_of_octal hoctal, numberedEscape_eq_ok_iff] at h
        obtain ⟨k, hcode, hvalid, rfl, rfl⟩ := h
        split at hcode
        · next htake =>
          refine ⟨c :: cs.take 2, cs.drop 2, by simp, rfl, .inl ?_⟩
          obtain ⟨hread, hle⟩ := Option.filter_eq_some_iff.1 hcode
          obtain ⟨-, hdigits, rfl⟩ := read?_eq_some_iff.1 hread
          exact .octal htake hdigits (of_decide_eq_true hle)
        · cases hcode
      · rw [isDigitIn_eight_iff] at hoctal
        simp only [readEscape, hletter, hlength, if_neg hoctal] at h
        cases h

/-- What may be read as an escape is read, whatever stands behind it. -/
theorem ReadableEscape.readEscape_eq (h : ReadableEscape es d) (rest : List Char) :
    ∃ c cs, es = c :: cs ∧ readEscape c (cs ++ rest) = .ok (d, es.length) := by
  rcases h with h | h
  · cases h with
    | letter hmem => exact ⟨_, [], rfl, readEscape_of_letter hmem⟩
    | @hex c ds hmem hdigits hvalid =>
      refine ⟨c, ds, rfl, ?_⟩
      have hcode :=
        (hexCode?_eq_some_iff (two_le_of_mem_hexEscapes hmem)).2 (.inl ⟨hdigits, rfl⟩)
      rw [readEscape_of_hex hmem, List.take_left, if_pos rfl, numberedEscape_eq_ok_iff]
      exact ⟨_, hcode, hvalid, rfl, rfl⟩
    | octal hlength hdigits hle =>
      obtain ⟨a, b, c, rfl⟩ := List.length_eq_three.1 hlength
      refine ⟨a, [b, c], rfl, ?_⟩
      have hread : read? 8 [a, b, c] = some (value 8 [a, b, c]) :=
        read?_eq_some_iff.2 ⟨by simp, hdigits, rfl⟩
      rw [readEscape_of_octal (hdigits a List.mem_cons_self), numberedEscape_eq_ok_iff]
      refine ⟨value 8 [a, b, c], ?_, .inl (by omega), rfl, rfl⟩
      simp [hread, hle]
  · cases h with
    | @mk c ds hmem hdigits hvalid =>
      refine ⟨c, '+' :: ds, rfl, ?_⟩
      have hlong : 2 ≤ ('+' :: ds).length := two_le_of_mem_hexEscapes hmem
      have hcode : hexCode? ('+' :: ds) = some (value 16 ds) :=
        (hexCode?_eq_some_iff hlong).2 (.inr ⟨ds, rfl, hdigits, rfl⟩)
      rw [readEscape_of_hex hmem, ← List.length_cons (a := '+'), List.take_left, if_pos rfl,
        numberedEscape_eq_ok_iff]
      exact ⟨_, hcode, hvalid, rfl, rfl⟩

theorem ReadableEscape.unique {e : Char} (hes : ReadableEscape es d) (hfs : ReadableEscape fs e)
    (h : es ++ cs = fs ++ ds) : es = fs ∧ cs = ds := by
  obtain ⟨a, us, rfl, hread⟩ := hes.readEscape_eq cs
  obtain ⟨b, vs, rfl, hread'⟩ := hfs.readEscape_eq ds
  obtain ⟨rfl, htail⟩ : a = b ∧ us ++ cs = vs ++ ds := by simpa using h
  rw [htail, hread'] at hread
  exact List.append_inj h (Prod.mk.inj (Except.ok.inj hread)).2.symm

theorem SignedEscape.exists_eq (h : SignedEscape es d) : ∃ c ds, es = c :: '+' :: ds := by
  cases h
  exact ⟨_, _, rfl⟩

theorem SignedEscape.not_escape {e : Char} (h : SignedEscape es d) : ¬ Escape es e := by
  have hhex : isDigitIn 16 '+' = false := by decide
  have hoctal : isDigitIn 8 '+' = false := by decide
  obtain ⟨c, ds, rfl⟩ := h.exists_eq
  intro hescape
  cases hescape with
  | hex _ hdigits => exact Bool.false_ne_true (hhex.symm.trans (hdigits '+' List.mem_cons_self))
  | octal _ hdigits => exact Bool.false_ne_true (hoctal.symm.trans (hdigits '+' (by simp)))

/-! ## Reading a body -/

theorem decodeFrom_eq_drop (n : Nat) (cs : List Char) :
    decodeFrom n cs = decodeFrom 0 (cs.drop n) := by
  induction n generalizing cs with
  | zero => rfl
  | succ n ih =>
    cases cs with
    | nil => simp [decodeFrom]
    | cons c cs => rw [decodeFrom, ih, List.drop_succ_cons]

theorem decode_char (h : c ≠ '\\') (cs : List Char) :
    decode (c :: cs) = (decode cs).map (c :: ·) := by
  cases cs <;> simp [decode, decodeFrom, h]

theorem decode_escape (h : ReadableEscape es d) (cs : List Char) :
    decode ('\\' :: (es ++ cs)) = (decode cs).map (d :: ·) := by
  obtain ⟨c, tail, rfl, hread⟩ := h.readEscape_eq cs
  have hdrop : (c :: (tail ++ cs)).drop (c :: tail).length = cs := List.drop_left
  rw [decode, List.cons_append, decodeFrom, if_neg (by simp)]
  simp only [hread]
  rw [decodeFrom_eq_drop, hdrop, decode]

theorem StandsFor.decode_eq (h : StandsFor ReadableEscape cs ds) : decode cs = .ok ds := by
  induction h with
  | nil => rfl
  | char hc _ ih => rw [decode_char hc, ih]; rfl
  | escape hes _ ih => rw [decode_escape hes, ih]; rfl

theorem map_cons_eq_ok {r : Except String (List Char)} (h : r.map (c :: ·) = .ok ds) :
    ∃ es, r = .ok es ∧ ds = c :: es := by
  cases r with
  | error => cases h
  | ok es =>
    cases h
    exact ⟨es, rfl, rfl⟩

theorem standsFor_of_decodeFrom {skip : Nat} (h : decodeFrom skip cs = .ok ds) :
    StandsFor ReadableEscape (cs.drop skip) ds := by
  -- What is still to be skipped belongs to the escape before, which is read as a whole.
  fun_induction decodeFrom skip cs generalizing ds with
  | case1 skip =>
    cases h
    rw [List.drop_nil]
    exact .nil
  | case2 skip c cs ih => exact ih h
  | case3 c cs hc ih =>
    obtain ⟨es, hes, rfl⟩ := map_cons_eq_ok h
    exact .char hc (ih hes)
  | case4 => cases h
  | case5 => cases h
  | case6 c hc e es d taken hread ih =>
    obtain rfl : c = '\\' := not_not.1 hc
    obtain ⟨ds, hds, rfl⟩ := map_cons_eq_ok h
    obtain ⟨front, rest, htext, rfl, hescape⟩ := exists_of_readEscape hread
    have hrest := ih hds
    rw [htext, List.drop_left] at hrest
    rw [List.drop_zero, htext]
    exact .escape hescape hrest

/-- The scanner decodes a body exactly if it stands for something, and to that. -/
theorem decode_eq_ok_iff : decode cs = .ok ds ↔ StandsFor ReadableEscape cs ds :=
  ⟨standsFor_of_decodeFrom, StandsFor.decode_eq⟩

/-! ## Signs -/

theorem StandsFor.of_char (hc : c ≠ '\\') (h : StandsFor E (c :: cs) ds) :
    ∃ es, StandsFor E cs es := by
  cases h with
  | char _ h => exact ⟨_, h⟩
  | escape => exact absurd rfl hc

theorem StandsFor.of_escape (h : StandsFor E ('\\' :: cs) ds) :
    ∃ es d rest fs, cs = es ++ rest ∧ ds = d :: fs ∧ E es d ∧ StandsFor E rest fs := by
  cases h with
  | char hc => exact absurd rfl hc
  | escape hes h => exact ⟨_, _, _, _, rfl, rfl, hes, h⟩

theorem StandsFor.mono {F : List Char → Char → Prop} (hEF : ∀ es d, E es d → F es d)
    (h : StandsFor E cs ds) : StandsFor F cs ds := by
  induction h with
  | nil => exact .nil
  | char hc _ ih => exact .char hc ih
  | escape hes _ ih => exact .escape (hEF _ _ hes) ih

theorem StandsFor.append (h : StandsFor E cs ds) (h' : StandsFor E es fs) :
    StandsFor E (cs ++ es) (ds ++ fs) := by
  induction h with
  | nil => exact h'
  | char hc _ ih => exact .char hc ih
  | escape hes _ ih =>
    rw [List.cons_append, List.append_assoc]
    exact .escape hes ih

theorem HasSign.exists_standsFor (h : HasSign cs) : ∃ ds, StandsFor ReadableEscape cs ds := by
  obtain ⟨front, es, d, rest, rfl, hsigned, ⟨_, hfront⟩, _, hrest⟩ := h
  exact ⟨_, hfront.append (.escape (.inr hsigned) hrest)⟩

/-- What is read follows the rules, or a sign stands in it. -/
theorem StandsFor.escape_or_hasSign (h : StandsFor ReadableEscape cs ds) :
    StandsFor Escape cs ds ∨ HasSign cs := by
  induction h with
  | nil => exact .inl .nil
  | @char c cs ds hc _ ih =>
    rcases ih with ih | ⟨front, es, d, rest, rfl, hsigned, ⟨_, hfront⟩, hrest⟩
    · exact .inl (.char hc ih)
    · exact .inr ⟨c :: front, es, d, rest, rfl, hsigned, ⟨_, .char hc hfront⟩, hrest⟩
  | @escape es cs ds d hes hcs ih =>
    rcases hes with hes | hes
    · rcases ih with ih | ⟨front, fs, e, rest, rfl, hsigned, ⟨_, hfront⟩, hrest⟩
      · exact .inl (.escape hes ih)
      · have hlonger := StandsFor.escape (.inl hes) hfront
        exact .inr ⟨'\\' :: (es ++ front), fs, e, rest, by simp, hsigned, ⟨_, hlonger⟩, hrest⟩
    · exact .inr ⟨[], es, d, cs, rfl, hes, ⟨[], .nil⟩, ds, hcs⟩

/-- What follows the rules has no sign in it, since a text is read in one way only. -/
theorem StandsFor.not_hasSign (h : StandsFor Escape cs ds) : ¬ HasSign cs := by
  rintro ⟨front, es, d, rest, rfl, hsigned, ⟨fs, hfront⟩, -⟩
  -- Both readings go through what is in front together, and then one of them needs the sign to be
  -- a digit.
  induction hfront generalizing ds with
  | nil =>
    obtain ⟨gs, e, _, _, htext, -, hgs, -⟩ := h.of_escape
    obtain ⟨rfl, -⟩ := ReadableEscape.unique (.inr hsigned) (.inl hgs) htext
    exact hsigned.not_escape hgs
  | char hc _ ih =>
    obtain ⟨_, htail⟩ := h.of_char hc
    exact ih htail
  | escape hread _ ih =>
    rw [List.cons_append, List.append_assoc] at h
    obtain ⟨gs, e, _, _, htext, -, hgs, htail⟩ := h.of_escape
    obtain ⟨-, rfl⟩ := ReadableEscape.unique hread (.inl hgs) htext
    exact ih htail

end Token.StringLiteral

/-! ## Calls -/

open Token.StringLiteral

/-- A call of the scanner gives the text that the body of a literal stands for, and if there is none
it refuses an escape at the place where the literal starts. -/
structure Scanner.ReadsBy (E : List Char → Char → Prop) (s : Scanner) (body : List Char) :
    Prop where
  next_eq_iff : ∀ text : String,
    s.next.1 = .ok ⟨.string text, String.ofList ('"' :: (body ++ ['"'])), s.position⟩ ↔
      StandsFor E body text.toList
  next_refuses : (∀ ds, ¬ StandsFor E body ds) →
    ∃ escape, s.next.1 = .error ⟨.invalidEscape escape, s.position⟩

theorem Scanner.next_of_literal {s : Scanner} {body rest : List Char}
    (hbody : body ∈ Lexeme.stringBody) (h : s.rest = '"' :: (body ++ '"' :: rest)) :
    s.next = (report s.position ('"' :: (body ++ ['"'])) (Lexeme.stringOutcome body),
      ⟨rest, s.position.advance ('"' :: (body ++ ['"'])),
        depthAfter s.depth (Lexeme.stringOutcome body)⟩) := by
  rw [next_of_cons h, Lexeme.piece_quote, stringPiece, Lexeme.split?_of_mem hbody]
  rfl

theorem Scanner.readsBy_readableEscape {s : Scanner} {body rest : List Char}
    (hbody : body ∈ Lexeme.stringBody) (h : s.rest = '"' :: (body ++ '"' :: rest)) :
    s.ReadsBy ReadableEscape body := by
  have hnext := congrArg Prod.fst (next_of_literal hbody h)
  cases hdecode : decode body with
  | ok ds =>
    have hstands := decode_eq_ok_iff.1 hdecode
    rw [Lexeme.stringOutcome, hdecode] at hnext
    refine ⟨fun text => ?_, fun hnone => absurd hstands (hnone ds)⟩
    rw [hnext, ← decode_eq_ok_iff, hdecode, report, Except.ok.injEq, Except.ok.injEq]
    constructor
    · intro heq
      cases heq
      exact String.toList_ofList.symm
    · rintro rfl
      rw [String.ofList_toList]
  | error escape =>
    rw [Lexeme.stringOutcome, hdecode] at hnext
    refine ⟨fun text => ?_, fun _ => ⟨escape, hnext⟩⟩
    rw [hnext, ← decode_eq_ok_iff, hdecode, report]
    exact iff_of_false (by simp) (by simp)

theorem Scanner.ReadsBy.weaken {E F : List Char → Char → Prop} {s : Scanner} {body : List Char}
    (h : s.ReadsBy F body) (hEF : ∀ ds, StandsFor E body ds ↔ StandsFor F body ds) :
    s.ReadsBy E body :=
  ⟨fun text => (h.next_eq_iff text).trans (hEF _).symm,
    fun hnone => h.next_refuses fun ds => mt (hEF ds).2 (hnone ds)⟩

/-- A string literal is read by its escapes, those with a sign among them; and it is read as the
rules say exactly if no sign stands in a literal that is otherwise right. -/
theorem readsBy_escape_iff {s : Scanner} {body rest : List Char}
    (hbody : body ∈ Lexeme.stringBody) (h : s.rest = '"' :: (body ++ '"' :: rest)) :
    s.ReadsBy ReadableEscape body ∧ (s.ReadsBy Escape body ↔ ¬ HasSign body) := by
  have hreads := Scanner.readsBy_readableEscape hbody h
  refine ⟨hreads, ?_, fun hsign => hreads.weaken fun ds => ⟨?_, ?_⟩⟩
  · intro hrules hsign
    obtain ⟨ds, hds⟩ := hsign.exists_standsFor
    rw [← String.toList_ofList (l := ds), ← hreads.next_eq_iff, hrules.next_eq_iff] at hds
    exact hds.not_hasSign hsign
  · exact fun hds => hds.mono fun _ _ => .inl
  · exact fun hds => hds.escape_or_hasSign.resolve_right hsign

/-- A literal with an escape of each kind and a sign, which stands for itself there. -/
theorem readsBy_escape_iff_of_kinds :
    "\\x41\\101\\n+".toList ∈ Lexeme.stringBody ∧
      (Scanner.ofText "\"\\x41\\101\\n+\" ").rest =
        '"' :: ("\\x41\\101\\n+".toList ++ '"' :: [' ']) ∧
      (Scanner.ofText "\"\\x41\\101\\n+\" ").ReadsBy ReadableEscape
        "\\x41\\101\\n+".toList ∧
      ¬ HasSign "\\x41\\101\\n+".toList ∧
      (Scanner.ofText "\"\\x41\\101\\n+\" ").ReadsBy Escape "\\x41\\101\\n+".toList := by
  have hsplit : split? "\\x41\\101\\n+\"".toList = some ("\\x41\\101\\n+".toList, []) := by
    decide +kernel
  have hbody := Lexeme.mem_of_split? hsplit
  have hrest : (Scanner.ofText "\"\\x41\\101\\n+\" ").rest =
      '"' :: ("\\x41\\101\\n+".toList ++ '"' :: [' ']) := by
    decide +kernel
  have htext : "\\x41\\101\\n+".toList =
      '\\' :: (['x', '4', '1'] ++ '\\' :: (['1', '0', '1'] ++ '\\' :: (['n'] ++ ['+']))) := by
    decide +kernel
  have hsign : ¬ HasSign "\\x41\\101\\n+".toList := by
    have hhex : Escape ['x', '4', '1'] 'A' :=
      .hex (by decide) (List.all_eq_true.1 (by decide)) (by decide)
    have hoctal : Escape ['1', '0', '1'] 'A' :=
      .octal rfl (List.all_eq_true.1 (by decide)) (by decide)
    have hletter : Escape ['n'] '\n' := .letter (by decide)
    have hstands := StandsFor.escape hhex
      (.escape hoctal (.escape hletter (.char (c := '+') (by decide) .nil)))
    rw [htext]
    exact hstands.not_hasSign
  obtain ⟨hreads, hrules⟩ := readsBy_escape_iff hbody hrest
  exact ⟨hbody, hrest, hreads, hsign, hrules.2 hsign⟩

/-- A sign is read where the rules allow none. -/
theorem not_readsBy_escape_of_sign :
    "\\x+4".toList ∈ Lexeme.stringBody ∧
      (Scanner.ofText "\"\\x+4\"").rest = '"' :: ("\\x+4".toList ++ '"' :: []) ∧
      (Scanner.ofText "\"\\x+4\"").next.1 = .ok ⟨.string "\x04", "\"\\x+4\"", .start⟩ ∧
      (∀ ds, ¬ StandsFor Escape "\\x+4".toList ds) ∧
      ¬ (Scanner.ofText "\"\\x+4\"").ReadsBy Escape "\\x+4".toList := by
  have hsplit : split? "\\x+4\"".toList = some ("\\x+4".toList, []) := by decide +kernel
  have hbody := Lexeme.mem_of_split? hsplit
  have hrest : (Scanner.ofText "\"\\x+4\"").rest = '"' :: ("\\x+4".toList ++ '"' :: []) := by
    decide +kernel
  have htext : "\\x+4".toList = [] ++ '\\' :: (['x', '+', '4'] ++ []) := by decide +kernel
  have hnone : ∀ ds, ¬ StandsFor Escape "\\x+4".toList ds := by
    have hsigned : SignedEscape ['x', '+', '4'] '\x04' :=
      .mk (by decide) (List.all_eq_true.1 (by decide)) (by decide)
    intro ds hds
    exact hds.not_hasSign ⟨[], _, _, [], htext, hsigned, ⟨[], .nil⟩, [], .nil⟩
  have hnext : (Scanner.ofText "\"\\x+4\"").next.1 =
      .ok ⟨.string "\x04", "\"\\x+4\"", .start⟩ := by
    rfl
  refine ⟨hbody, hrest, hnext, hnone, fun hrules => ?_⟩
  exact hnone _ ((hrules.next_eq_iff "\x04").1 hnext)

end PairLisp
