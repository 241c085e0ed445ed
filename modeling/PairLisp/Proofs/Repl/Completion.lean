import Mathlib.Order.Bounds.Basic
import PairLisp.Proofs.Text.ByteOrder
import PairLisp.Repl.Completion

/-! # The word that is completed

A word is cut out between two breaks, characters that are no part of a symbol: the last one that
starts before the place, and the first one that starts at it or behind it. One pass over the bytes
of the line finds both bounds, and they are always ends of characters. Putting symbol characters in
the place of the word leaves both breaks where they are, so the word at the new place is what was
put there.
-/

namespace PairLisp.Repl

variable {pos : Nat} {line cs ds : List Char}

/-! ## Bytes -/

@[simp] theorem byteCount_nil : byteCount [] = 0 := rfl

@[simp] theorem byteCount_cons (c : Char) (cs : List Char) :
    byteCount (c :: cs) = c.utf8Size + byteCount cs := rfl

@[simp] theorem byteCount_append (cs ds : List Char) :
    byteCount (cs ++ ds) = byteCount cs + byteCount ds := by
  induction cs with
  | nil => simp
  | cons c cs ih => simp [ih, Nat.add_assoc]

theorem byteCount_toList (s : String) : byteCount s.toList = s.utf8ByteSize := by
  have hlist : ∀ cs : List Char, (String.ofList cs).utf8ByteSize = byteCount cs := by
    intro cs
    induction cs with
    | nil => rfl
    | cons c cs ih => rw [Text.utf8ByteSize_cons, ih, byteCount_cons]
  rw [← hlist, String.ofList_toList]

theorem eq_nil_of_byteCount_eq_zero (h : byteCount cs = 0) : cs = [] := by
  cases cs with
  | nil => rfl
  | cons c cs =>
    have hpos := c.utf8Size_pos
    rw [byteCount_cons] at h
    omega

theorem append_inj_of_byteCount {xs ys : List Char} (h : cs ++ xs = ds ++ ys)
    (hbytes : byteCount cs = byteCount ds) : cs = ds ∧ xs = ys := by
  rcases List.append_eq_append_iff.1 h with ⟨mid, rfl, rfl⟩ | ⟨mid, rfl, rfl⟩ <;>
    obtain rfl : mid = [] := eq_nil_of_byteCount_eq_zero (by simpa using hbytes) <;> simp

/-- Cuts a text after its first `n` bytes, if these are whole characters. -/
def splitBytes? : Nat → List Char → Option (List Char × List Char)
  | 0, cs => some ([], cs)
  | _ + 1, [] => none
  | n + 1, c :: cs =>
    if c.utf8Size ≤ n + 1 then
      (splitBytes? (n + 1 - c.utf8Size) cs).map fun (front, rest) => (c :: front, rest)
    else none

/-- The text between two places, which have to be in order and between characters. -/
def slice? (line : List Char) (start stop : Nat) : Option (List Char) :=
  if start ≤ stop then
    ((splitBytes? start line).bind fun (_, rest) => splitBytes? (stop - start) rest).map Prod.fst
  else none

theorem splitBytes?_append (cs ds : List Char) :
    splitBytes? (byteCount cs) (cs ++ ds) = some (cs, ds) := by
  induction cs with
  | nil => rw [byteCount_nil, List.nil_append, splitBytes?]
  | cons c cs ih =>
    have hpos := c.utf8Size_pos
    obtain ⟨n, hn⟩ : ∃ n, byteCount (c :: cs) = n + 1 := ⟨byteCount (c :: cs) - 1, by simp; omega⟩
    have hrest : n + 1 - c.utf8Size = byteCount cs := by rw [← hn, byteCount_cons]; omega
    rw [hn, List.cons_append, splitBytes?, if_pos (by rw [← hn, byteCount_cons]; omega), hrest, ih]
    rfl

theorem slice?_append (cs ds es : List Char) :
    slice? (cs ++ ds ++ es) (byteCount cs) (byteCount (cs ++ ds)) = some ds := by
  have hlength : byteCount (cs ++ ds) - byteCount cs = byteCount ds := by
    rw [byteCount_append]
    omega
  rw [slice?, if_pos (by simp), hlength, List.append_assoc, splitBytes?_append, Option.bind_some]
  simp only [splitBytes?_append, Option.map_some]

/-! ## Breaks -/

/-- The character `c`, which is no part of a symbol, starts `i` bytes into the line. -/
def BreaksAt (line : List Char) (i : Nat) (c : Char) : Prop :=
  ∃ before after, line = before ++ c :: after ∧ byteCount before = i ∧ isSymbolChar c = false

/-- Where the breaks end that start before a place. -/
def breakEnds (line : List Char) (pos : Nat) : Set Nat :=
  {k | ∃ i c, BreaksAt line i c ∧ i < pos ∧ i + c.utf8Size = k}

def breakStarts (line : List Char) (pos : Nat) : Set Nat := {i | ∃ c, BreaksAt line i c ∧ pos ≤ i}

/-- A line cut at the breaks around a place. -/
structure IsWordCut (pos : Nat) (line : List Char) (cut : WordCut) : Prop where
  line_eq : line = cut.before ++ cut.word ++ cut.after
  word : ∀ c ∈ cut.word, isSymbolChar c = true
  before : cut.before = [] ∨ ∃ front c, cut.before = front ++ [c] ∧ isSymbolChar c = false ∧
    byteCount front < pos
  after : cut.after = [] ∨ ∃ c rest, cut.after = c :: rest ∧ isSymbolChar c = false ∧
    pos ≤ byteCount (cut.before ++ cut.word)

namespace IsWordCut

variable {cut : WordCut} {c : Char}

theorem after_cons {before word : List Char} (h : IsWordCut (pos - c.utf8Size) cs cut)
    (hcons : before ++ word = c :: (cut.before ++ cut.word)) :
    cut.after = [] ∨ ∃ d rest, cut.after = d :: rest ∧ isSymbolChar d = false ∧
      pos ≤ byteCount (before ++ word) := by
  refine h.after.imp_right fun ⟨d, rest, heq, hd, hle⟩ => ⟨d, rest, heq, hd, ?_⟩
  rw [hcons, byteCount_cons]
  omega

theorem cons_word (h : IsWordCut (pos - c.utf8Size) cs cut) (hc : isSymbolChar c = true)
    (hempty : cut.before = []) : IsWordCut pos (c :: cs) ⟨[], c :: cut.word, cut.after⟩ where
  line_eq := by rw [h.line_eq, hempty]; rfl
  word := List.forall_mem_cons.2 ⟨hc, h.word⟩
  before := .inl rfl
  after := h.after_cons (by rw [hempty]; rfl)

theorem cons_before (h : IsWordCut (pos - c.utf8Size) cs cut)
    (hc : cut.before = [] → isSymbolChar c = false ∧ 0 < pos) :
    IsWordCut pos (c :: cs) ⟨c :: cut.before, cut.word, cut.after⟩ where
  line_eq := congrArg (c :: ·) h.line_eq
  word := h.word
  before := by
    refine .inr ?_
    rcases h.before with hnil | ⟨front, d, heq, hd, hlt⟩
    · exact ⟨[], c, by rw [hnil]; rfl, hc hnil⟩
    · exact ⟨c :: front, d, by rw [heq]; rfl, hd, by rw [byteCount_cons]; omega⟩
  after := h.after_cons rfl

end IsWordCut

theorem isWordCut_cutWord (pos : Nat) (line : List Char) :
    IsWordCut pos line (cutWord pos line) := by
  fun_induction cutWord pos line with
  | case1 => exact ⟨rfl, by simp, .inl rfl, .inl rfl⟩
  | case2 pos c cs hc cut hempty ih => exact ih.cons_word hc (List.isEmpty_iff.1 hempty)
  | case3 pos c cs hc cut hempty ih =>
    exact ih.cons_before fun hnil => absurd (List.isEmpty_iff.2 hnil) hempty
  | case4 pos c cs hc hpos cut ih => exact ih.cons_before fun _ => ⟨eq_false_of_ne_true hc, hpos⟩
  | case5 pos c cs hc hpos =>
    exact ⟨rfl, by simp, .inl rfl, .inr ⟨c, cs, rfl, eq_false_of_ne_true hc, by simpa using hpos⟩⟩

namespace IsWordCut

variable {cut : WordCut} {i : Nat} {c : Char}

/-- All that stands in front of the word starts before the place. -/
theorem lt_of_before {xs ys : List Char} (h : IsWordCut pos line cut)
    (hbefore : cut.before = xs ++ c :: ys) : byteCount xs < pos := by
  obtain ⟨front, d, heq, -, hlt⟩ := h.before.resolve_left (by simp [hbefore])
  rcases List.eq_nil_or_concat ys with rfl | ⟨ys, e, rfl⟩
  · obtain ⟨rfl, -⟩ := List.append_inj' (hbefore.symm.trans heq) rfl
    exact hlt
  · have hsplit : (xs ++ c :: ys) ++ [e] = front ++ [d] := by rw [← heq, hbefore]; simp
    obtain ⟨rfl, -⟩ := List.append_inj' hsplit rfl
    rw [byteCount_append] at hlt
    omega

/-- A break is in front of the word, and then it ends there and starts before the place, or behind
the word. -/
theorem breaksAt_cases (h : IsWordCut pos line cut) (hbreak : BreaksAt line i c) :
    i + c.utf8Size ≤ byteCount cut.before ∧ i < pos ∨
      byteCount (cut.before ++ cut.word) ≤ i ∧ pos ≤ i := by
  obtain ⟨xs, ys, hline, rfl, hc⟩ := hbreak
  -- Behind the word it is not before the break that is there.
  have hbehind (mid : List Char) (hxs : xs = cut.before ++ cut.word ++ mid)
      (hafter : cut.after ≠ []) :
      byteCount (cut.before ++ cut.word) ≤ byteCount xs ∧ pos ≤ byteCount xs := by
    obtain ⟨_, _, _, _, hle⟩ := h.after.resolve_left hafter
    rw [hxs, byteCount_append _ mid]
    omega
  rw [h.line_eq] at hline
  rcases List.append_eq_append_iff.1 hline with ⟨mid, rfl, hmid⟩ | ⟨mid, hfront, hmid⟩
  · exact .inr (hbehind mid rfl (by simp [hmid]))
  · rcases List.cons_eq_append_iff.1 hmid with ⟨rfl, hafter⟩ | ⟨rest, rfl, -⟩
    · exact .inr (hbehind [] (by simpa using hfront.symm) (by simp [hafter]))
    · -- A character of the word is no break, so this one is in front of the word.
      have hword : c ∉ cut.word := fun hmem => by simp [h.word c hmem] at hc
      rcases List.append_eq_append_iff.1 hfront with ⟨inner, -, hinner⟩ | ⟨inner, hbefore, hinner⟩
      · exact absurd (by simp [hinner]) hword
      · rcases List.cons_eq_append_iff.1 hinner with ⟨-, hstart⟩ | ⟨last, rfl, -⟩
        · exact absurd (by simp [hstart]) hword
        · exact .inl ⟨by simp [hbefore], h.lt_of_before hbefore⟩

theorem isGreatest_start (h : IsWordCut pos line cut) :
    IsGreatest (insert 0 (breakEnds line pos)) (byteCount cut.before) := by
  constructor
  · rcases h.before with hnil | ⟨front, c, heq, hc, hlt⟩
    · exact .inl (by rw [hnil, byteCount_nil])
    · refine .inr ⟨byteCount front, c, ⟨front, cut.word ++ cut.after, ?_, rfl, hc⟩, hlt, ?_⟩
      · rw [h.line_eq, heq]
        simp
      · simp [heq]
  · rintro k (rfl | ⟨i, c, hbreak, hi, rfl⟩)
    · exact Nat.zero_le _
    · rcases h.breaksAt_cases hbreak with ⟨hle, -⟩ | ⟨-, hpos⟩
      · exact hle
      · omega

theorem isLeast_stop (h : IsWordCut pos line cut) :
    IsLeast (insert (byteCount line) (breakStarts line pos))
      (byteCount (cut.before ++ cut.word)) := by
  constructor
  · rcases h.after with hnil | ⟨c, rest, heq, hc, hle⟩
    · exact .inl (by rw [h.line_eq, hnil, List.append_nil])
    · exact .inr ⟨c, ⟨cut.before ++ cut.word, rest, by rw [h.line_eq, heq], rfl, hc⟩, hle⟩
  · rintro k (rfl | ⟨c, hbreak, hk⟩)
    · rw [h.line_eq, byteCount_append (cut.before ++ cut.word)]
      omega
    · rcases h.breaksAt_cases hbreak with ⟨-, hlt⟩ | ⟨hle, -⟩
      · omega
      · exact hle

/-- There is only one way to cut the line there. -/
theorem unique {cut' : WordCut} (h : IsWordCut pos line cut) (h' : IsWordCut pos line cut') :
    cut = cut' := by
  have hstart := h.isGreatest_start.unique h'.isGreatest_start
  have hstop := h.isLeast_stop.unique h'.isLeast_stop
  obtain ⟨hfront, hafter⟩ := append_inj_of_byteCount (h.line_eq.symm.trans h'.line_eq) hstop
  obtain ⟨hbefore, hword⟩ := append_inj_of_byteCount hfront hstart
  cases cut
  cases cut'
  simp_all

/-- Other symbol characters in the place of the word, with the place right behind them. -/
theorem replace {chosen : List Char} (h : IsWordCut pos line cut)
    (hchosen : ∀ c ∈ chosen, isSymbolChar c = true) :
    IsWordCut (byteCount (cut.before ++ chosen)) (cut.before ++ chosen ++ cut.after)
      ⟨cut.before, chosen, cut.after⟩ where
  line_eq := rfl
  word := hchosen
  before := by
    refine h.before.imp_right fun ⟨front, c, heq, hc, _⟩ => ⟨front, c, heq, hc, ?_⟩
    have hpos := c.utf8Size_pos
    simp [heq]
    omega
  after := h.after.imp_right fun ⟨c, rest, heq, hc, _⟩ => ⟨c, rest, heq, hc, Nat.le_refl _⟩

end IsWordCut

/-! ## One pass over the line -/

/-- The bounds of the word, with `i` bytes of the line passed and the word starting at `start`
unless another break comes before the place. -/
def boundsFrom (pos start i : Nat) : List Char → Nat × Nat
  | [] => (start, i)
  | c :: cs =>
    if isSymbolChar c then boundsFrom pos start (i + c.utf8Size) cs
    else if i < pos then boundsFrom pos (i + c.utf8Size) (i + c.utf8Size) cs
    else (start, i)

def wordBounds (pos : Nat) (line : List Char) : Nat × Nat := boundsFrom pos 0 0 line

theorem boundsFrom_eq (pos start i : Nat) (cs : List Char) :
    boundsFrom pos start i cs =
      (if (cutWord (pos - i) cs).before = [] then start
        else i + byteCount (cutWord (pos - i) cs).before,
      i + byteCount ((cutWord (pos - i) cs).before ++ (cutWord (pos - i) cs).word)) := by
  fun_induction boundsFrom pos start i cs with
  | case1 start i => simp [cutWord]
  | case2 start i c cs hc ih =>
    rw [ih, Nat.sub_add_eq]
    by_cases hempty : (cutWord (pos - i - c.utf8Size) cs).before = [] <;>
      simp [cutWord, hc, hempty, Nat.add_assoc]
  | case3 start i c cs hc hlt ih =>
    have hpos : 0 < pos - i := Nat.sub_pos_of_lt hlt
    rw [ih, Nat.sub_add_eq]
    by_cases hempty : (cutWord (pos - i - c.utf8Size) cs).before = [] <;>
      simp [cutWord, hc, hpos, hempty, Nat.add_assoc]
  | case4 start i c cs hc hge =>
    have hpos : pos - i = 0 := Nat.sub_eq_zero_of_le (Nat.le_of_not_lt hge)
    simp [cutWord, hc, hpos]

theorem wordBounds_eq (pos : Nat) (line : List Char) :
    wordBounds pos line = (byteCount (cutWord pos line).before,
      byteCount ((cutWord pos line).before ++ (cutWord pos line).word)) := by
  rw [wordBounds, boundsFrom_eq]
  by_cases hempty : (cutWord pos line).before = [] <;> simp [hempty]

/-! ## Candidates -/

/-- The symbols that start with a text, in the order of their bytes. -/
structure AreCandidates (symbols : List String) (front : List Char) (found : List String) :
    Prop where
  perm : found.Perm (symbols.filter fun s => decide (front <+: s.toList))
  ascending : found.Pairwise fun s t => s.toUTF8.toList ≤ t.toUTF8.toList

theorem areCandidates_filter (symbols : List String) (front : List Char) :
    AreCandidates symbols front
      ((Completer.ofSymbols symbols).symbols.filter fun s => front.isPrefixOf s.toList) := by
  have hfront : (fun s : String => front.isPrefixOf s.toList) =
      fun s => decide (front <+: s.toList) :=
    funext fun s => by rw [Bool.eq_iff_iff, List.isPrefixOf_iff_prefix, decide_eq_true_iff]
  have hsorted : (symbols.mergeSort (· ≤ ·)).Pairwise (· ≤ ·) := by
    refine (List.pairwise_mergeSort ?_ ?_ symbols).imp of_decide_eq_true
    · exact fun a b c hab hbc =>
        decide_eq_true (String.le_trans (of_decide_eq_true hab) (of_decide_eq_true hbc))
    · exact fun a b => by simpa using String.le_total a b
  refine ⟨?_, ?_⟩
  · rw [hfront]
    exact (List.mergeSort_perm symbols _).filter _
  · refine (hsorted.imp fun hle hbytes => ?_).sublist List.filter_sublist
    exact hle (Text.lt_iff_toUTF8_lt.2 hbytes)

theorem complete_eq (symbols : List String) {line : String} {cut : WordCut}
    (h : IsWordCut pos line.toList cut) :
    ∃ found, (Completer.ofSymbols symbols).complete line pos = (byteCount cut.before, found) ∧
      AreCandidates symbols cut.word found := by
  obtain rfl : cutWord pos line.toList = cut := (isWordCut_cutWord pos line.toList).unique h
  exact ⟨_, rfl, areCandidates_filter symbols _⟩

theorem replaceWord_eq {line : String} {cut : WordCut} (h : IsWordCut pos line.toList cut)
    (elected : String) : replaceWord line pos elected =
      (String.ofList (cut.before ++ elected.toList ++ cut.after),
        byteCount (cut.before ++ elected.toList)) := by
  obtain rfl : cutWord pos line.toList = cut := (isWordCut_cutWord pos line.toList).unique h
  rfl

/-- Completion and replacement mean the same word: the text from the end of the last break that
starts before the place up to the first break that starts at the place or behind it. Its bounds,
found in one pass, are places between characters. Completion gives where it starts and the symbols
that start with it. Replacement by symbol characters puts these in its stead and the cursor right
behind them, where they are the word that is completed, and replaced by itself. -/
theorem complete_agrees_replaceWord (symbols : List String) (line : String) (pos : Nat) :
    ∃ before word after, line.toList = before ++ word ++ after ∧
      wordBounds pos line.toList = (byteCount before, byteCount (before ++ word)) ∧
      IsGreatest (insert 0 (breakEnds line.toList pos)) (byteCount before) ∧
      IsLeast (insert line.utf8ByteSize (breakStarts line.toList pos))
        (byteCount (before ++ word)) ∧
      slice? line.toList (byteCount before) (byteCount (before ++ word)) = some word ∧
      (∃ found, (Completer.ofSymbols symbols).complete line pos = (byteCount before, found) ∧
        AreCandidates symbols word found) ∧
      ∀ elected : String, (∀ c ∈ elected.toList, isSymbolChar c = true) →
        ∃ edited place, replaceWord line pos elected = (edited, place) ∧
          edited.toList = before ++ elected.toList ++ after ∧
          place = byteCount before + elected.utf8ByteSize ∧
          (∃ found,
            (Completer.ofSymbols symbols).complete edited place = (byteCount before, found) ∧
              AreCandidates symbols elected.toList found) ∧
          replaceWord edited place elected = (edited, place) := by
  have hcut := isWordCut_cutWord pos line.toList
  have hbounds := wordBounds_eq pos line.toList
  generalize cutWord pos line.toList = cut at hcut hbounds
  refine ⟨cut.before, cut.word, cut.after, hcut.line_eq, hbounds, hcut.isGreatest_start, ?_, ?_,
    complete_eq symbols hcut, fun elected helected => ?_⟩
  · rw [← byteCount_toList]
    exact hcut.isLeast_stop
  · rw [hcut.line_eq]
    exact slice?_append cut.before cut.word cut.after
  · have hedited : IsWordCut (byteCount (cut.before ++ elected.toList))
        (String.ofList (cut.before ++ elected.toList ++ cut.after)).toList
        ⟨cut.before, elected.toList, cut.after⟩ := by
      rw [String.toList_ofList]
      exact hcut.replace helected
    refine ⟨_, _, replaceWord_eq hcut elected, String.toList_ofList, ?_,
      complete_eq symbols hedited, replaceWord_eq hedited elected⟩
    rw [byteCount_append, byteCount_toList]

/-- With the place in the middle of a character that is a break: the word is the one behind it. -/
theorem complete_agrees_replaceWord_of_arrow :
    let symbols := ["print", "first", "fé", "fi"]
    (∃ found, (Completer.ofSymbols symbols).complete "(a→f x)" 3 = (5, found) ∧
        AreCandidates symbols ['f'] found) ∧
      (∀ c ∈ "fé".toList, isSymbolChar c = true) ∧
      replaceWord "(a→f x)" 3 "fé" = ("(a→fé x)", 8) ∧
      (∃ found, (Completer.ofSymbols symbols).complete "(a→fé x)" 8 = (5, found) ∧
        AreCandidates symbols ['f', 'é'] found) ∧
      replaceWord "(a→fé x)" 8 "fé" = ("(a→fé x)", 8) := by
  intro symbols
  obtain ⟨before, word, after, -, hbounds, -, -, hslice, hfound, hedit⟩ :=
    complete_agrees_replaceWord symbols "(a→f x)" 3
  have hsymbol : ∀ c ∈ "fé".toList, isSymbolChar c = true := by
    have hall : "fé".toList.all isSymbolChar = true := by decide +kernel
    exact List.all_eq_true.1 hall
  have hedited : replaceWord "(a→f x)" 3 "fé" = ("(a→fé x)", 8) := by decide +kernel
  obtain ⟨hstart, hstop⟩ : byteCount before = 5 ∧ byteCount (before ++ word) = 6 :=
    Prod.mk.inj (hbounds.symm.trans (by decide +kernel))
  obtain rfl : word = ['f'] := by
    rw [hstart, hstop] at hslice
    exact Option.some.inj (hslice.symm.trans (by decide +kernel))
  obtain ⟨edited, place, heq, -, -, hagain, hstable⟩ := hedit "fé" hsymbol
  obtain ⟨rfl, rfl⟩ := Prod.mk.inj (heq.symm.trans hedited)
  rw [hstart] at hfound hagain
  exact ⟨hfound, hsymbol, hedited, hagain, hstable⟩

end PairLisp.Repl
