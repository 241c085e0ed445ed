import PairLisp.Text.Ranges

/-! # Blank characters

The characters with the Unicode property White_Space. A text made of them alone is blank.
-/

namespace PairLisp.Text

def blankRanges : Ranges :=
  [(0x9, 0xD), (0x20, 0x20), (0x85, 0x85), (0xA0, 0xA0), (0x1680, 0x1680), (0x2000, 0x200A),
   (0x2028, 0x2029), (0x202F, 0x202F), (0x205F, 0x205F), (0x3000, 0x3000)]

theorem blankRanges_ascending : blankRanges.Ascending :=
  Ranges.ascending_of_ascends (by decide +kernel)

/-- White space of every script; the scanner itself skips only four of these characters. -/
def isBlank (c : Char) : Bool := blankRanges.contains c.toNat

theorem isBlank_iff (c : Char) :
    isBlank c = true ↔ ∃ r ∈ blankRanges, r.1 ≤ c.toNat ∧ c.toNat ≤ r.2 :=
  Ranges.contains_iff blankRanges_ascending c.toNat

end PairLisp.Text
