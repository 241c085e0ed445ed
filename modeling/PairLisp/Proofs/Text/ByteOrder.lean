import Mathlib.Tactic.ByContra
import Mathlib.Tactic.SplitIfs
import PairLisp.Proofs.Text.Bytes

/-! # Strings in the order of their bytes

Strings are ordered by their characters, and a character by its number. That is the order of their
UTF-8 forms by bytes: where two characters differ, so do their bytes, and at the first of these the
character with the smaller number has the smaller byte.
-/

namespace PairLisp.Text

/-- At the first place where the two differ, the byte of the first is smaller. -/
inductive Below : List UInt8 → List UInt8 → Prop where
  | here {a b : UInt8} (as bs : List UInt8) : a < b → Below (a :: as) (b :: bs)
  | later {as bs : List UInt8} (a : UInt8) : Below as bs → Below (a :: as) (a :: bs)

namespace Below

variable {a b : UInt8} {as bs : List UInt8}

theorem cons_iff : Below (a :: as) (b :: bs) ↔ a < b ∨ a = b ∧ Below as bs := by
  constructor
  · intro h
    cases h with
    | here _ _ hlt => exact .inl hlt
    | later _ h => exact .inr ⟨rfl, h⟩
  · rintro (hlt | ⟨rfl, h⟩)
    · exact .here as bs hlt
    · exact .later a h

theorem append_lt (h : Below as bs) (cs ds : List UInt8) : as ++ cs < bs ++ ds := by
  induction h with
  | here as bs hlt => exact List.cons_lt_cons_iff.2 (.inl hlt)
  | later a _ ih => exact List.cons_lt_cons_iff.2 (.inr ⟨rfl, ih⟩)

end Below

theorem below_ofNat_iff {m n : Nat} {as bs : List UInt8} (hm : m < 256) (hn : n < 256) :
    Below (UInt8.ofNat m :: as) (UInt8.ofNat n :: bs) ↔ m < n ∨ m = n ∧ Below as bs := by
  have heq : UInt8.ofNat m = UInt8.ofNat n ↔ m = n := by
    rw [← UInt8.toNat_inj, UInt8.toNat_ofNat_of_lt' hm, UInt8.toNat_ofNat_of_lt' hn]
  rw [Below.cons_iff, UInt8.ofNat_lt_iff_lt hm hn, heq]

/-- The bytes of two characters differ where the higher digits of their numbers do, and a longer
form starts with a greater byte. -/
theorem below_utf8EncodeChar {c d : Char} (h : c < d) :
    Below (String.utf8EncodeChar c) (String.utf8EncodeChar d) := by
  have hlt : c.val.toNat < d.val.toNat := h
  have hvalid : d.val.toNat < 0x110000 := by
    rcases d.valid with hlow | ⟨-, hhigh⟩
    · exact Nat.lt_trans hlow (by decide)
    · exact hhigh
  have hdigits (v : Nat) (hv : v < 0x110000) : v / 64 / 64 = v / 4096 ∧
      v / 4096 / 64 = v / 262144 ∧ v / 262144 % 8 = v / 262144 :=
    ⟨Nat.div_div_eq_div_mul v 64 64, Nat.div_div_eq_div_mul v 4096 64, by omega⟩
  have hc := hdigits c.val.toNat (Nat.lt_trans hlt hvalid)
  have hd := hdigits d.val.toNat hvalid
  simp only [String.utf8EncodeChar]
  split_ifs <;> simp (disch := omega) only [below_ofNat_iff] <;> omega

theorem flatMap_lt_flatMap {cs ds : List Char} (h : cs < ds) :
    cs.flatMap String.utf8EncodeChar < ds.flatMap String.utf8EncodeChar := by
  induction h with
  | @nil d ds =>
    rw [List.flatMap_cons]
    cases hcode : String.utf8EncodeChar d with
    | nil => exact absurd hcode String.utf8EncodeChar_ne_nil
    | cons b bs => exact List.nil_lt_cons b _
  | @rel c cs d ds hcd => exact (below_utf8EncodeChar hcd).append_lt _ _
  | @cons c cs ds _ ih => exact List.append_left_lt ih

/-- A string is less than another exactly if its bytes come first. -/
theorem lt_iff_toUTF8_lt {s t : String} : s < t ↔ s.toUTF8.toList < t.toUTF8.toList := by
  have hmono {s t : String} (h : s < t) : s.toUTF8.toList < t.toUTF8.toList := by
    rw [toList_toUTF8, toList_toUTF8]
    exact flatMap_lt_flatMap h
  refine ⟨hmono, fun hbytes => ?_⟩
  by_contra hge
  by_cases hlt : t < s
  · exact List.lt_asymm hbytes (hmono hlt)
  · obtain rfl : s = t := String.le_antisymm (String.not_lt.1 hlt) (String.not_lt.1 hge)
    exact List.lt_irrefl _ hbytes

end PairLisp.Text
