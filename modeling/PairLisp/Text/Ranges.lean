/-! # Classes of code points as ascending ranges

A class is a list of inclusive ranges in ascending order. Membership walks the list and stops at
the first range that starts above the code point, which is membership in one of them because they
ascend.
-/

namespace PairLisp.Text

/-- Inclusive ranges of code points, lowest first. -/
abbrev Ranges := List (Nat × Nat)

namespace Ranges

def contains : Ranges → Nat → Bool
  | [], _ => false
  | (lo, hi) :: rs, n => if n < lo then false else if n ≤ hi then true else contains rs n

/-- Every range is non-empty and ends below the start of the next one. -/
def Ascending (rs : Ranges) : Prop :=
  (∀ r ∈ rs, r.1 ≤ r.2) ∧ rs.Pairwise (fun r s => r.2 < s.1)

theorem contains_iff {rs : Ranges} (h : rs.Ascending) (n : Nat) :
    contains rs n = true ↔ ∃ r ∈ rs, r.1 ≤ n ∧ n ≤ r.2 := by
  induction rs with
  | nil => simp [contains]
  | cons r rs ih =>
    obtain ⟨lo, hi⟩ := r
    obtain ⟨hne, hlt⟩ := h
    have htail : Ascending rs :=
      ⟨fun s hs => hne s (List.mem_cons_of_mem _ hs), (List.pairwise_cons.1 hlt).2⟩
    have hhead := (List.pairwise_cons.1 hlt).1
    have hlohi : lo ≤ hi := hne (lo, hi) List.mem_cons_self
    rw [contains]
    split
    · next hlo =>
      simp only [Bool.false_eq_true, false_iff, not_exists, not_and]
      intro s hs hsn
      rcases List.mem_cons.1 hs with rfl | hs
      · omega
      · have : hi < s.1 := hhead s hs
        omega
    · next hlo =>
      split
      · next hhi => exact iff_of_true rfl ⟨(lo, hi), List.mem_cons_self, by omega, hhi⟩
      · next hhi =>
        rw [ih htail]
        constructor
        · rintro ⟨s, hs, hn⟩
          exact ⟨s, List.mem_cons_of_mem _ hs, hn⟩
        · rintro ⟨s, hs, hn⟩
          rcases List.mem_cons.1 hs with rfl | hs
          · exact absurd hn.2 hhi
          · exact ⟨s, hs, hn⟩

def ascends : Ranges → Bool
  | [] => true
  | [r] => r.1 ≤ r.2
  | r :: s :: rs => r.1 ≤ r.2 && r.2 < s.1 && ascends (s :: rs)

theorem ascending_of_ascends {rs : Ranges} (h : rs.ascends = true) : rs.Ascending := by
  induction rs with
  | nil => exact ⟨by simp, .nil⟩
  | cons r rs ih =>
    cases rs with
    | nil => exact ⟨by simpa [ascends] using h, List.pairwise_singleton _ _⟩
    | cons s rs =>
      simp only [ascends, Bool.and_eq_true, decide_eq_true_eq] at h
      obtain ⟨⟨hr, hrs⟩, htail⟩ := h
      obtain ⟨hne, hlt⟩ := ih htail
      refine ⟨?_, List.pairwise_cons.2 ⟨?_, hlt⟩⟩
      · intro t ht
        rcases List.mem_cons.1 ht with rfl | ht
        · exact hr
        · exact hne t ht
      · intro t ht
        rcases List.mem_cons.1 ht with rfl | ht
        · exact hrs
        · have hst := (List.pairwise_cons.1 hlt).1 t ht
          have hs := hne s List.mem_cons_self
          omega

end Ranges
end PairLisp.Text
