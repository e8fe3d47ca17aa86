/-!
# Sets of code points

The tables of characters hold properties of Unicode 17.0 as ranges of code points.

- `Text.Ranges`: a set of code points as ranges, both ends included.
- `Text.Ranges.contains`: membership.
- `Text.Ranges.ascending`: whether the ranges ascend and lie apart, as the tables do.
- `Text.Ranges.contains_iff`: in ascending ranges, membership is membership in one of them.
-/

namespace JsonTree.Text

/-- Ranges of code points, both ends included. -/
abbrev Ranges := List (Nat × Nat)

namespace Ranges

/-- Membership in ascending ranges; the first range that starts above `n` ends the search. -/
def contains : Ranges → Nat → Bool
  | [], _ => false
  | (first, last) :: rs, n => first ≤ n && (n ≤ last || contains rs n)

/-- Whether every range starts above the range before it, and above `low`. -/
def ascendingFrom : Nat → Ranges → Bool
  | _, [] => true
  | low, (first, last) :: rs => low ≤ first && first ≤ last && ascendingFrom (last + 1) rs

/-- Whether the ranges ascend and lie apart. -/
def ascending (rs : Ranges) : Bool := ascendingFrom 0 rs

/-- No range of an ascending list starts below its bound, so none behind the place where a search
stops can hold the code point. -/
theorem le_of_ascendingFrom {low : Nat} {rs : Ranges} (h : ascendingFrom low rs = true) :
    ∀ r ∈ rs, low ≤ r.1 := by
  induction rs generalizing low with
  | nil => simp
  | cons r rs ih =>
    simp only [ascendingFrom, Bool.and_eq_true, decide_eq_true_eq] at h
    intro s hs
    rcases List.mem_cons.1 hs with rfl | hs
    · exact h.1.1
    · exact Nat.le_trans (by omega) (ih h.2 s hs)

/-- The form that the induction needs, with the bound that the ranges passed over have left. -/
theorem contains_iff_of_ascendingFrom {low : Nat} {rs : Ranges} {n : Nat}
    (h : ascendingFrom low rs = true) :
    contains rs n = true ↔ ∃ r ∈ rs, r.1 ≤ n ∧ n ≤ r.2 := by
  induction rs generalizing low with
  | nil => simp [contains]
  | cons r rs ih =>
    simp only [ascendingFrom, Bool.and_eq_true, decide_eq_true_eq] at h
    have hle := le_of_ascendingFrom h.2
    simp only [contains, Bool.and_eq_true, Bool.or_eq_true, decide_eq_true_eq, ih h.2]
    constructor
    · rintro ⟨h₁, h₂ | ⟨s, hs, hn⟩⟩
      · exact ⟨r, List.mem_cons_self, h₁, h₂⟩
      · exact ⟨s, List.mem_cons_of_mem r hs, hn⟩
    · rintro ⟨s, hs, h₁, h₂⟩
      rcases List.mem_cons.1 hs with rfl | hs
      · exact ⟨h₁, Or.inl h₂⟩
      · have := hle s hs
        exact ⟨by omega, Or.inr ⟨s, hs, h₁, h₂⟩⟩

/-- In ascending ranges, membership is membership in one of them. -/
theorem contains_iff {rs : Ranges} {n : Nat} (h : rs.ascending = true) :
    rs.contains n = true ↔ ∃ r ∈ rs, r.1 ≤ n ∧ n ≤ r.2 :=
  contains_iff_of_ascendingFrom h

end Ranges

end JsonTree.Text
