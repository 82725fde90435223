/-!
# Ranges of code points

A class of characters is kept as a list of ranges of code points, in ascending order. Looking a code
point up stops at the first range that it does not lie behind; `exists_of_inRanges` says that a code
point that is found lies in one of the ranges.
-/

namespace ObjectSystem.Text

/-- Ranges of code points, both ends included. -/
abbrev Ranges := List (Nat × Nat)

/-- Whether a code point lies in one of the ranges of an ascending list. -/
def inRanges (code : Nat) : Ranges → Bool
  | [] => false
  | (first, last) :: rest =>
    if code < first then false else if code ≤ last then true else inRanges code rest

theorem exists_of_inRanges {code : Nat} {ranges : Ranges} (h : inRanges code ranges = true) :
    ∃ range ∈ ranges, range.1 ≤ code ∧ code ≤ range.2 := by
  induction ranges with
  | nil => simp [inRanges] at h
  | cons range rest ih =>
    obtain ⟨first, last⟩ := range
    unfold inRanges at h
    split at h
    · simp at h
    · split at h
      · exact ⟨(first, last), by simp, by omega, by assumption⟩
      · obtain ⟨range, hr, hc⟩ := ih h
        exact ⟨range, by simp [hr], hc⟩

end ObjectSystem.Text
