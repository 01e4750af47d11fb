namespace PseudoWord

/-- Code points given as ranges, both ends included, in ascending order. -/
abbrev CharRanges := List (Nat × Nat)

/-- Whether a character is in one of the ranges. The search ends at the first range above it. -/
def CharRanges.has : CharRanges → Char → Bool
  | [], _ => false
  | (low, high) :: rest, c =>
    if c.toNat < low then false else if c.toNat ≤ high then true else CharRanges.has rest c

/-- A character that is found lies in one of the ranges. -/
theorem CharRanges.exists_of_has {ranges : CharRanges} {c : Char} (found : ranges.has c = true) :
    ∃ range ∈ ranges, range.1 ≤ c.toNat ∧ c.toNat ≤ range.2 := by
  induction ranges with
  | nil => exact Bool.noConfusion found
  | cons head rest ih =>
    rw [CharRanges.has] at found
    split at found
    · exact Bool.noConfusion found
    · split at found
      · rename_i notBelow notAbove
        exact ⟨head, List.mem_cons_self, Nat.not_lt.mp notBelow, notAbove⟩
      · obtain ⟨range, member, bounds⟩ := ih found
        exact ⟨range, List.mem_cons_of_mem head member, bounds⟩

end PseudoWord
