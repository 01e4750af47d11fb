import Mathlib.Algebra.Ring.Int.Defs
import PseudoWord.Proofs.AddedInOrder

namespace PseudoWord

namespace WeightedSet

variable {α : Type}

/-- What is accepted of the attempts to add items, each with its weight, when the weights that were
accepted before come to `sum`: a weight must be positive and leave the sum a 64-bit number. -/
def admitted (sum : Nat) : List (α × Int64) → List (α × UInt64)
  | [] => []
  | (item, weight) :: rest =>
    if 0 < weight.toInt ∧ sum + weight.toInt ≤ 2 ^ 64 - 1 then
      (item, weight.toUInt64) :: admitted (sum + weight.toUInt64.toNat) rest
    else admitted sum rest

theorem isSome_insert?_iff (s : WeightedSet α) (item : α) (weight : Int64) :
    (s.insert? item weight).isSome = true ↔
      0 < weight.toInt ∧ s.total.toNat + weight.toInt ≤ 2 ^ 64 - 1 := by
  have signed : 0 < weight ↔ 0 < weight.toInt := Int64.lt_iff_toInt_lt
  have size : UInt64.size = 2 ^ 64 := rfl
  rw [insert?_isSome_iff, signed]
  refine and_congr_right fun positive => ?_
  have value := Int64.toNat_toUInt64_of_le (Int64.le_of_lt (signed.mpr positive))
  have clamp : weight.toNatClampNeg = weight.toInt.toNat := rfl
  omega

theorem of_insert?_eq_some {s after : WeightedSet α} {item : α} {weight : Int64}
    (accepted : s.insert? item weight = some after) :
    after.total.toNat = s.total.toNat + weight.toUInt64.toNat ∧
      after.entries = s.entries.insert after.total item := by
  rw [insert?] at accepted
  split at accepted
  · rename_i fits
    cases Option.some.inj accepted
    exact ⟨(UInt64.toNat_add _ _).trans (Nat.mod_eq_of_lt fits.2), rfl⟩
  · cases accepted

/-- One attempt and then the others: what is accepted of them is what is admitted. -/
theorem insertAll_cons_cases (s : WeightedSet α) (item : α) (weight : Int64)
    (rest : List (α × Int64)) :
    (∃ after, s.insert? item weight = some after ∧
        s.insertAll ((item, weight) :: rest) = after.insertAll rest ∧
        admitted s.total.toNat ((item, weight) :: rest) =
          (item, weight.toUInt64) :: admitted after.total.toNat rest) ∨
      s.insertAll ((item, weight) :: rest) = s.insertAll rest ∧
        admitted s.total.toNat ((item, weight) :: rest) = admitted s.total.toNat rest := by
  have admits := s.isSome_insert?_iff item weight
  have next : s.insertAll ((item, weight) :: rest) = (s.insert item weight).insertAll rest := rfl
  rw [next, WeightedSet.insert, admitted]
  cases accepted : s.insert? item weight with
  | some after =>
    rw [accepted] at admits
    rw [if_pos (admits.mp rfl), ← (of_insert?_eq_some accepted).1]
    exact .inl ⟨after, rfl, rfl, rfl⟩
  | none =>
    rw [accepted] at admits
    rw [if_neg fun fits => Bool.false_ne_true (admits.mpr fits)]
    exact .inr ⟨rfl, rfl⟩

theorem total_insertAll (s : WeightedSet α) (items : List (α × Int64)) :
    (s.insertAll items).total.toNat = s.total.toNat + weightSum (admitted s.total.toNat items) := by
  induction items generalizing s with
  | nil => rfl
  | cons attempt rest ih =>
    rcases s.insertAll_cons_cases attempt.1 attempt.2 rest with ⟨after, accepted, set, list⟩ | ⟨set, list⟩
    · rw [set, list, ih, (of_insert?_eq_some accepted).1, weightSum, weightSum, List.map_cons,
        List.sum_cons, Nat.add_assoc]
    · rw [set, list, ih]

theorem FilledBy.insertAll {s : WeightedSet α} {added : List (α × UInt64)} (filled : s.FilledBy added)
    (items : List (α × Int64)) :
    (s.insertAll items).FilledBy (added ++ admitted s.total.toNat items) := by
  induction items generalizing s added with
  | nil => exact (List.append_nil added).symm ▸ filled
  | cons attempt rest ih =>
    rcases s.insertAll_cons_cases attempt.1 attempt.2 rest with ⟨after, accepted, set, list⟩ | ⟨set, list⟩
    · rw [set, list, List.append_cons]
      exact ih (filled.insert accepted)
    · rw [set, list]
      exact ih filled

theorem one_le_of_mem_admitted {sum : Nat} {items : List (α × Int64)} {item : α × UInt64}
    (member : item ∈ admitted sum items) : 1 ≤ item.2.toNat := by
  induction items generalizing sum with
  | nil => exact absurd member List.not_mem_nil
  | cons attempt rest ih =>
    rw [admitted] at member
    split at member
    · rename_i fits
      rcases List.mem_cons.mp member with rfl | later
      · exact (Int64.toUInt64_of_pos (Int64.lt_iff_toInt_lt.mpr fits.1)).1
      · exact ih later
    · exact ih member

theorem lt_of_mem_tally {sum : Nat} {added : List (α × UInt64)}
    (positive : ∀ item ∈ added, 1 ≤ item.2.toNat) {entry : Nat × α} (member : entry ∈ tally sum added) :
    sum < entry.1 := by
  induction added generalizing sum with
  | nil => exact absurd member List.not_mem_nil
  | cons first rest ih =>
    have atFirst := positive first List.mem_cons_self
    rcases List.mem_cons.mp member with rfl | later
    · exact Nat.lt_add_of_pos_right atFirst
    · have above := ih (fun item inRest => positive item (List.mem_cons_of_mem first inRest)) later
      omega

/-- Each accepted item stands under its running total; under the other keys nothing has changed. -/
theorem get?_insertAll (s : WeightedSet α) (items : List (α × Int64)) (key : UInt64) :
    (s.insertAll items).get? key =
      ((tally s.total.toNat (admitted s.total.toNat items)).lookup key.toNat).or (s.get? key) := by
  induction items generalizing s with
  | nil => rfl
  | cons attempt rest ih =>
    rcases s.insertAll_cons_cases attempt.1 attempt.2 rest with ⟨after, accepted, set, list⟩ | ⟨set, list⟩
    · obtain ⟨total, entries⟩ := of_insert?_eq_some accepted
      rw [set, list, ih, tally, ← total, List.lookup_cons]
      rw [get?, get?, entries, KeyMap.get?_insert]
      by_cases same : key = after.total
      · subst same
        have fresh : (tally after.total.toNat (admitted after.total.toNat rest)).lookup
            after.total.toNat = none := by
          refine List.lookup_eq_none_iff.mpr fun entry member => ?_
          have above := lt_of_mem_tally (fun _ => one_le_of_mem_admitted) member
          exact bne_iff_ne.mpr (Nat.ne_of_lt above)
        simp [fresh]
      · have apart : (key.toNat == after.total.toNat) = false :=
          beq_false_of_ne fun equal => same (UInt64.toNat_inj.mp equal)
        rw [if_neg same, apart]
    · rw [set, list, ih]

theorem Climbs.steps_append {low total key : UInt64} {entries : List (UInt64 × α)}
    (climb : Climbs low entries total) (item : α) :
    steps low (entries ++ [(key, item)]) = steps low entries ++ [(item, key - total)] := by
  induction climb with
  | done => rfl
  | step _ _ _ ih => rw [List.cons_append, steps, ih, steps, List.cons_append]

/-- The weights that are read off the keys of a set are those with which its items were added. -/
theorem FilledBy.weighted {s : WeightedSet α} {added : List (α × UInt64)} (filled : s.FilledBy added) :
    s.weighted = added := by
  induction filled with
  | empty => rfl
  | @insert s after added item weight before accepted ih =>
    obtain ⟨_, total, entries⟩ := insert?_eq_some before.sound accepted
    have last : after.total - s.total = weight.toUInt64 := by
      refine UInt64.toNat_inj.mp ?_
      rw [UInt64.toNat_sub_of_le _ _ (UInt64.le_iff_toNat_le.mpr (by omega)), total,
        Nat.add_sub_cancel_left]
    rw [WeightedSet.weighted, entries, Climbs.steps_append before.sound, last]
    exact congrArg (· ++ [(item, weight.toUInt64)]) ih

theorem Sound.weighted_insertAll {s : WeightedSet α} (sound : s.Sound) (items : List (α × Int64)) :
    (s.insertAll items).weighted = s.weighted ++ admitted s.total.toNat items := by
  obtain ⟨added, filled⟩ := sound.exists_filledBy
  rw [(filled.insertAll items).weighted, filled.weighted]

end WeightedSet

end PseudoWord
