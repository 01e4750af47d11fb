import Mathlib.Data.Set.Card
import Mathlib.Order.Interval.Finset.Nat
import PseudoWord.Proofs.AdmittedWeights

namespace PseudoWord

namespace WeightedSet

variable {α : Type}

theorem length_tally (sum : Nat) (added : List (α × UInt64)) :
    (tally sum added).length = added.length := by
  induction added generalizing sum with
  | nil => rfl
  | cons first rest ih => exact congrArg (· + 1) (ih _)

theorem weightSum_take_cons (first : α × UInt64) (rest : List (α × UInt64)) (k : Nat) :
    weightSum ((first :: rest).take (k + 1)) = first.2.toNat + weightSum (rest.take k) := by
  rw [weightSum, List.take_succ_cons, List.map_cons, List.sum_cons]
  rfl

theorem weightSum_take_succ {added : List (α × UInt64)} {k : Nat} {item : α} {weight : UInt64}
    (atK : added[k]? = some (item, weight)) :
    weightSum (added.take (k + 1)) = weightSum (added.take k) + weight.toNat := by
  rw [List.take_add_one, atK]
  exact weightSum_append_singleton _ (item, weight)

theorem weightSum_take_mono (added : List (α × UInt64)) {j k : Nat} (before : j ≤ k) :
    weightSum (added.take j) ≤ weightSum (added.take k) := by
  obtain ⟨more, rfl⟩ := Nat.exists_eq_add_of_le before
  rw [List.take_add, weightSum, weightSum, List.map_append, List.sum_append]
  exact Nat.le_add_right _ _

theorem weightSum_take_le (added : List (α × UInt64)) (k : Nat) :
    weightSum (added.take k) ≤ weightSum added := by
  have whole := weightSum_take_mono added (Nat.le_max_left k added.length)
  rwa [List.take_of_length_le (Nat.le_max_right k added.length)] at whole

theorem getElem?_tally {sum k : Nat} {added : List (α × UInt64)} {item : α} {weight : UInt64}
    (atK : added[k]? = some (item, weight)) :
    (tally sum added)[k]? = some (sum + weightSum (added.take (k + 1)), item) := by
  induction added generalizing sum k with
  | nil => cases atK
  | cons first rest ih =>
    rw [weightSum_take_cons, ← Nat.add_assoc]
    cases k with
    | zero =>
      cases atK
      rfl
    | succ k => exact ih atK

/-- The first running total above a number is that of the item whose weight takes the sum past it. -/
theorem find?_tally_eq_some_iff {sum draw key : Nat} {added : List (α × UInt64)} {item : α}
    (lower : sum ≤ draw) :
    (tally sum added).find? (fun entry => decide (draw < entry.1)) = some (key, item) ↔
      ∃ k weight, added[k]? = some (item, weight) ∧ key = sum + weightSum (added.take (k + 1)) ∧
        sum + weightSum (added.take k) ≤ draw ∧ draw < key := by
  induction added generalizing sum with
  | nil => simp [tally]
  | cons first rest ih =>
    have none : weightSum (rest.take 0) = 0 := rfl
    have taken (k : Nat) : sum + weightSum ((first :: rest).take (k + 1)) =
        sum + first.2.toNat + weightSum (rest.take k) := by
      rw [weightSum_take_cons, Nat.add_assoc]
    rw [tally, List.find?_cons]
    by_cases below : draw < sum + first.2.toNat
    · rw [decide_eq_true below]
      constructor
      · intro found
        cases Option.some.inj found
        exact ⟨0, first.2, rfl, by rw [taken, none, Nat.add_zero], lower, below⟩
      · rintro ⟨k, weight, atK, rfl, least, most⟩
        cases k with
        | zero =>
          cases atK
          rw [taken, none, Nat.add_zero]
        | succ k =>
          rw [taken] at least
          omega
    · rw [decide_eq_false below]
      refine (ih (Nat.not_lt.mp below)).trans ⟨?_, ?_⟩
      · rintro ⟨k, weight, atK, rfl, least, most⟩
        exact ⟨k + 1, weight, atK, (taken (k + 1)).symm, (taken k).symm ▸ least, most⟩
      · rintro ⟨k, weight, atK, rfl, least, most⟩
        cases k with
        | zero =>
          rw [taken, none, Nat.add_zero] at most
          exact absurd most below
        | succ k => exact ⟨k, weight, atK, taken (k + 1), taken k ▸ least, most⟩

/-- The number of draws between two bounds. -/
theorem ncard_draws {low high : Nat} (bound : high ≤ UInt64.size) :
    {draw : UInt64 | low ≤ draw.toNat ∧ draw.toNat < high}.ncard = high - low := by
  have numbers : UInt64.toNat '' {draw : UInt64 | low ≤ draw.toNat ∧ draw.toNat < high} =
      (Finset.Ico low high : Set Nat) := by
    ext value
    simp only [Set.mem_image, Set.mem_ofPred_eq, Finset.coe_Ico, Set.mem_Ico]
    constructor
    · rintro ⟨draw, inside, rfl⟩
      exact inside
    · intro inside
      have small : (UInt64.ofNat value).toNat = value :=
        UInt64.toNat_ofNat_of_lt' (Nat.lt_of_lt_of_le inside.2 bound)
      exact ⟨UInt64.ofNat value, small.symm ▸ inside, small⟩
  have injective : Function.Injective UInt64.toNat := fun _ _ same => UInt64.toNat_inj.mp same
  rw [← Set.ncard_image_of_injective _ injective, numbers, Set.ncard_coe_finset, Nat.card_Ico]

section Filled

variable {s : WeightedSet α} {added : List (α × UInt64)}

theorem FilledBy.size (filled : s.FilledBy added) : s.size = added.length := by
  have lengths := congrArg List.length filled.entries
  rw [List.length_map, length_tally] at lengths
  exact lengths

/-- The entry that a draw picks is that of the item whose weight takes the sum past the draw. -/
theorem FilledBy.above?_eq_some_iff (filled : s.FilledBy added) {draw key : UInt64} {item : α} :
    s.entries.above? draw = some (key, item) ↔
      ∃ k weight, added[k]? = some (item, weight) ∧ key.toNat = weightSum (added.take (k + 1)) ∧
        weightSum (added.take k) ≤ draw.toNat ∧ draw.toNat < key.toNat := by
  have numbers : (s.entries.above? draw).map (fun entry => (entry.1.toNat, entry.2)) =
      (tally 0 added).find? (fun entry => decide (draw.toNat < entry.1)) := by
    rw [← filled.entries, List.find?_map]
    rfl
  have injective : Function.Injective (fun entry : UInt64 × α => (entry.1.toNat, entry.2)) := by
    intro a b same
    exact Prod.ext (UInt64.toNat_inj.mp (congrArg Prod.fst same)) (congrArg (·.2) same)
  have picked : s.entries.above? draw = some (key, item) ↔
      (tally 0 added).find? (fun entry => decide (draw.toNat < entry.1)) = some (key.toNat, item) := by
    rw [← numbers]
    exact (Option.map_injective injective).eq_iff.symm
  rw [picked, find?_tally_eq_some_iff (Nat.zero_le _)]
  simp only [Nat.zero_add]

theorem FilledBy.sample_eq_some_iff (filled : s.FilledBy added) {draw : UInt64} {item : α} :
    s.sample draw = some item ↔
      ∃ k weight, added[k]? = some (item, weight) ∧ weightSum (added.take k) ≤ draw.toNat ∧
        draw.toNat < weightSum (added.take (k + 1)) := by
  rw [sample, Option.map_eq_some_iff]
  constructor
  · rintro ⟨⟨key, _⟩, picked, rfl⟩
    obtain ⟨k, weight, atK, total, least, most⟩ := filled.above?_eq_some_iff.mp picked
    exact ⟨k, weight, atK, least, total ▸ most⟩
  · rintro ⟨k, weight, atK, least, most⟩
    have small : weightSum (added.take (k + 1)) < UInt64.size :=
      Nat.lt_of_le_of_lt (weightSum_take_le added _) (filled.total ▸ s.total.toNat_lt_size)
    have key := UInt64.toNat_ofNat_of_lt' small
    exact ⟨(.ofNat _, item),
      filled.above?_eq_some_iff.mpr ⟨k, weight, atK, key, least, key.symm ▸ most⟩, rfl⟩

theorem FilledBy.sample_eq_none_iff (filled : s.FilledBy added) {draw : UInt64} :
    s.sample draw = none ↔ s.total ≤ draw := by
  constructor
  · intro nothing
    refine UInt64.not_lt.mp fun below => ?_
    obtain ⟨item, _, picked⟩ := filled.sound.sample_of_lt below
    cases nothing.symm.trans picked
  · intro past
    refine Option.eq_none_iff_forall_ne_some.mpr fun item picked => ?_
    obtain ⟨k, _, _, _, most⟩ := filled.sample_eq_some_iff.mp picked
    have whole := weightSum_take_le added (k + 1)
    have bound := UInt64.le_iff_toNat_le.mp past
    rw [filled.total] at bound
    omega

theorem FilledBy.getElem?_entries (filled : s.FilledBy added) {k : Nat} {item : α} {weight : UInt64}
    (atK : added[k]? = some (item, weight)) :
    ∃ key, s.entries.entries[k]? = some (key, item) ∧ key.toNat = weightSum (added.take (k + 1)) := by
  have listed := congrArg (·[k]?) filled.entries
  simp only [List.getElem?_map, getElem?_tally atK, Nat.zero_add] at listed
  obtain ⟨⟨key, other⟩, atKey, same⟩ := Option.map_eq_some_iff.mp listed
  obtain ⟨total, rfl⟩ := Prod.mk.inj same
  exact ⟨key, atKey, total⟩

/-- An entry is picked by the draws from the sum of the weights before its item up to its own key. -/
theorem FilledBy.above?_iff_of_key (filled : s.FilledBy added) {k : Nat} {item : α} {weight key : UInt64}
    (atK : added[k]? = some (item, weight)) (total : key.toNat = weightSum (added.take (k + 1)))
    (draw : UInt64) :
    s.entries.above? draw = some (key, item) ↔
      weightSum (added.take k) ≤ draw.toNat ∧ draw.toNat < weightSum (added.take (k + 1)) := by
  rw [filled.above?_eq_some_iff, ← total]
  constructor
  · rintro ⟨j, _, atJ, same, least, most⟩
    have positive : 1 ≤ weight.toNat := (filled.weights _ (List.mem_of_getElem? atK)).1
    have own := weightSum_take_succ atK
    refine ⟨?_, most⟩
    rcases Nat.lt_trichotomy j k with before | rfl | after
    · have below : weightSum (added.take (j + 1)) ≤ weightSum (added.take k) :=
        weightSum_take_mono added before
      omega
    · exact least
    · have above : weightSum (added.take (k + 1)) ≤ weightSum (added.take j) :=
        weightSum_take_mono added after
      omega
  · rintro ⟨least, most⟩
    exact ⟨k, weight, atK, total, least, most⟩

end Filled

/-- A set that holds these items with these weights in this order and nothing else, and of which each
draw below the total picks one: an item is picked by as many draws as its weight says. -/
structure SharesOut (s : WeightedSet α) (added : List (α × UInt64)) : Prop where
  total : s.total.toNat = weightSum added
  size : s.size = added.length
  weighted : s.weighted = added
  rebuilt : empty.insertAll (added.map (fun item => (item.1, Int64.ofNat item.2.toNat))) = s
  sample : ∀ draw item, s.sample draw = some item ↔ ∃ k weight, added[k]? = some (item, weight) ∧
    weightSum (added.take k) ≤ draw.toNat ∧ draw.toNat < weightSum (added.take (k + 1))
  nothing : ∀ draw, s.sample draw = none ↔ s.total ≤ draw
  entry : ∀ k item weight, added[k]? = some (item, weight) →
    ∃ key, s.entries.entries[k]? = some (key, item) ∧
      (∀ draw, s.entries.above? draw = some (key, item) ↔
        weightSum (added.take k) ≤ draw.toNat ∧ draw.toNat < weightSum (added.take (k + 1))) ∧
      {draw | draw < s.total ∧ s.entries.above? draw = some (key, item)}.ncard = weight.toNat

theorem FilledBy.sharesOut {s : WeightedSet α} {added : List (α × UInt64)} (filled : s.FilledBy added) :
    s.SharesOut added where
  total := filled.total
  size := filled.size
  weighted := filled.weighted
  rebuilt := filled.weighted ▸ filled.sound.insertAll_items
  sample _ _ := filled.sample_eq_some_iff
  nothing _ := filled.sample_eq_none_iff
  entry k item weight atK := by
    obtain ⟨key, atKey, total⟩ := filled.getElem?_entries atK
    have picked := filled.above?_iff_of_key atK total
    have whole := weightSum_take_le added (k + 1)
    have small := filled.total ▸ s.total.toNat_lt_size
    have draws : {draw | draw < s.total ∧ s.entries.above? draw = some (key, item)} =
        {draw : UInt64 | weightSum (added.take k) ≤ draw.toNat ∧
          draw.toNat < weightSum (added.take (k + 1))} := by
      ext draw
      rw [Set.mem_ofPred_eq, Set.mem_ofPred_eq, picked, UInt64.lt_iff_toNat_lt, filled.total]
      exact ⟨fun inside => inside.2, fun inside => ⟨Nat.lt_of_lt_of_le inside.2 whole, inside⟩⟩
    refine ⟨key, atKey, picked, ?_⟩
    rw [draws, ncard_draws (by omega), weightSum_take_succ atK, Nat.add_sub_cancel_left]

/-- After any attempts to add items, the next one is accepted exactly when its weight is positive and the
sum of the accepted weights stays a 64-bit number, and a refused one changes nothing. What was accepted
is all that the set holds and shares its draws out by weight. -/
theorem attempts_share_draws (attempts : List (α × Int64)) :
    (∀ item weight, ((empty.insertAll attempts).insert? item weight).isSome = true ↔
        0 < weight.toInt ∧ weightSum (admitted 0 attempts) + weight.toInt ≤ 2 ^ 64 - 1) ∧
      (∀ item weight, ((empty.insertAll attempts).insert? item weight).isSome = false →
        (empty.insertAll attempts).insert item weight = empty.insertAll attempts) ∧
      (empty.insertAll attempts).SharesOut (admitted 0 attempts) := by
  have filled : (empty.insertAll attempts).FilledBy (admitted 0 attempts) :=
    FilledBy.empty.insertAll attempts
  refine ⟨fun item weight => ?_, fun item weight refused => ?_, filled.sharesOut⟩
  · rw [isSome_insert?_iff, filled.total]
  · have none := Option.isNone_iff_eq_none.mp (Option.isSome_eq_false_iff.mp refused)
    rw [WeightedSet.insert, none]
    rfl

/-- Syllables of which two are refused, one for its weight and one because the total has no room left
for it. -/
def overfull : List (String × Int64) :=
  [("la", 2), ("li", 0), ("lu", Int64.maxValue), ("le", Int64.maxValue), ("lo", 1)]

theorem attempts_share_draws_overfull :
    admitted 0 overfull = [("la", 2), ("lu", 9223372036854775807), ("lo", 1)] ∧
      (empty.insertAll overfull).SharesOut (admitted 0 overfull) ∧
      (empty.insertAll overfull).sample 9223372036854775808 = some "lu" ∧
      (empty.insertAll overfull).sample 9223372036854775809 = some "lo" ∧
      (empty.insertAll overfull).sample 9223372036854775810 = none ∧
      ((empty.insertAll overfull).insert? "le" Int64.maxValue).isSome = false ∧
      (empty.insertAll overfull).insert "le" Int64.maxValue = empty.insertAll overfull := by
  obtain ⟨accepted, refused, shares⟩ := attempts_share_draws overfull
  have listed : admitted 0 overfull = [("la", 2), ("lu", 9223372036854775807), ("lo", 1)] := by
    decide +kernel
  have full : ((empty.insertAll overfull).insert? "le" Int64.maxValue).isSome = false := by
    refine Bool.eq_false_iff.mpr fun fits => absurd (accepted _ _ |>.mp fits).2 ?_
    rw [listed]
    decide +kernel
  have total : (empty.insertAll overfull).total = 9223372036854775810 := by
    refine UInt64.toNat_inj.mp (shares.total.trans ?_)
    rw [listed]
    rfl
  refine ⟨listed, shares, ?_, ?_, ?_, full, refused _ _ full⟩
  · refine (shares.sample _ _).mpr ⟨1, 9223372036854775807, ?_⟩
    rw [listed]
    decide +kernel
  · refine (shares.sample _ _).mpr ⟨2, 1, ?_⟩
    rw [listed]
    decide +kernel
  · refine (shares.nothing _).mpr ?_
    rw [total]
    decide

end WeightedSet

end PseudoWord
