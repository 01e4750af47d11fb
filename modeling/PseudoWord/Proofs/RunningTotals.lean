import PseudoWord.Proofs.KeyMapLookup
import PseudoWord.WeightedSet

namespace PseudoWord

theorem Int64.toUInt64_of_pos {weight : Int64} (positive : 0 < weight) :
    0 < weight.toUInt64.toNat ∧ weight.toUInt64.toNat < weightBound := by
  have signed := Int64.lt_iff_toInt_lt.mp positive
  have size := BitVec.toInt_eq_toNat_cond weight.toBitVec
  have same : weight.toUInt64.toNat = weight.toBitVec.toNat := rfl
  have value : weight.toInt = weight.toBitVec.toInt := rfl
  have zero : (0 : Int64).toInt = 0 := rfl
  have bound := weight.toBitVec.isLt
  have largest : weightBound = 2 ^ 63 := rfl
  rw [value, zero] at signed
  rw [same]
  split at size <;> omega

theorem Int64.ofNat_toNat_of_lt {weight : UInt64} (positive : 0 < weight.toNat)
    (small : weight.toNat < weightBound) :
    0 < Int64.ofNat weight.toNat ∧ (Int64.ofNat weight.toNat).toUInt64 = weight := by
  constructor
  · rw [Int64.lt_iff_toInt_lt, Int64.toInt_ofNat_of_lt small]
    exact Int.natCast_pos.mpr positive
  · have same : (Int64.ofNat weight.toNat).toUInt64 = UInt64.ofNat weight.toNat := rfl
    rw [same, UInt64.ofNat_toNat]

namespace WeightedSet

variable {α : Type}

/-- Entries whose keys climb from `low` to `total`, each by a weight that a positive 64-bit integer
can hold. -/
inductive Climbs : UInt64 → List (UInt64 × α) → UInt64 → Prop
  | done (total : UInt64) : Climbs total [] total
  | step {low key total : UInt64} {item : α} {rest : List (UInt64 × α)} :
      low < key → key.toNat - low.toNat < weightBound → Climbs key rest total →
      Climbs low ((key, item) :: rest) total

theorem Climbs.le {low total : UInt64} {entries : List (UInt64 × α)}
    (climb : Climbs low entries total) : low ≤ total := by
  induction climb with
  | done => exact UInt64.le_refl _
  | step below _ _ ih => exact UInt64.le_trans (UInt64.le_of_lt below) ih

theorem Climbs.bounds {low total : UInt64} {entries : List (UInt64 × α)}
    (climb : Climbs low entries total) {entry : UInt64 × α} (member : entry ∈ entries) :
    low < entry.1 ∧ entry.1 ≤ total := by
  induction climb with
  | done => exact absurd member List.not_mem_nil
  | step below _ rest ih =>
    rcases List.mem_cons.mp member with same | later
    · subst same
      exact ⟨below, rest.le⟩
    · exact ⟨UInt64.lt_trans below (ih later).1, (ih later).2⟩

/-- The largest key is the total. -/
theorem Climbs.extend {low total key : UInt64} {entries : List (UInt64 × α)} (item : α)
    (climb : Climbs low entries total) (above : total < key)
    (small : key.toNat - total.toNat < weightBound) : Climbs low (entries ++ [(key, item)]) key := by
  induction climb with
  | done => exact .step above small (.done key)
  | step below weight _ ih => exact .step below weight (ih above small)

/-- Every number from `low` up to the total is below one of the keys. -/
theorem Climbs.find?_above {low total draw : UInt64} {entries : List (UInt64 × α)}
    (climb : Climbs low entries total) (lower : low ≤ draw) (upper : draw < total) :
    ∃ entry ∈ entries, entries.find? (fun entry => decide (draw < entry.1)) = some entry := by
  induction climb with
  | done => exact absurd upper (UInt64.not_lt.mpr lower)
  | @step low key total item rest _ _ _ ih =>
    by_cases below : draw < key
    · exact ⟨(key, item), List.mem_cons_self, by simp [below]⟩
    · obtain ⟨entry, member, found⟩ := ih (UInt64.not_lt.mp below) upper
      refine ⟨entry, List.mem_cons_of_mem _ member, ?_⟩
      simpa [below] using found

/-- A set as insertions leave it: the keys climb from zero to the total. -/
def Sound (s : WeightedSet α) : Prop := Climbs 0 s.entries.entries s.total

theorem sound_empty : (empty : WeightedSet α).Sound := .done 0

/-- The only way in which an insertion changes a set: a new entry at the end, under the new total. -/
theorem insert?_eq_some {s after : WeightedSet α} (sound : s.Sound) {item : α} {weight : Int64}
    (accepted : s.insert? item weight = some after) :
    0 < weight ∧ after.total.toNat = s.total.toNat + weight.toUInt64.toNat ∧
      after.entries.entries = s.entries.entries ++ [(after.total, item)] := by
  rw [insert?] at accepted
  split at accepted
  · rename_i fits
    cases Option.some.inj accepted
    have sum : (s.total + weight.toUInt64).toNat = s.total.toNat + weight.toUInt64.toNat := by
      rw [UInt64.toNat_add, Nat.mod_eq_of_lt fits.2]
    have grows := (Int64.toUInt64_of_pos fits.1).1
    refine ⟨fits.1, sum, KeyMap.place_of_above item fun entry member => ?_⟩
    have bound := UInt64.le_iff_toNat_le.mp (sound.bounds member).2
    rw [UInt64.lt_iff_toNat_lt, sum]
    omega
  · cases accepted

theorem Sound.insert? {s after : WeightedSet α} (sound : s.Sound) {item : α} {weight : Int64}
    (accepted : s.insert? item weight = some after) : after.Sound := by
  obtain ⟨positive, total, entries⟩ := insert?_eq_some sound accepted
  have size := Int64.toUInt64_of_pos positive
  rw [Sound, entries]
  refine Climbs.extend item sound ?_ (by omega)
  rw [UInt64.lt_iff_toNat_lt]
  omega

theorem values_insert? {s after : WeightedSet α} (sound : s.Sound) {item : α} {weight : Int64}
    (accepted : s.insert? item weight = some after) : after.values = s.values ++ [item] := by
  simp [values, KeyMap.values, (insert?_eq_some sound accepted).2.2]

theorem Sound.insert {s : WeightedSet α} (sound : s.Sound) (item : α) (weight : Int64) :
    (s.insert item weight).Sound := by
  rw [WeightedSet.insert]
  cases accepted : s.insert? item weight with
  | none => exact sound
  | some after => exact sound.insert? accepted

theorem mem_values_insert {s : WeightedSet α} (sound : s.Sound) {item other : α} {weight : Int64}
    (member : other ∈ (s.insert item weight).values) : other ∈ s.values ∨ other = item := by
  rw [WeightedSet.insert] at member
  cases accepted : s.insert? item weight with
  | none =>
    rw [accepted] at member
    exact .inl member
  | some after =>
    rw [accepted, Option.getD_some, values_insert? sound accepted] at member
    simpa using member

theorem Sound.subset_values_insert {s : WeightedSet α} (sound : s.Sound) (item : α) (weight : Int64) :
    s.values ⊆ (s.insert item weight).values := by
  intro other member
  rw [WeightedSet.insert]
  cases accepted : s.insert? item weight with
  | none => exact member
  | some after =>
    rw [Option.getD_some, values_insert? sound accepted]
    exact List.mem_append_left _ member

/-- Adds items one after the other; those whose weight is refused are left out. -/
def insertAll (s : WeightedSet α) (items : List (α × Int64)) : WeightedSet α :=
  items.foldl (fun s item => s.insert item.1 item.2) s

theorem Sound.insertAll {s : WeightedSet α} (sound : s.Sound) (items : List (α × Int64)) :
    (s.insertAll items).Sound := by
  induction items generalizing s with
  | nil => exact sound
  | cons item rest ih => exact ih (sound.insert item.1 item.2)

theorem mem_values_insertAll {s : WeightedSet α} (sound : s.Sound) {items : List (α × Int64)}
    {other : α} (member : other ∈ (s.insertAll items).values) :
    other ∈ s.values ∨ ∃ item ∈ items, item.1 = other := by
  induction items generalizing s with
  | nil => exact .inl member
  | cons item rest ih =>
    rcases ih (sound.insert item.1 item.2) member with old | ⟨later, inRest, same⟩
    · rcases mem_values_insert sound old with older | same
      · exact .inl older
      · exact .inr ⟨item, List.mem_cons_self, same.symm⟩
    · exact .inr ⟨later, List.mem_cons_of_mem _ inRest, same⟩

theorem isEmpty_iff (s : WeightedSet α) : s.isEmpty = true ↔ s.values = [] := by
  simp [isEmpty, KeyMap.isEmpty, values, KeyMap.values]

/-- A number below the total picks an item. -/
theorem Sound.sample_of_lt {s : WeightedSet α} (sound : s.Sound) {draw : UInt64}
    (below : draw < s.total) : ∃ item ∈ s.values, s.sample draw = some item := by
  obtain ⟨entry, member, found⟩ := Climbs.find?_above sound UInt64.zero_le below
  refine ⟨entry.2, List.mem_map_of_mem member, ?_⟩
  rw [sample, KeyMap.above?, found]
  rfl

/-- A set that is not empty has a positive total. -/
theorem Sound.total_pos {s : WeightedSet α} (sound : s.Sound) (filled : s.isEmpty = false) :
    0 < s.total := by
  cases atEntries : s.entries.entries with
  | nil => simp [isEmpty, KeyMap.isEmpty, atEntries] at filled
  | cons entry rest =>
    have member : entry ∈ s.entries.entries := by simp [atEntries]
    have bounds := Climbs.bounds sound member
    exact UInt64.lt_of_lt_of_le bounds.1 bounds.2

/-- The largest number that is drawn for a set that is not empty is one less than its total. -/
theorem Sound.toNat_total_pred {s : WeightedSet α} (sound : s.Sound) (filled : s.isEmpty = false) :
    (s.total - 1).toNat + 1 = s.total.toNat := by
  have positive := UInt64.lt_iff_toNat_lt.mp (sound.total_pos filled)
  have one : (1 : UInt64) ≤ s.total := UInt64.le_iff_toNat_le.mpr positive
  rw [UInt64.toNat_sub_of_le _ _ one, UInt64.toNat_one]
  exact Nat.sub_add_cancel positive

/-- Each item is picked by a number below the total. -/
theorem Sound.sample_eq_some {s : WeightedSet α} (sound : s.Sound) {item : α}
    (member : item ∈ s.values) : ∃ draw, draw < s.total ∧ s.sample draw = some item := by
  obtain ⟨key, found⟩ := s.entries.mem_values_iff.mp member
  have bounds := Climbs.bounds sound (s.entries.get?_eq_some_iff.mp found)
  have positive : 0 < key := bounds.1
  have one : 1 ≤ key := UInt64.le_iff_toNat_le.mpr (UInt64.lt_iff_toNat_lt.mp positive)
  refine ⟨key - 1, ?_, ?_⟩
  · exact UInt64.lt_of_lt_of_le (UInt64.sub_lt (by decide) one) bounds.2
  · rw [sample, s.entries.above?_pred_of_get? positive found]
    rfl

end WeightedSet

end PseudoWord
