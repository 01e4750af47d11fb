import PseudoWord.Proofs.RunningTotals

namespace PseudoWord

namespace WeightedSet

variable {α : Type}

/-- The step between two keys is the weight that was added. -/
theorem toNat_step {low key : UInt64} (below : low < key) :
    (key - low).toNat = key.toNat - low.toNat ∧ 0 < (key - low).toNat := by
  have less := UInt64.lt_iff_toNat_lt.mp below
  have step := UInt64.toNat_sub_of_le key low (UInt64.le_of_lt below)
  omega

theorem Climbs.of_mem_steps {low total : UInt64} {entries : List (UInt64 × α)}
    (climb : Climbs low entries total) {item : α × UInt64} (member : item ∈ steps low entries) :
    item.1 ∈ entries.map (·.2) ∧ 0 < item.2.toNat ∧ item.2.toNat < weightBound := by
  induction climb with
  | done => exact absurd member List.not_mem_nil
  | step below weight _ ih =>
    rcases List.mem_cons.mp member with rfl | later
    · obtain ⟨step, positive⟩ := toNat_step below
      exact ⟨List.mem_cons_self, positive, step ▸ weight⟩
    · obtain ⟨old, positive, small⟩ := ih later
      exact ⟨List.mem_cons_of_mem _ old, positive, small⟩

theorem Sound.of_mem_weighted {s : WeightedSet α} (sound : s.Sound) {item : α × UInt64}
    (member : item ∈ s.weighted) : item.1 ∈ s.values ∧ 0 < item.2.toNat ∧ item.2.toNat < weightBound :=
  Climbs.of_mem_steps sound member

/-- The items of a set with their weights as they are written into a table. -/
def items (s : WeightedSet α) : List (α × Int64) :=
  s.weighted.map (fun item => (item.1, Int64.ofNat item.2.toNat))

theorem Sound.pos_of_mem_items {s : WeightedSet α} (sound : s.Sound) {item : α × Int64}
    (member : item ∈ s.items) : item.1 ∈ s.values ∧ 0 < item.2 := by
  obtain ⟨weighted, inside, rfl⟩ := List.mem_map.mp member
  obtain ⟨value, positive, small⟩ := sound.of_mem_weighted inside
  exact ⟨value, (Int64.ofNat_toNat_of_lt positive small).1⟩

/-- An item that is added with the step to a higher key comes to stand under this key. -/
theorem Sound.insert_step {s : WeightedSet α} (sound : s.Sound) (item : α) {key : UInt64}
    (below : s.total < key) (small : key.toNat - s.total.toNat < weightBound) :
    (s.insert item (Int64.ofNat (key - s.total).toNat)).total = key ∧
      (s.insert item (Int64.ofNat (key - s.total).toNat)).entries.entries =
        s.entries.entries ++ [(key, item)] := by
  obtain ⟨step, positive⟩ := toNat_step below
  obtain ⟨accepted, same⟩ := Int64.ofNat_toNat_of_lt positive (step ▸ small)
  have less := UInt64.lt_iff_toNat_lt.mp below
  have bound := key.toNat_lt_size
  have fits : s.total.toNat + (Int64.ofNat (key - s.total).toNat).toUInt64.toNat < UInt64.size := by
    rw [same, step]
    omega
  obtain ⟨after, inserted⟩ :=
    Option.isSome_iff_exists.mp ((s.insert?_isSome_iff item _).mpr ⟨accepted, fits⟩)
  obtain ⟨_, total, entries⟩ := insert?_eq_some sound inserted
  have atKey : after.total = key := by
    rw [← UInt64.toNat_inj, total, same, step]
    omega
  rw [WeightedSet.insert, inserted, Option.getD_some]
  exact ⟨atKey, atKey ▸ entries⟩

theorem Climbs.insertAll_steps {low total : UInt64} {entries : List (UInt64 × α)}
    (climb : Climbs low entries total) {s : WeightedSet α} (sound : s.Sound) (atLow : s.total = low) :
    (s.insertAll ((steps low entries).map (fun item => (item.1, Int64.ofNat item.2.toNat)))).total =
        total ∧
      (s.insertAll ((steps low entries).map
        (fun item => (item.1, Int64.ofNat item.2.toNat)))).entries.entries =
          s.entries.entries ++ entries := by
  induction climb generalizing s with
  | done => exact ⟨atLow, (List.append_nil _).symm⟩
  | @step low key total item rest below weight _ ih =>
    subst atLow
    obtain ⟨atKey, added⟩ := sound.insert_step item below weight
    obtain ⟨whole, entries⟩ := ih (sound.insert item _) atKey
    refine ⟨whole, entries.trans ?_⟩
    rw [added, List.append_assoc]
    rfl

/-- Adding the items of a sound set to an empty one gives the set back. -/
theorem Sound.insertAll_items {s : WeightedSet α} (sound : s.Sound) : empty.insertAll s.items = s := by
  obtain ⟨total, entries⟩ := Climbs.insertAll_steps sound sound_empty rfl
  have whole : (empty.insertAll s.items).total = s.total := total
  have same : (empty.insertAll s.items).entries.entries = s.entries.entries := entries
  generalize empty.insertAll s.items = rebuilt at whole same
  obtain ⟨⟨listed, sorted⟩, sum⟩ := rebuilt
  obtain ⟨⟨other, ascending⟩, bound⟩ := s
  subst whole
  subst same
  rfl

end WeightedSet

end PseudoWord
