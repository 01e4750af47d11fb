import PseudoWord.KeyMap

namespace PseudoWord

namespace KeyMap

variable {α β : Type}

/-- In an ascending list the entry that is found under a key is the only one with that key. -/
theorem find?_key_of_mem {entries : List (UInt64 × α)}
    (sorted : entries.Pairwise (fun a b => a.1 < b.1)) {key : UInt64} {value : α}
    (member : (key, value) ∈ entries) :
    entries.find? (fun entry => entry.1 == key) = some (key, value) := by
  induction entries with
  | nil => exact absurd member List.not_mem_nil
  | cons head rest ih =>
    obtain ⟨above, tail⟩ := List.pairwise_cons.mp sorted
    rcases List.mem_cons.mp member with same | later
    · subst same
      simp
    · have different : (head.1 == key) = false :=
        beq_false_of_ne (UInt64.ne_of_lt (above (key, value) later))
      rw [List.find?_cons, different]
      exact ih tail later

theorem get?_eq_some_iff (m : KeyMap α) {key : UInt64} {value : α} :
    m.get? key = some value ↔ (key, value) ∈ m.entries := by
  constructor
  · intro found
    obtain ⟨entry, atKey, rfl⟩ := Option.map_eq_some_iff.mp found
    have same : entry.1 = key := by simpa using List.find?_some atKey
    exact same ▸ List.mem_of_find?_eq_some atKey
  · intro member
    rw [get?, find?_key_of_mem m.sorted member]
    rfl

theorem mem_values_iff (m : KeyMap α) {value : α} :
    value ∈ m.values ↔ ∃ key, m.get? key = some value := by
  simp only [values, List.mem_map, get?_eq_some_iff]
  constructor
  · rintro ⟨entry, member, rfl⟩
    exact ⟨entry.1, member⟩
  · rintro ⟨key, member⟩
    exact ⟨(key, value), member, rfl⟩

theorem entries_nodup (m : KeyMap α) : m.entries.Nodup := by
  refine m.sorted.imp ?_
  intro a b below same
  exact UInt64.ne_of_lt below (congrArg Prod.fst same)

theorem ext_entries {a b : KeyMap α} (same : a.entries = b.entries) : a = b := by
  cases a
  cases b
  cases same
  rfl

theorem map_eq_self {f : α → α} {m : KeyMap α} (same : ∀ value ∈ m.values, f value = value) :
    m.map f = m := by
  have entries : m.entries.map (fun entry => (entry.1, f entry.2)) = m.entries.map id := by
    refine List.map_congr_left fun entry inside => ?_
    exact Prod.ext rfl (same entry.2 (List.mem_map_of_mem inside))
  exact ext_entries (entries.trans (List.map_id m.entries))

/-- Maps that answer every key alike are the same map: the order of the entries is fixed. -/
theorem ext_get? {a b : KeyMap α} (same : ∀ key, a.get? key = b.get? key) : a = b := by
  have members (entry : UInt64 × α) : entry ∈ a.entries ↔ entry ∈ b.entries := by
    rw [← get?_eq_some_iff, ← get?_eq_some_iff, same]
  have shuffled : a.entries.Perm b.entries :=
    (List.perm_ext_iff_of_nodup a.entries_nodup b.entries_nodup).mpr members
  have ordered (x y : UInt64 × α) (_ : x ∈ a.entries) (_ : y ∈ b.entries) (below : x.1 < y.1)
      (above : y.1 < x.1) : x = y := absurd (UInt64.lt_trans below above) (UInt64.lt_irrefl _)
  exact ext_entries (shuffled.eq_of_pairwise ordered a.sorted b.sorted)

theorem get?_insert (m : KeyMap α) (key other : UInt64) (value : α) :
    (m.insert key value).get? other = if other = key then some value else m.get? other := by
  split
  · rename_i same
    rw [same, get?_insert_self]
  · rename_i different
    exact get?_insert_of_ne m different value

theorem get?_map (m : KeyMap α) (f : α → β) (key : UInt64) :
    (m.map f).get? key = (m.get? key).map f := by
  simp only [get?, map, List.find?_map, Option.map_map, Function.comp_def]

theorem get?_adjust (m : KeyMap α) (key other : UInt64) (f : α → α) :
    (m.adjust key f).get? other = if other = key then (m.get? key).map f else m.get? other := by
  rw [adjust]
  split
  · rename_i value found
    rw [get?_insert, found]
    rfl
  · rename_i missing
    split
    · rename_i same
      rw [same, missing]
      rfl
    · rfl

/-- There is no room for more entries than there are keys. -/
theorem length_le_of_sorted {entries : List (UInt64 × α)} (low : Nat)
    (sorted : entries.Pairwise (fun a b => a.1 < b.1)) (lower : ∀ entry ∈ entries, low ≤ entry.1.toNat)
    (bound : low ≤ UInt64.size) : low + entries.length ≤ UInt64.size := by
  induction entries generalizing low with
  | nil => exact bound
  | cons head rest ih =>
    obtain ⟨above, tail⟩ := List.pairwise_cons.mp sorted
    have atHead := lower head List.mem_cons_self
    have later := ih (head.1.toNat + 1) tail
      (fun entry member => UInt64.lt_iff_toNat_lt.mp (above entry member)) head.1.toNat_lt_size
    rw [List.length_cons]
    omega

theorem size_le (m : KeyMap α) : m.size ≤ UInt64.size := by
  have room := length_le_of_sorted 0 m.sorted (fun _ _ => Nat.zero_le _) (Nat.zero_le _)
  rw [size]
  omega

/-- A key above all others goes to the end. -/
theorem place_of_above {key : UInt64} (value : α) {entries : List (UInt64 × α)}
    (above : ∀ entry ∈ entries, entry.1 < key) :
    place key value entries = entries ++ [(key, value)] := by
  induction entries with
  | nil => rfl
  | cons head rest ih =>
    have below := above head List.mem_cons_self
    have later := ih (fun entry member => above entry (List.mem_cons_of_mem head member))
    rw [place, if_neg (UInt64.not_lt.mpr (UInt64.le_of_lt below)), if_pos below, later]
    rfl

theorem entries_insert_of_above (m : KeyMap α) {key : UInt64} (value : α)
    (above : ∀ entry ∈ m.entries, entry.1 < key) :
    (m.insert key value).entries = m.entries ++ [(key, value)] := place_of_above value above

/-- Counting up from just below a key, its entry is the first one that is met. -/
theorem above?_pred_of_get? (m : KeyMap α) {key : UInt64} {value : α} (positive : 0 < key)
    (found : m.get? key = some value) : m.above? (key - 1) = some (key, value) := by
  have member := (get?_eq_some_iff m).mp found
  obtain ⟨earlier, later, split⟩ := List.append_of_mem member
  have sorted := m.sorted
  rw [split, List.pairwise_append] at sorted
  have pred : (key - 1).toNat = key.toNat - 1 := UInt64.toNat_sub_of_le key 1
    (UInt64.le_iff_toNat_le.mpr (UInt64.lt_iff_toNat_lt.mp positive))
  have skipped : earlier.find? (fun entry => decide (key - 1 < entry.1)) = none := by
    refine List.find?_eq_none.mpr fun entry inEarlier => ?_
    have below : entry.1 < key := sorted.2.2 entry inEarlier (key, value) List.mem_cons_self
    rw [UInt64.lt_iff_toNat_lt] at below
    simp only [decide_eq_true_eq, UInt64.lt_iff_toNat_lt, pred]
    omega
  have met : key - 1 < key := by
    have positive := UInt64.lt_iff_toNat_lt.mp positive
    simp only [UInt64.lt_iff_toNat_lt, pred]
    omega
  rw [above?, split, List.find?_append, skipped, List.find?_cons, decide_eq_true met]
  rfl

end KeyMap

end PseudoWord
