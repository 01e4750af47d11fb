import PseudoWord.Graph.Change
import PseudoWord.Proofs.KeyMapLookup

namespace PseudoWord

theorem KeyMap.keys_sorted {α : Type} (m : KeyMap α) : m.keys.Pairwise (· < ·) :=
  List.pairwise_map.mpr m.sorted

theorem toNat_succ {number : UInt64} (room : number.toNat + 1 < UInt64.size) :
    (number + 1).toNat = number.toNat + 1 := by
  rw [UInt64.toNat_add, UInt64.toNat_one, Nat.mod_eq_of_lt room]

/-- Whatever lies above a number is at least one more. -/
theorem succ_le_of_lt {number above : UInt64} (below : number < above) : number + 1 ≤ above := by
  have bound := UInt64.lt_iff_toNat_lt.mp below
  rw [UInt64.le_iff_toNat_le, toNat_succ (Nat.lt_of_le_of_lt bound above.toNat_lt_size)]
  exact bound

namespace Graph

/-- Every number that was counted up through is one of the keys. -/
theorem mem_of_lt_lowestGap {candidate number : UInt64} {keys : List UInt64}
    (start : candidate ≤ number) (before : number < lowestGap candidate keys) : number ∈ keys := by
  induction keys generalizing candidate with
  | nil => exact absurd start (UInt64.not_le.mpr before)
  | cons key rest ih =>
    rw [lowestGap] at before
    split at before
    · rename_i same
      by_cases first : candidate = number
      · exact same ▸ first ▸ List.mem_cons_self
      · have later := succ_le_of_lt (UInt64.lt_of_le_of_ne start first)
        exact List.mem_cons_of_mem key (ih later before)
    · exact absurd start (UInt64.not_le.mpr before)

/-- Counting up through ascending keys, the first number that is left out is none of them, unless the
numbers run out. -/
theorem lowestGap_free {candidate : UInt64} {keys : List UInt64} (sorted : keys.Pairwise (· < ·))
    (lower : ∀ key ∈ keys, candidate ≤ key) (room : candidate.toNat + keys.length < UInt64.size) :
    candidate ≤ lowestGap candidate keys ∧ lowestGap candidate keys ∉ keys := by
  induction keys generalizing candidate with
  | nil => exact ⟨UInt64.le_refl _, List.not_mem_nil⟩
  | cons key rest ih =>
    obtain ⟨above, tail⟩ := List.pairwise_cons.mp sorted
    rw [List.length_cons] at room
    rw [lowestGap]
    split
    · rename_i same
      subst same
      have next : (candidate + 1).toNat = candidate.toNat + 1 := toNat_succ (by omega)
      obtain ⟨later, fresh⟩ := ih tail (fun other member => succ_le_of_lt (above other member)) (by omega)
      rw [UInt64.le_iff_toNat_le, next] at later
      refine ⟨UInt64.le_iff_toNat_le.mpr (by omega), fun member => ?_⟩
      rcases List.mem_cons.mp member with same | inRest
      · rw [same] at later
        omega
      · exact fresh inRest
    · rename_i different
      refine ⟨UInt64.le_refl _, fun member => ?_⟩
      rcases List.mem_cons.mp member with same | inRest
      · exact different same
      · exact UInt64.not_lt.mpr (lower key List.mem_cons_self) (above candidate inRest)

/-- Whether some node has an id. -/
def Uses (g : Graph) (id : NodeId) : Prop := ∃ n, g.node? id = some n

theorem uses_iff_mem {g : Graph} {id : NodeId} : g.Uses id ↔ id.value ∈ g.nodes.keys := by
  simp only [Uses, node?, KeyMap.get?_eq_some_iff, KeyMap.keys, List.mem_map]
  constructor
  · rintro ⟨n, member⟩
    exact ⟨(id.value, n), member, rfl⟩
  · rintro ⟨entry, member, same⟩
    exact ⟨entry.2, same ▸ member⟩

theorem not_uses_iff {g : Graph} {id : NodeId} : ¬ g.Uses id ↔ g.node? id = none := by
  rw [Uses, Option.eq_none_iff_forall_ne_some, not_exists]

/-- The id that a new node gets: zero in an empty graph, else one past the highest id, and the lowest id
that is free once the largest number is taken. -/
inductive GivesNext (g : Graph) : NodeId → Prop
  | first : g.isEmpty = true → GivesNext g ⟨0⟩
  | above {highest : NodeId} : g.Uses highest → (∀ id, g.Uses id → id.value ≤ highest.value) →
      highest.value.toNat + 1 < UInt64.size → GivesNext g ⟨highest.value + 1⟩
  | gap {highest id : NodeId} : g.Uses highest → highest.value.toNat + 1 = UInt64.size → ¬ g.Uses id →
      (∀ other : NodeId, other.value < id.value → g.Uses other) → GivesNext g id

theorem GivesNext.free {g : Graph} {id : NodeId} (next : g.GivesNext id) : ¬ g.Uses id := by
  cases next with
  | first empty =>
    rintro ⟨n, found⟩
    have member := (g.nodes.get?_eq_some_iff).mp found
    rw [List.isEmpty_iff.mp empty] at member
    exact List.not_mem_nil member
  | above _ highest room =>
    intro taken
    have bound := UInt64.le_iff_toNat_le.mp (highest _ taken)
    rw [toNat_succ room] at bound
    omega
  | gap _ _ free _ => exact free

/-- As long as there are ids left, a new node gets the one that comes next. -/
theorem givesNext_nextFreeId {g : Graph} (few : g.size < UInt64.size) : g.GivesNext g.nextFreeId := by
  have sorted := g.nodes.keys_sorted
  have length : g.nodes.keys.length = g.size := List.length_map _
  rw [nextFreeId]
  cases last : g.nodes.keys.getLast? with
  | none =>
    have empty : g.nodes.entries = [] := List.map_eq_nil_iff.mp (List.getLast?_eq_none_iff.mp last)
    exact .first (List.isEmpty_iff.mpr empty)
  | some highest =>
    obtain ⟨before, split⟩ := List.getLast?_eq_some_iff.mp last
    have taken : g.Uses ⟨highest⟩ := uses_iff_mem.mpr (List.mem_of_getLast? last)
    dsimp only
    split
    · rename_i room
      refine .above taken (fun id used => ?_) room
      have member := uses_iff_mem.mp used
      rw [split, List.pairwise_append] at sorted
      rw [split] at member
      rcases List.mem_append.mp member with earlier | same
      · exact UInt64.le_of_lt (sorted.2.2 _ earlier highest List.mem_cons_self)
      · exact UInt64.le_of_eq (List.mem_singleton.mp same)
    · rename_i full
      have largest := Nat.le_antisymm highest.toNat_lt_size (Nat.not_lt.mp full)
      have gap := lowestGap_free sorted (fun _ _ => UInt64.zero_le) (by rw [UInt64.toNat_zero]; omega)
      refine .gap taken largest (fun used => gap.2 (uses_iff_mem.mp used)) fun other lower => ?_
      exact uses_iff_mem.mpr (mem_of_lt_lowestGap UInt64.zero_le lower)

/-- As long as there are ids left, a new node gets one that no node has. -/
theorem node?_nextFreeId {g : Graph} (few : g.size < UInt64.size) : g.node? g.nextFreeId = none :=
  not_uses_iff.mp (givesNext_nextFreeId few).free

end Graph

end PseudoWord
