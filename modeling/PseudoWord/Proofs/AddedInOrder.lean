import Mathlib.Algebra.Ring.Nat
import PseudoWord.Demo
import PseudoWord.Proofs.ImportedTable
import PseudoWord.Proofs.KeptNodes
import PseudoWord.Proofs.PrintedRows
import PseudoWord.Proofs.Reachable

namespace PseudoWord

namespace WeightedSet

variable {α : Type}

/-- A set that comes from the empty one by insertions that were accepted, in this order and with these
weights. -/
inductive FilledBy : WeightedSet α → List (α × UInt64) → Prop
  | empty : FilledBy empty []
  | insert {s after : WeightedSet α} {added : List (α × UInt64)} {item : α} {weight : Int64} :
      FilledBy s added → s.insert? item weight = some after →
      FilledBy after (added ++ [(item, weight.toUInt64)])

def weightSum (added : List (α × UInt64)) : Nat := (added.map (·.2.toNat)).sum

/-- Items under the sums of the weights up to their own, where the weights before come to `sum`. -/
def tally (sum : Nat) : List (α × UInt64) → List (Nat × α)
  | [] => []
  | item :: rest => (sum + item.2.toNat, item.1) :: tally (sum + item.2.toNat) rest

theorem weightSum_append_singleton (added : List (α × UInt64)) (item : α × UInt64) :
    weightSum (added ++ [item]) = weightSum added + item.2.toNat := by
  simp [weightSum]

theorem tally_append_singleton (sum : Nat) (added : List (α × UInt64)) (item : α × UInt64) :
    tally sum (added ++ [item]) =
      tally sum added ++ [(sum + weightSum added + item.2.toNat, item.1)] := by
  induction added generalizing sum with
  | nil => simp [tally, weightSum]
  | cons first rest ih =>
    rw [List.cons_append, tally, ih, tally, weightSum, weightSum, List.map_cons, List.sum_cons,
      List.cons_append, Nat.add_assoc sum]

/-- The keys of a set against what was added to it: running sums of weights that a positive 64-bit
integer can hold, the last of which is the total. -/
structure Accounts (s : WeightedSet α) (added : List (α × UInt64)) : Prop where
  filled : s.FilledBy added
  weights : ∀ item ∈ added, 1 ≤ item.2.toNat ∧ item.2.toNat ≤ 2 ^ 63 - 1
  entries : s.entries.entries.map (fun entry => (entry.1.toNat, entry.2)) = tally 0 added
  ascending : s.entries.keys.Pairwise (· < ·)
  total : s.total.toNat = weightSum added
  bound : weightSum added ≤ 2 ^ 64 - 1
  largest : s.isEmpty = false → s.entries.keys.getLast? = some s.total
  nothing : s.total = 0 ↔ s.isEmpty = true

theorem FilledBy.sound {s : WeightedSet α} {added : List (α × UInt64)} (filled : s.FilledBy added) :
    s.Sound := by
  induction filled with
  | empty => exact sound_empty
  | insert _ accepted ih => exact ih.insert? accepted

theorem FilledBy.weights {s : WeightedSet α} {added : List (α × UInt64)} (filled : s.FilledBy added) :
    ∀ item ∈ added, 1 ≤ item.2.toNat ∧ item.2.toNat ≤ 2 ^ 63 - 1 := by
  induction filled with
  | empty => exact fun _ member => absurd member List.not_mem_nil
  | insert before accepted ih =>
    intro item member
    rcases List.mem_append.mp member with old | new
    · exact ih item old
    · cases List.mem_singleton.mp new
      have size := Int64.toUInt64_of_pos (insert?_eq_some before.sound accepted).1
      exact ⟨size.1, Nat.le_pred_of_lt size.2⟩

theorem FilledBy.total {s : WeightedSet α} {added : List (α × UInt64)} (filled : s.FilledBy added) :
    s.total.toNat = weightSum added := by
  induction filled with
  | empty => rfl
  | insert before accepted ih =>
    rw [(insert?_eq_some before.sound accepted).2.1, weightSum_append_singleton, ih]

theorem FilledBy.entries {s : WeightedSet α} {added : List (α × UInt64)} (filled : s.FilledBy added) :
    s.entries.entries.map (fun entry => (entry.1.toNat, entry.2)) = tally 0 added := by
  induction filled with
  | empty => rfl
  | insert before accepted ih =>
    have sum := (FilledBy.insert before accepted).total
    rw [weightSum_append_singleton] at sum
    rw [(insert?_eq_some before.sound accepted).2.2, List.map_append, ih, tally_append_singleton,
      List.map_singleton, sum, Nat.zero_add]

theorem FilledBy.getLast?_keys {s : WeightedSet α} {added : List (α × UInt64)}
    (filled : s.FilledBy added) (nonempty : s.isEmpty = false) :
    s.entries.keys.getLast? = some s.total := by
  cases filled with
  | empty => cases nonempty
  | insert before accepted =>
    rw [KeyMap.keys, (insert?_eq_some before.sound accepted).2.2, List.map_append]
    exact List.getLast?_concat

theorem FilledBy.accounts {s : WeightedSet α} {added : List (α × UInt64)} (filled : s.FilledBy added) :
    s.Accounts added := by
  have sum := filled.total
  have size := s.total.toNat_lt_size
  refine ⟨filled, filled.weights, filled.entries, List.pairwise_map.mpr s.entries.sorted, sum, ?_,
    filled.getLast?_keys, ?_⟩
  · have whole : UInt64.size = 2 ^ 64 := rfl
    omega
  · constructor
    · intro zero
      by_contra nonempty
      have positive := filled.sound.total_pos (Bool.eq_false_iff.mpr nonempty)
      exact UInt64.ne_of_lt positive zero.symm
    · intro empty
      have noEntries : s.entries.entries = [] := List.isEmpty_iff.mp empty
      have listed := filled.entries
      rw [noEntries] at listed
      cases added with
      | nil => exact UInt64.toNat_inj.mp sum
      | cons => cases listed

/-- Whatever was added to `s` was added to `t` too, and before all else that `t` holds. -/
def Grows (s t : WeightedSet α) : Prop :=
  ∀ added, s.FilledBy added → ∃ more, t.FilledBy (added ++ more)

theorem Grows.refl (s : WeightedSet α) : s.Grows s :=
  fun added filled => ⟨[], (List.append_nil added).symm ▸ filled⟩

theorem Grows.trans {s t u : WeightedSet α} (first : s.Grows t) (second : t.Grows u) : s.Grows u := by
  intro added filled
  obtain ⟨more, further⟩ := first added filled
  obtain ⟨last, whole⟩ := second _ further
  exact ⟨more ++ last, List.append_assoc added more last ▸ whole⟩

theorem grows_insert (s : WeightedSet α) (item : α) (weight : Int64) : s.Grows (s.insert item weight) := by
  rw [WeightedSet.insert]
  cases accepted : s.insert? item weight with
  | none => exact .refl s
  | some after => exact fun added filled => ⟨_, filled.insert accepted⟩

theorem grows_insertAll (s : WeightedSet α) (items : List (α × Int64)) : s.Grows (s.insertAll items) := by
  induction items generalizing s with
  | nil => exact .refl s
  | cons item rest ih => exact (s.grows_insert item.1 item.2).trans (ih _)

/-- A sound set is filled by its own items. -/
theorem Sound.exists_filledBy {s : WeightedSet α} (sound : s.Sound) : ∃ added, s.FilledBy added := by
  obtain ⟨added, filled⟩ := empty.grows_insertAll s.items [] .empty
  exact ⟨_, sound.insertAll_items ▸ filled⟩

end WeightedSet

namespace Node

/-- The sets of a node have grown. -/
structure Grows (n m : Node) : Prop where
  fragments : n.fragments.Grows m.fragments
  links : n.links.Grows m.links

theorem Grows.refl (n : Node) : n.Grows n := ⟨.refl _, .refl _⟩

theorem Grows.trans {n m k : Node} (first : n.Grows m) (second : m.Grows k) : n.Grows k :=
  ⟨first.fragments.trans second.fragments, first.links.trans second.links⟩

theorem grows_addFragment (n : Node) (fragment : String) (weight : Int64) :
    n.Grows (n.addFragment fragment weight) := by
  rw [addFragment_eq]
  split
  · exact ⟨n.fragments.grows_insert fragment weight, .refl _⟩
  · exact .refl n

theorem grows_addLink (n : Node) (target : NodeId) (weight : Int64) :
    n.Grows (n.addLink target weight) := by
  rw [addLink_eq]
  exact ⟨.refl _, n.links.grows_insert target weight⟩

theorem grows_extend (n : Node) (fragments : List FragmentItem) (links : List (NodeId × Int64))
    (terminal : Bool) : n.Grows (n.extend fragments links terminal) := by
  rw [extend_eq]
  exact ⟨n.fragments.grows_insertAll _, n.links.grows_insertAll links⟩

end Node

namespace Graph

/-- Every node of `g` is still there, and its sets have grown. -/
def Grows (g h : Graph) : Prop := ∀ id n, g.node? id = some n → ∃ m, h.node? id = some m ∧ n.Grows m

theorem Grows.refl (g : Graph) : g.Grows g := carries_refl Node.Grows.refl g

theorem Grows.trans {g h k : Graph} (first : g.Grows h) (second : h.Grows k) : g.Grows k :=
  Carries.trans Node.Grows.trans first second

variable {g : Graph}

theorem grows_put {id : NodeId} {n : Node} (grown : ∀ old, g.node? id = some old → old.Grows n) :
    g.Grows (g.put id n) := carries_put Node.Grows.refl grown

theorem grows_updateNode {id : NodeId} {f : Node → Option Node}
    (grown : ∀ n : Node, n.Grows ((f n).getD n)) : g.Grows (g.updateNode id f).graph :=
  carries_updateNode Node.Grows.refl fun n _ => grown n

theorem grows_foldl {α : Type} {f : Graph → α → Graph} (step : ∀ (g : Graph) a, g.Grows (f g a))
    (items : List α) (g : Graph) : g.Grows (items.foldl f g) :=
  carries_foldl Node.Grows.refl Node.Grows.trans step items g

theorem grows_markInitializing (g : Graph) (id : NodeId) : g.Grows (g.markInitializing id) :=
  grows_put fun _ found => nodeOrNew_of_some found ▸ ⟨.refl _, .refl _⟩

theorem grows_addRow (g : Graph) (row : Row) : g.Grows (g.addRow row) := by
  rw [addRow]
  split
  · exact grows_foldl grows_markInitializing _ g
  · have targets := grows_foldl (fun g (link : NodeId × Int64) => carries_ensureNode Node.Grows.refl g link.1)
      (row.links.filterMap LinkItem.followed?) g
    refine targets.trans ?_
    exact grows_put fun old found => nodeOrNew_of_some found ▸ old.grows_extend _ _ _

theorem grows_applyRow (g : Graph) (line : String) : g.Grows (g.applyRow line).graph := by
  rw [applyRow]
  split
  · exact g.grows_addRow _
  · exact .refl g

theorem grows_countRun (g : Graph) (id : NodeId) : g.Grows (g.countRun id) := by
  intro other n found
  rw [node?_countRun, found]
  refine ⟨_, rfl, ?_⟩
  split
  · exact ⟨.refl _, .refl _⟩
  · exact .refl n

/-- As long as there are ids left, an operation removes no node and adds to its sets only at the end. -/
theorem grows_apply (few : g.size < UInt64.size) (operation : Operation) :
    g.Grows (operation.apply g) := by
  cases operation with
  | createNode fragments => exact carries_createNode Node.Grows.refl few fragments
  | addFragment id fragment weight =>
    exact grows_updateNode (fun n => n.grows_addFragment fragment weight)
  | addLink source target weight =>
    exact carries_addLink Node.Grows.refl Node.Grows.trans fun n _ => n.grows_addLink target weight
  | setProperties id initializing terminating => exact grows_updateNode (fun n => ⟨.refl _, .refl _⟩)
  | applyRow line => exact g.grows_applyRow line
  | setName name => exact .refl g
  | prepare => exact .refl g
  | countRuns report => exact grows_foldl grows_countRun report.walkStarts g

/-- What every node of a graph keeps to, whatever was done to the graph. -/
structure Keeps (g : Graph) (id : NodeId) (n : Node) : Prop where
  ownId : n.id = id
  targets : ∀ target ∈ n.links.values, ∃ next, g.node? target = some next
  words : ∀ fragment ∈ n.fragments.values, fragment ≠ "" ∧ ∀ c ∈ fragment.toList, isWordChar c = true
  fragments : ∃ added, n.fragments.Accounts added
  links : ∃ added, n.links.Accounts added

theorem Admits.keeps {id : NodeId} {n : Node} (admits : g.Admits id n) : g.Keeps id n := by
  obtain ⟨atId, sound, known⟩ := admits
  refine ⟨atId, known, fun fragment member => ?_, ?_, ?_⟩
  · obtain ⟨filled, words⟩ := isWordText_iff.mp (sound.words fragment member)
    exact ⟨fun blank => filled (congrArg String.toList blank), words⟩
  · exact sound.fragments.exists_filledBy.imp fun _ filled => filled.accounts
  · exact sound.links.exists_filledBy.imp fun _ filled => filled.accounts

/-- However a graph came about, its nodes keep to this. What the sets of a node hold stands in the order
in which it was added: the next operation, accepted or refused, adds to them only at the end. -/
theorem representation_kept (reach : Reachable g) :
    (∀ id n, g.node? id = some n → g.Keeps id n) ∧
      (g.size < UInt64.size → ∀ operation : Operation, g.Grows (operation.apply g)) :=
  ⟨fun id n found => (reach.wellFormed.nodes id n found).keeps, fun few => grows_apply few⟩

def heavyFragment : Operation := .addFragment ⟨0⟩ "kya" Int64.maxValue

/-- The sample language after a very heavy fragment was added to its first node, and refused when it was
added again. -/
def crowded : Graph := heavyFragment.apply (heavyFragment.apply (ofTable Demo.sampleTable))

theorem representation_kept_crowded :
    (∃ n added, crowded.node? ⟨0⟩ = some n ∧ n.fragments.total = 9223372036854775813 ∧
      n.fragments.Accounts added) ∧
      crowded.size < UInt64.size ∧
      crowded.Grows ((Operation.addLink ⟨0⟩ ⟨18446744073709551615⟩ Int64.maxValue).apply crowded) := by
  have reach : Reachable crowded :=
    .next heavyFragment (.next heavyFragment (.table Demo.sampleTable))
  obtain ⟨kept, grows⟩ := representation_kept reach
  have small : crowded.size < UInt64.size := by decide +kernel
  have total : (crowded.node? ⟨0⟩).map (fun n => n.fragments.total) = some 9223372036854775813 := by
    decide +kernel
  obtain ⟨n, found, whole⟩ := Option.map_eq_some_iff.mp total
  obtain ⟨added, accounts⟩ := (kept ⟨0⟩ n found).fragments
  exact ⟨⟨n, added, found, whole, accounts⟩, small, grows small _⟩

end Graph

end PseudoWord
