import PseudoWord.Proofs.AddedInOrder
import PseudoWord.Proofs.CurrentStarts

namespace PseudoWord

/-- The largest key of a set is its total, which is zero only as long as nothing was added. -/
structure WeightedSet.Balanced {α : Type} (s : WeightedSet α) : Prop where
  largest : s.isEmpty = false → s.entries.keys.getLast? = some s.total
  nothing : s.total = 0 ↔ s.isEmpty = true

theorem WeightedSet.Accounts.balanced {α : Type} {s : WeightedSet α} {added : List (α × UInt64)}
    (accounts : s.Accounts added) : s.Balanced := ⟨accounts.largest, accounts.nothing⟩

namespace Graph

/-- What is expected of the node under an id: it has this id and leads to nodes of the graph, its
fragments are runs of word characters, and its totals are right. -/
structure Expects (g : Graph) (id : NodeId) (n : Node) : Prop where
  ownId : n.id = id
  targets : ∀ target ∈ n.links.values, ∃ next, g.node? target = some next
  words : ∀ fragment ∈ n.fragments.values, fragment ≠ "" ∧ ∀ c ∈ fragment.toList, isWordChar c = true
  fragments : n.fragments.Balanced
  links : n.links.Balanced

def Consistent (g : Graph) : Prop := ∀ id n, g.node? id = some n → g.Expects id n

variable {g h : Graph}

theorem WellFormed.consistent (wf : g.WellFormed) : g.Consistent := by
  intro id n found
  obtain ⟨ownId, targets, words, ⟨_, fragments⟩, ⟨_, links⟩⟩ := (wf.nodes id n found).keeps
  exact ⟨ownId, targets, words, fragments.balanced, links.balanced⟩

theorem exists_node?_restored {id : NodeId} :
    (∃ n, g.restored.node? id = some n) ↔ ∃ n, g.node? id = some n := by
  rw [node?_restored, ← Option.isSome_iff_exists, ← Option.isSome_iff_exists, Option.isSome_map]

/-- Nothing is checked when a graph is read again, and nothing is lost. -/
theorem consistent_restored_iff : g.restored.Consistent ↔ g.Consistent := by
  constructor
  · intro consistent id n found
    have atId : g.restored.node? id = some n.unrun := by rw [node?_restored, found]; rfl
    obtain ⟨ownId, targets, words, fragments, links⟩ := consistent id n.unrun atId
    exact ⟨ownId, fun target linked => exists_node?_restored.mp (targets target linked), words,
      fragments, links⟩
  · intro consistent id m atId
    rw [node?_restored] at atId
    obtain ⟨n, found, rfl⟩ := Option.map_eq_some_iff.mp atId
    obtain ⟨ownId, targets, words, fragments, links⟩ := consistent id n found
    exact ⟨ownId, fun target linked => exists_node?_restored.mpr (targets target linked), words,
      fragments, links⟩

theorem starts_of_ofSnapshot {bytes : Bytes} (read : ofSnapshot bytes = .ok h) :
    h.starts = some h.initializingIds := by
  rw [ofSnapshot] at read
  split at read
  · cases read
    rfl
  · cases read

/-- Any bytes that are accepted give a prepared graph whose start nodes are the flagged ones, by the ids
that the nodes have themselves. Nothing else is checked: where the bytes are those of some graph, its
nodes come back as they were, and what is expected of nodes holds exactly if it held of that graph, as
it does of every graph of any history. -/
theorem loaded_as_written {bytes : Bytes} (read : ofSnapshot bytes = .ok h) :
    h.isPrepared = true ∧
      h.initializers = .ok ((h.nodeList.filter (·.initializing)).map (·.id)) ∧
      (h.Consistent → ∀ id, id ∈ h.initializingIds ↔
        ∃ n, h.node? id = some n ∧ n.initializing = true) ∧
      ∀ (g : Graph) (more : Bytes), bytes = g.snapshot ++ more →
        (∀ id, h.node? id = (g.node? id).map Node.unrun) ∧ (h.Consistent ↔ g.Consistent) ∧
          (g.Arises → h.Consistent) := by
  have starts := starts_of_ofSnapshot read
  refine ⟨by rw [isPrepared, starts]; rfl, by rw [initializers, starts]; rfl,
    fun consistent _ => mem_initializingIds_of_own fun id n found => (consistent id n found).ownId, ?_⟩
  rintro g more rfl
  obtain rfl := eq_restored_of_ofSnapshot read
  exact ⟨g.node?_restored, consistent_restored_iff,
    fun arises => consistent_restored_iff.mpr arises.wellFormed.consistent⟩

theorem loaded_as_written_twoBeginnings :
    ofSnapshot (twoBeginnings.snapshot ++ [255]) = .ok twoBeginnings.restored ∧
      twoBeginnings.restored.initializers = .ok [⟨2⟩, ⟨4⟩] ∧ twoBeginnings.Arises ∧
      twoBeginnings.restored.Consistent ∧
      ∀ id, id ∈ twoBeginnings.restored.initializingIds ↔
        ∃ n, twoBeginnings.restored.node? id = some n ∧ n.initializing = true := by
  have fits : twoBeginnings.Fits := by decide +kernel
  have read := fits.ofSnapshot_append [255]
  obtain ⟨_, _, named, written⟩ := loaded_as_written read
  have consistent := (written _ _ rfl).2.2 arises_twoBeginnings
  exact ⟨read, by decide +kernel, arises_twoBeginnings, consistent, named consistent⟩

/-- A written graph whose only node breaks all that is expected of it. -/
def forgedNode : Node where
  id := ⟨7⟩
  fragments := ⟨.ofList [(3, "")], 9⟩
  links := ⟨.ofList [(2, ⟨4⟩)], 0⟩
  initializing := true
  terminating := false
  runs := 0

def forgedGraph : Graph := (⟨"", .ofList [(5, forgedNode)], none⟩ : Graph).prepare

/-- These bytes are accepted although the node under 5 has the id 7, leads to the missing node 4, emits an
empty fragment, has a total above its largest key, and a total of zero in a set that holds a link. -/
theorem inconsistent_accepted :
    ofSnapshot [0, 1, 5, 7, 1, 3, 0, 9, 1, 2, 4, 0, 1, 0] = .ok forgedGraph ∧
      ¬ forgedGraph.Consistent ∧ forgedGraph.node? ⟨5⟩ = some forgedNode ∧ forgedNode.id = ⟨7⟩ ∧
      forgedNode.links.values = [⟨4⟩] ∧ forgedGraph.node? ⟨4⟩ = none ∧
      forgedNode.fragments.values = [""] ∧ forgedNode.fragments.entries.keys = [3] ∧
      forgedNode.fragments.total = 9 ∧ forgedNode.links.isEmpty = false ∧
      forgedNode.links.total = 0 ∧ forgedGraph.initializers = .ok [⟨7⟩] ∧
      forgedGraph.node? ⟨7⟩ = none := by
  have found : forgedGraph.node? ⟨5⟩ = some forgedNode := by decide +kernel
  have fits : forgedGraph.Fits := by decide +kernel
  have written : forgedGraph.snapshot = [0, 1, 5, 7, 1, 3, 0, 9, 1, 2, 4, 0, 1, 0] := by
    decide +kernel
  have read := fits.ofSnapshot_append []
  rw [written, List.append_nil, restored_eq_self (by decide +kernel) rfl] at read
  refine ⟨read, fun consistent => ?_, found, rfl, rfl, by decide +kernel, rfl, rfl, rfl, rfl, rfl, rfl,
    by decide +kernel⟩
  have own := (consistent ⟨5⟩ forgedNode found).ownId
  cases own

end Graph

end PseudoWord
