import PseudoWord.Proofs.SoundNode

namespace PseudoWord

namespace Graph

theorem node?_put (g : Graph) (id other : NodeId) (n : Node) :
    (g.put id n).node? other = if other = id then some n else g.node? other := by
  have same : other.value = id.value ↔ other = id := by
    cases id
    cases other
    simp
  simp only [node?, put, KeyMap.get?_insert, same]

theorem mem_nodeList_iff (g : Graph) {n : Node} : n ∈ g.nodeList ↔ ∃ id, g.node? id = some n := by
  rw [nodeList, KeyMap.mem_values_iff]
  constructor
  · rintro ⟨key, found⟩
    exact ⟨⟨key⟩, found⟩
  · rintro ⟨id, found⟩
    exact ⟨id.value, found⟩

/-- A node that may stand under an id: it has this id, its sets are sound, and the graph holds every
node that it leads to. -/
structure Admits (g : Graph) (id : NodeId) (n : Node) : Prop where
  id : n.id = id
  sound : n.Sound
  links : ∀ target ∈ n.links.values, ∃ next, g.node? target = some next

/-- A graph as the operations on graphs leave it. While it is prepared, the start nodes that it
remembers are those that are flagged. -/
structure WellFormed (g : Graph) : Prop where
  nodes : ∀ id n, g.node? id = some n → g.Admits id n
  starts : ∀ ids, g.starts = some ids → ids = g.initializingIds

theorem wellFormed_named (name : String) : (named name).WellFormed := by
  refine ⟨fun id n found => ?_, fun ids prepared => ?_⟩
  · cases found
  · cases prepared

/-- A node of a well-formed graph stands under its own id. -/
theorem WellFormed.node?_self {g : Graph} (wf : g.WellFormed) {n : Node} (member : n ∈ g.nodeList) :
    g.node? n.id = some n := by
  obtain ⟨id, found⟩ := g.mem_nodeList_iff.mp member
  exact (wf.nodes id n found).id.symm ▸ found

theorem mem_initializingIds_iff (g : Graph) {id : NodeId} :
    id ∈ g.initializingIds ↔ ∃ n ∈ g.nodeList, n.initializing = true ∧ n.id = id := by
  rw [initializingIds, List.mem_map]
  simp only [List.mem_filter, and_assoc]

theorem mem_initializingIds_of_own {g : Graph} (own : ∀ id n, g.node? id = some n → n.id = id)
    {id : NodeId} : id ∈ g.initializingIds ↔ ∃ n, g.node? id = some n ∧ n.initializing = true := by
  rw [mem_initializingIds_iff]
  constructor
  · rintro ⟨n, listed, flagged, rfl⟩
    obtain ⟨other, found⟩ := g.mem_nodeList_iff.mp listed
    exact ⟨n, (own other n found).symm ▸ found, flagged⟩
  · rintro ⟨n, found, flagged⟩
    exact ⟨n, g.mem_nodeList_iff.mpr ⟨id, found⟩, flagged, own id n found⟩

theorem WellFormed.mem_starts_iff {g : Graph} (wf : g.WellFormed) {starts : List NodeId}
    (prepared : g.starts = some starts) {id : NodeId} :
    id ∈ starts ↔ ∃ n, g.node? id = some n ∧ n.initializing = true := by
  rw [wf.starts starts prepared]
  exact mem_initializingIds_of_own fun id n found => (wf.nodes id n found).id

/-- Storing a node removes no other. -/
theorem exists_node?_put {g : Graph} {id other : NodeId} (n : Node)
    (found : ∃ m, g.node? other = some m) : ∃ m, (g.put id n).node? other = some m := by
  rw [node?_put]
  split
  · exact ⟨n, rfl⟩
  · exact found

/-- A stored node may lead to itself although the graph did not hold it before. -/
theorem WellFormed.put {g : Graph} (wf : g.WellFormed) {id : NodeId} {n : Node} (atId : n.id = id)
    (sound : n.Sound)
    (links : ∀ target ∈ n.links.values, target = id ∨ ∃ next, g.node? target = some next) :
    (g.put id n).WellFormed := by
  refine ⟨fun other m found => ?_, fun ids prepared => nomatch prepared⟩
  rw [node?_put] at found
  split at found
  · rename_i same
    cases found
    refine ⟨atId.trans same.symm, sound, fun target member => ?_⟩
    rcases links target member with self | known
    · exact ⟨n, by rw [node?_put, if_pos self]⟩
    · exact exists_node?_put n known
  · have admits := wf.nodes other m found
    exact ⟨admits.id, admits.sound, fun target member => exists_node?_put n (admits.links target member)⟩

theorem WellFormed.admits_nodeOrNew {g : Graph} (wf : g.WellFormed) (id : NodeId) :
    g.Admits id (g.nodeOrNew id) := by
  rw [nodeOrNew]
  cases found : g.node? id with
  | none => exact ⟨rfl, Node.sound_empty id, fun _ member => absurd member List.not_mem_nil⟩
  | some n => exact wf.nodes id n found

theorem WellFormed.ensureNode {g : Graph} (wf : g.WellFormed) (id : NodeId) :
    (g.ensureNode id).WellFormed := by
  have admits := wf.admits_nodeOrNew id
  exact wf.put admits.id admits.sound (fun target member => .inr (admits.links target member))

theorem exists_node?_ensureNode (g : Graph) (id : NodeId) :
    ∃ n, (g.ensureNode id).node? id = some n :=
  ⟨g.nodeOrNew id, by rw [Graph.ensureNode, node?_put, if_pos rfl]⟩

theorem WellFormed.createNode {g : Graph} (wf : g.WellFormed) (fragments : List String) :
    (g.createNode fragments).2.WellFormed := by
  refine wf.put ?_ (Node.sound_ofFragments _ fragments) fun target member => ?_
  · rw [Node.ofFragments_eq]
    rfl
  · rw [Node.ofFragments_eq] at member
    exact absurd member List.not_mem_nil

theorem WellFormed.addFragment {g : Graph} (wf : g.WellFormed) (id : NodeId) (fragment : String)
    (weight : Int64) : (g.addFragment id fragment weight).graph.WellFormed := by
  rw [Graph.addFragment, updateNode]
  cases found : g.node? id with
  | none => exact wf
  | some n =>
    have admits := wf.nodes id n found
    have sameLinks : (n.addFragment fragment weight).links = n.links := by rw [Node.addFragment_eq]
    refine wf.put ?_ (admits.sound.addFragment fragment weight) fun target member => ?_
    · exact (congrArg Node.id (Node.addFragment_eq n fragment weight)).trans admits.id
    · exact .inr (admits.links target (sameLinks ▸ member))

theorem WellFormed.addLink {g : Graph} (wf : g.WellFormed) (source target : NodeId) (weight : Int64) :
    (g.addLink source target weight).graph.WellFormed := by
  rw [Graph.addLink]
  split
  · rw [updateNode]
    cases found : (g.ensureNode target).node? source with
    | none => exact wf.ensureNode target
    | some n =>
      have admits := (wf.ensureNode target).nodes source n found
      have linked := Node.addLink_eq n target weight
      refine (wf.ensureNode target).put ?_ (admits.sound.addLink target weight) fun other member => ?_
      · exact (congrArg Node.id linked).trans admits.id
      · have member : other ∈ (n.links.insert target weight).values :=
          (congrArg (fun m => m.links.values) linked) ▸ member
        rcases WeightedSet.mem_values_insert admits.sound.links member with old | same
        · exact .inr (admits.links other old)
        · exact .inr (same ▸ exists_node?_ensureNode g target)
  · exact wf

theorem WellFormed.setProperties {g : Graph} (wf : g.WellFormed) (id : NodeId)
    (initializing terminating : Bool) :
    (g.setProperties id initializing terminating).graph.WellFormed := by
  rw [Graph.setProperties, updateNode]
  cases found : g.node? id with
  | none => exact wf
  | some n =>
    obtain ⟨atId, sound, links⟩ := wf.nodes id n found
    exact wf.put atId ⟨sound.fragments, sound.links, sound.words⟩
      (fun target member => .inr (links target member))

theorem WellFormed.markInitializing {g : Graph} (wf : g.WellFormed) (id : NodeId) :
    (g.markInitializing id).WellFormed := by
  obtain ⟨atId, sound, links⟩ := wf.admits_nodeOrNew id
  exact wf.put atId ⟨sound.fragments, sound.links, sound.words⟩
    (fun target member => .inr (links target member))

/-- The targets of the links of a row are in the graph before the links are added. -/
theorem WellFormed.ensureTargets {g : Graph} (wf : g.WellFormed) (links : List (NodeId × Int64)) :
    (links.foldl (fun g link => g.ensureNode link.1) g).WellFormed ∧
      (∀ id, (∃ n, g.node? id = some n) →
        ∃ n, (links.foldl (fun g link => g.ensureNode link.1) g).node? id = some n) ∧
      ∀ link ∈ links, ∃ n, (links.foldl (fun g link => g.ensureNode link.1) g).node? link.1 = some n := by
  induction links generalizing g with
  | nil => exact ⟨wf, fun _ found => found, fun _ member => absurd member List.not_mem_nil⟩
  | cons link rest ih =>
    obtain ⟨wellFormed, kept, added⟩ := ih (wf.ensureNode link.1)
    refine ⟨wellFormed, fun id found => kept id (exists_node?_put _ found), fun other member => ?_⟩
    rcases List.mem_cons.mp member with same | later
    · exact same ▸ kept link.1 (exists_node?_ensureNode g link.1)
    · exact added other later

theorem WellFormed.addRow {g : Graph} (wf : g.WellFormed) (row : Row) : (g.addRow row).WellFormed := by
  rw [Graph.addRow]
  split
  · exact List.foldlRecOn _ _ wf (fun g wf id _ => wf.markInitializing id)
  · rename_i id _
    obtain ⟨wellFormed, _, added⟩ := wf.ensureTargets (row.links.filterMap LinkItem.followed?)
    obtain ⟨atId, sound, links⟩ := wellFormed.admits_nodeOrNew id
    refine wellFormed.put ?_ (sound.extend _ _ _) fun target member => ?_
    · rw [Node.extend_eq]
      exact atId
    · rw [Node.extend_eq] at member
      rcases WeightedSet.mem_values_insertAll sound.links member with old | ⟨link, followed, same⟩
      · exact .inr (links target old)
      · exact .inr (same ▸ added link followed)

theorem WellFormed.applyRow {g : Graph} (wf : g.WellFormed) (line : String) :
    (g.applyRow line).graph.WellFormed := by
  rw [Graph.applyRow]
  split
  · exact wf.addRow _
  · exact wf

theorem WellFormed.prepare {g : Graph} (wf : g.WellFormed) : g.prepare.WellFormed :=
  ⟨fun id n found => ⟨(wf.nodes id n found).id, (wf.nodes id n found).sound,
    (wf.nodes id n found).links⟩, fun _ prepared => (Option.some.inj prepared).symm⟩

theorem WellFormed.ofTable (lines : List String) : (ofTable lines).WellFormed :=
  WellFormed.prepare
    (List.foldlRecOn _ _ (wellFormed_named "") (fun _ wf line _ => wf.applyRow line))

end Graph

end PseudoWord
