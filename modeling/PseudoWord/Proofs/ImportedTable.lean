import PseudoWord.Proofs.ExportedRows
import PseudoWord.Proofs.RowEffect
import PseudoWord.Proofs.SameGraph

namespace PseudoWord

/-- A node as its row gives it back: flagged where a word may end, with no walks counted. -/
def Node.reread (n : Node) : Node := { n with terminating := n.isTerminating, runs := 0 }

@[simp]
theorem Node.identity_reread (n : Node) : n.reread.identity = n.identity := by
  simp only [identity, reread, isTerminating]
  cases n.terminating <;> cases n.links.isEmpty <;> rfl

namespace Graph

/-- A graph `h` into which the table of `g` has been read but for the rows of some nodes. -/
structure Importing (g h : Graph) (rest : List Node) : Prop where
  read : ∀ n ∈ g.nodeList, n ∉ rest → h.node? n.id = some n.reread
  fresh : ∀ n ∈ rest, h.nodeOrNew n.id = { Node.empty n.id with initializing := n.initializing }
  known : ∀ id m, h.node? id = some m → ∃ n, g.node? id = some n

section Import

variable {g h : Graph}

theorem WellFormed.eq_of_id (wf : g.WellFormed) {n m : Node} (first : n ∈ g.nodeList)
    (second : m ∈ g.nodeList) (same : n.id = m.id) : n = m := by
  have atFirst := wf.node?_self first
  rw [same, wf.node?_self second] at atFirst
  exact (Option.some.inj atFirst).symm

theorem WellFormed.nodeList_nodup (wf : g.WellFormed) : g.nodeList.Nodup := by
  refine List.pairwise_map.mpr (g.nodes.sorted.imp_of_mem ?_)
  intro a b inA inB below same
  have atA := (wf.nodes ⟨a.1⟩ a.2 (g.nodes.get?_eq_some_iff.mpr inA)).id
  have atB := (wf.nodes ⟨b.1⟩ b.2 (g.nodes.get?_eq_some_iff.mpr inB)).id
  rw [← same, atA] at atB
  have keys : a.1 = b.1 := congrArg NodeId.value atB
  exact UInt64.ne_of_lt below keys

theorem importing_start (wf : g.WellFormed) :
    Importing g (empty.applyRow (String.ofList g.startRow)).graph g.nodeList := by
  have marked (id : NodeId) : (g.initializingIds.foldl markInitializing empty).node? id =
      if id ∈ g.initializingIds then some { Node.empty id with initializing := true } else none :=
    node?_markAll empty g.initializingIds id
  rw [applyRow_startRow]
  refine ⟨fun n member fresh => absurd member fresh, fun n member => ?_, fun id m found => ?_⟩
  · rw [nodeOrNew, marked]
    cases flag : n.initializing with
    | true => rw [if_pos (g.mem_initializingIds_iff.mpr ⟨n, member, flag, rfl⟩)]; rfl
    | false =>
      have absent : n.id ∉ g.initializingIds := by
        intro inside
        obtain ⟨other, inList, flagged, same⟩ := g.mem_initializingIds_iff.mp inside
        rw [wf.eq_of_id inList member same, flag] at flagged
        cases flagged
      rw [if_neg absent]
      rfl
  · rw [marked] at found
    split at found
    · rename_i inside
      obtain ⟨n, inList, _, same⟩ := g.mem_initializingIds_iff.mp inside
      exact ⟨n, same ▸ wf.node?_self inList⟩
    · cases found

/-- The row of a node makes this node of an empty one. -/
theorem extend_eq_reread {n : Node} (sound : n.Sound) :
    Node.extend { Node.empty n.id with initializing := n.initializing }
      (n.fragments.items.map (fun item => ⟨item.1, item.2⟩)) n.links.items n.isTerminating =
        n.reread := by
  have words : Node.wordItems n.fragments.items = n.fragments.items := by
    refine List.filter_eq_self.mpr fun item member => ?_
    exact sound.words item.1 (sound.fragments.pos_of_mem_items member).1
  have texts : (n.fragments.items.map (fun item => (⟨item.1, item.2⟩ : FragmentItem))).map
      (fun item => (item.text, item.weight)) = n.fragments.items := by
    rw [List.map_map]
    exact List.map_id _
  rw [Node.extend_eq, texts, words]
  simp only [Node.empty, sound.fragments.insertAll_items, sound.links.insertAll_items,
    Node.reread, Node.isTerminating, Bool.false_or]
  cases n.terminating <;> cases n.links.isEmpty <;> rfl

theorem Importing.step (wf : g.WellFormed) {n : Node} {rest : List Node}
    (importing : Importing g h (n :: rest)) (inside : ∀ m ∈ n :: rest, m ∈ g.nodeList)
    (distinct : (n :: rest).Nodup) :
    Importing g (h.applyRow (String.ofList n.row)).graph rest := by
  have member := inside n List.mem_cons_self
  have admits := wf.nodes n.id n (wf.node?_self member)
  have own := importing.fresh n List.mem_cons_self
  rw [h.applyRow_row admits.sound, nodeOrNew_ensureAll, own]
  refine ⟨fun m inList unread => ?_, fun m later => ?_, fun id m found => ?_⟩
  · rw [node?_put]
    split
    · rename_i same
      rw [wf.eq_of_id inList member same]
      exact congrArg some (extend_eq_reread admits.sound)
    · rename_i different
      have before : m ∉ n :: rest := by
        intro again
        rcases List.mem_cons.mp again with rfl | later
        · exact different rfl
        · exact unread later
      have read := importing.read m inList before
      rw [node?_ensureAll, nodeOrNew_of_some read, read, ite_self]
  · have different : ¬ m.id = n.id := by
      intro same
      have equal := wf.eq_of_id (inside m (List.mem_cons_of_mem n later)) member same
      exact (List.nodup_cons.mp distinct).1 (equal ▸ later)
    rw [nodeOrNew_put, if_neg different, nodeOrNew_ensureAll]
    exact importing.fresh m (List.mem_cons_of_mem n later)
  · rw [node?_put] at found
    split at found
    · rename_i same
      exact ⟨n, same ▸ wf.node?_self member⟩
    · rw [node?_ensureAll] at found
      split at found
      · rename_i inLinks
        obtain ⟨link, linked, rfl⟩ := List.mem_map.mp inLinks
        exact admits.links link.1 (admits.sound.links.pos_of_mem_items linked).1
      · exact importing.known id m found

theorem Importing.rows (wf : g.WellFormed) {rest : List Node} (importing : Importing g h rest)
    (inside : ∀ m ∈ rest, m ∈ g.nodeList) (distinct : rest.Nodup) :
    Importing g ((rest.map (fun n => String.ofList n.row)).foldl
      (fun g line => (g.applyRow line).graph) h) [] := by
  induction rest generalizing h with
  | nil => exact importing
  | cons n rest ih =>
    exact ih (importing.step wf inside distinct)
      (fun m later => inside m (List.mem_cons_of_mem n later)) (List.nodup_cons.mp distinct).2

theorem node?_prepare (g : Graph) : g.prepare.node? = g.node? := rfl

/-- The graph that is read from the table of a graph has the same nodes, each as its row gives it
back. -/
theorem WellFormed.node?_ofTable_table (wf : g.WellFormed) (id : NodeId) :
    (Graph.ofTable g.table).node? id = (g.node? id).map Node.reread := by
  have imported := (importing_start wf).rows wf (fun _ member => member) wf.nodeList_nodup
  have lines : (Graph.ofTable g.table).node? = ((g.nodeList.map (fun n => String.ofList n.row)).foldl
      (fun g line => (g.applyRow line).graph)
        (empty.applyRow (String.ofList g.startRow)).graph).node? := by
    rw [Graph.ofTable, node?_prepare, Graph.table, List.map_cons, List.map_map, List.foldl_cons]
    rfl
  rw [lines]
  cases found : g.node? id with
  | some n =>
    have member := g.mem_nodeList_iff.mpr ⟨id, found⟩
    have read := imported.read n member List.not_mem_nil
    rwa [(wf.nodes id n found).id] at read
  | none =>
    refine Option.eq_none_iff_forall_ne_some.mpr fun m extra => ?_
    obtain ⟨n, impossible⟩ := imported.known id m extra
    rw [found] at impossible
    cases impossible

/-- It is the same language. -/
theorem WellFormed.same_ofTable_table (wf : g.WellFormed) : (Graph.ofTable g.table).Same g := by
  refine same_iff.mpr fun id => ?_
  rw [wf.node?_ofTable_table, Option.map_map]
  congr 1
  funext n
  exact n.identity_reread

end Import

end Graph

end PseudoWord
