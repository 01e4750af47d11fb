import PseudoWord.Proofs.WellFormed

namespace PseudoWord

namespace Row

/-- The nodes that a row says something of. The targets of the links in the row of a node are among
them, because they come in with it. -/
def named (row : Row) : List NodeId :=
  match row.head with
  | .starts => row.links.filterMap LinkItem.target?
  | .node id => id :: (row.links.filterMap LinkItem.followed?).map (·.1)

/-- What a row makes of the node under an id that it names. -/
def alter (row : Row) (id : NodeId) (n : Node) : Node :=
  match row.head with
  | .starts => { n with initializing := true }
  | .node own =>
    if id = own then
      n.extend row.fragments (row.links.filterMap LinkItem.followed?) (row.links.contains .terminal)
    else n

theorem named_of_node {row : Row} {id : NodeId} (head : row.head = .node id) :
    row.named = id :: (row.links.filterMap LinkItem.followed?).map (·.1) := by
  rw [named, head]

theorem mem_named_own {row : Row} {id : NodeId} (head : row.head = .node id) : id ∈ row.named :=
  named_of_node head ▸ List.mem_cons_self

theorem alter_of_starts {row : Row} (head : row.head = .starts) (id : NodeId) (n : Node) :
    row.alter id n = { n with initializing := true } := by
  rw [alter, head]

theorem alter_of_own {row : Row} {id : NodeId} (head : row.head = .node id) (n : Node) :
    row.alter id n =
      n.extend row.fragments (row.links.filterMap LinkItem.followed?) (row.links.contains .terminal) := by
  rw [alter, head]
  exact if_pos rfl

theorem alter_of_other {row : Row} {id own : NodeId} (head : row.head = .node own) (other : id ≠ own)
    (n : Node) : row.alter id n = n := by
  rw [alter, head]
  exact if_neg other

end Row

namespace Graph

section Nodes

variable (g : Graph)

theorem nodeOrNew_of_some {g : Graph} {id : NodeId} {n : Node} (found : g.node? id = some n) :
    g.nodeOrNew id = n := by
  rw [nodeOrNew, found]
  rfl

theorem nodeOrNew_put (id other : NodeId) (n : Node) :
    (g.put id n).nodeOrNew other = if other = id then n else g.nodeOrNew other := by
  rw [nodeOrNew, node?_put]
  split
  · rfl
  · rfl

theorem node?_ensureNode (id other : NodeId) :
    (g.ensureNode id).node? other = if other = id then some (g.nodeOrNew other) else g.node? other := by
  rw [ensureNode, node?_put]
  split
  · rename_i same
    rw [same]
  · rfl

/-- To make sure that a node is there changes no node. -/
theorem nodeOrNew_ensureNode (id other : NodeId) :
    (g.ensureNode id).nodeOrNew other = g.nodeOrNew other := by
  rw [nodeOrNew, node?_ensureNode]
  split
  · rfl
  · rfl

theorem node?_ensureNode_of_some {g : Graph} {other : NodeId} {n : Node}
    (found : g.node? other = some n) (id : NodeId) : (g.ensureNode id).node? other = some n := by
  rw [node?_ensureNode, nodeOrNew_of_some found, found, ite_self]

theorem nodeOrNew_ensureAll (links : List (NodeId × Int64)) (other : NodeId) :
    (links.foldl (fun g link => g.ensureNode link.1) g).nodeOrNew other = g.nodeOrNew other := by
  induction links generalizing g with
  | nil => rfl
  | cons link rest ih => exact (ih (g.ensureNode link.1)).trans (g.nodeOrNew_ensureNode link.1 other)

/-- The only nodes that come in are those that links lead to. -/
theorem node?_ensureAll (links : List (NodeId × Int64)) (id : NodeId) :
    (links.foldl (fun g link => g.ensureNode link.1) g).node? id =
      if id ∈ links.map (·.1) then some (g.nodeOrNew id) else g.node? id := by
  induction links generalizing g with
  | nil => rfl
  | cons link rest ih =>
    rw [List.foldl_cons, ih, nodeOrNew_ensureNode, node?_ensureNode, List.map_cons]
    by_cases inRest : id ∈ rest.map (·.1)
    · rw [if_pos inRest, if_pos (List.mem_cons_of_mem link.1 inRest)]
    · rw [if_neg inRest]
      simp only [List.mem_cons, inRest, or_false]

theorem nodeOrNew_markInitializing (id other : NodeId) :
    (g.markInitializing id).nodeOrNew other =
      if other = id then { g.nodeOrNew other with initializing := true } else g.nodeOrNew other := by
  rw [markInitializing, nodeOrNew_put]
  split
  · rename_i same
    rw [same]
  · rfl

/-- After a row of start nodes there is a flagged node for each of them. -/
theorem node?_markAll (ids : List NodeId) (id : NodeId) :
    (ids.foldl markInitializing g).node? id =
      if id ∈ ids then some { g.nodeOrNew id with initializing := true } else g.node? id := by
  induction ids generalizing g with
  | nil => rfl
  | cons first rest ih =>
    rw [List.foldl_cons, ih, nodeOrNew_markInitializing, markInitializing, node?_put]
    by_cases atFirst : id = first
    · subst atFirst
      simp
    · simp only [List.mem_cons, atFirst, if_false, false_or]

end Nodes

section Rows

variable (g : Graph) (row : Row)

/-- A row changes the nodes that it names, and no others. -/
theorem node?_addRow (id : NodeId) :
    (g.addRow row).node? id =
      if id ∈ row.named then some (row.alter id (g.nodeOrNew id)) else g.node? id := by
  rw [addRow, Row.named, Row.alter]
  cases row.head with
  | starts => exact g.node?_markAll _ id
  | node own =>
    dsimp only
    rw [node?_put, nodeOrNew_ensureAll, node?_ensureAll]
    by_cases same : id = own
    · subst same
      simp
    · simp only [List.mem_cons, same, if_false, false_or]

theorem nodeOrNew_addRow (id : NodeId) :
    (g.addRow row).nodeOrNew id =
      if id ∈ row.named then row.alter id (g.nodeOrNew id) else g.nodeOrNew id := by
  rw [nodeOrNew, node?_addRow]
  split
  · rfl
  · rfl

theorem node?_addRow_own {id : NodeId} (head : row.head = .node id) :
    (g.addRow row).node? id = some ((g.addRow row).nodeOrNew id) := by
  rw [node?_addRow, nodeOrNew_addRow, if_pos (Row.mem_named_own head), if_pos (Row.mem_named_own head)]

theorem applyRow_of_ok {line : String} {row : Row} (parsed : Row.parse line.toList = .ok row) :
    g.applyRow line = ⟨true, g.addRow row⟩ := by
  rw [applyRow, parsed]

theorem applyRow_of_error {line : String} {fault : RowFault}
    (parsed : Row.parse line.toList = .error fault) : g.applyRow line = ⟨false, g⟩ := by
  rw [applyRow, parsed]

theorem name_addRow : (g.addRow row).name = g.name := by
  rw [addRow]
  cases row.head with
  | starts =>
    exact List.foldlRecOn (motive := fun h : Graph => h.name = g.name) _ _ rfl fun _ same _ _ => same
  | node own =>
    exact List.foldlRecOn (motive := fun h : Graph => h.name = g.name) _ _ rfl fun _ same _ _ => same

theorem starts_markAll {ids : List NodeId} {g : Graph} (forgotten : g.starts = none) :
    (ids.foldl markInitializing g).starts = none := by
  induction ids generalizing g with
  | nil => exact forgotten
  | cons id rest ih => exact ih rfl

/-- The start nodes are forgotten unless the row names no node. -/
theorem starts_addRow : (g.addRow row).starts = if row.named = [] then g.starts else none := by
  rw [addRow, Row.named]
  cases row.head with
  | starts =>
    dsimp only
    cases row.links.filterMap LinkItem.target? with
    | nil => rfl
    | cons first rest => exact starts_markAll (g := g.markInitializing first) rfl
  | node own => rfl

end Rows

end Graph

end PseudoWord
