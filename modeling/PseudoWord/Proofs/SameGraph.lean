import PseudoWord.Proofs.KeyMapLookup
import PseudoWord.Report
import PseudoWord.Table.Export

namespace PseudoWord

/-- A node with this identity. -/
def Node.Identity.node (identity : Node.Identity) : Node :=
  ⟨identity.id, identity.fragments, identity.links, identity.initializing, identity.terminating, 0⟩

namespace Graph

theorem same_iff {g h : Graph} :
    g.Same h ↔ ∀ id, (g.node? id).map Node.identity = (h.node? id).map Node.identity := by
  constructor
  · intro same id
    have answers := congrArg (fun m => m.get? id.value) same
    simp only [KeyMap.get?_map] at answers
    exact answers
  · intro same
    refine KeyMap.ext_get? fun key => ?_
    rw [KeyMap.get?_map, KeyMap.get?_map]
    exact same ⟨key⟩

theorem ext_node? {g h : Graph} (name : g.name = h.name) (starts : g.starts = h.starts)
    (nodes : ∀ id, g.node? id = h.node? id) : g = h := by
  have same : g.nodes = h.nodes := KeyMap.ext_get? fun key => nodes ⟨key⟩
  cases g
  cases h
  cases name
  cases starts
  cases same
  rfl

theorem initializingIds_eq (g : Graph) :
    g.initializingIds =
      ((g.nodes.map Node.identity).values.filter (·.initializing)).map (·.id) := by
  simp only [initializingIds, nodeList, KeyMap.values, KeyMap.map, List.filter_map, List.map_map,
    Function.comp_def, Node.identity]

theorem Same.initializingIds_eq {g h : Graph} (same : g.Same h) :
    g.initializingIds = h.initializingIds := by
  rw [Graph.initializingIds_eq, Graph.initializingIds_eq, same]

/-- The table depends on nothing but what makes nodes the same. -/
theorem Same.table_eq {g h : Graph} (same : g.Same h) : g.table = h.table := by
  have row (n : Node) : n.row = (n.identity.node).row := by
    have ends : n.identity.node.isTerminating = n.isTerminating := by
      simp [Node.isTerminating, Node.Identity.node, Node.identity]
    simp only [Node.row, Node.fragmentsField, Node.linksField, ends]
    rfl
  have rows (k : Graph) : k.nodeList.map Node.row =
      (k.nodes.map Node.identity).values.map (fun identity => identity.node.row) := by
    have turned := List.map_congr_left (fun n (_ : n ∈ k.nodeList) => row n)
    simp only [nodeList, KeyMap.values, KeyMap.map, List.map_map, Function.comp_def] at turned ⊢
    exact turned
  rw [table, table, startRow, startRow, same.initializingIds_eq, rows g, rows h, same]

theorem node?_countRun (g : Graph) (id other : NodeId) :
    (g.countRun id).node? other =
      (g.node? other).map (fun n => if other = id then { n with runs := n.runs + 1 } else n) := by
  have same : other.value = id.value ↔ other = id := by
    cases id
    cases other
    simp
  simp only [node?, countRun, KeyMap.get?_adjust, same]
  split
  · rename_i equal
    rw [equal]
  · simp

/-- Counting a walk is no change to the language. -/
theorem same_countRun (g : Graph) (id : NodeId) : (g.countRun id).Same g := by
  refine same_iff.mpr fun other => ?_
  rw [node?_countRun, Option.map_map]
  congr 1
  funext n
  simp only [Function.comp_apply]
  split <;> rfl

end Graph

end PseudoWord
