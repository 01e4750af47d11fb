import PseudoWord.Proofs.FreeId
import PseudoWord.Proofs.WellFormed

namespace PseudoWord

/-- A key that is not there yet gets an entry of its own. -/
theorem KeyMap.length_place_of_absent {α : Type} {key : UInt64} (value : α)
    {entries : List (UInt64 × α)} (absent : key ∉ entries.map (·.1)) :
    (place key value entries).length = entries.length + 1 := by
  induction entries with
  | nil => rfl
  | cons head rest ih =>
    have different : key ≠ head.1 := List.ne_of_not_mem_cons absent
    rw [place]
    split
    · rfl
    · split
      · rw [List.length_cons, ih (List.not_mem_of_not_mem_cons absent), List.length_cons]
      · rename_i notBelow notOver
        exact absurd (UInt64.le_antisymm (UInt64.not_lt.mp notOver) (UInt64.not_lt.mp notBelow)) different

namespace Graph

/-- What it means that a node is new: it gets the id that comes next, which no node had, and all other
nodes are as before. -/
structure GainsNode (g : Graph) (id : NodeId) (n : Node) (h : Graph) : Prop where
  next : g.GivesNext id
  free : g.node? id = none
  size : h.size = g.size + 1
  nodes : ∀ other, h.node? other = if other = id then some n else g.node? other

theorem gainsNode_createNode {g : Graph} (few : g.size < UInt64.size) (fragments : List String) :
    g.GainsNode (g.createNode fragments).1 (.ofFragments (g.createNode fragments).1 fragments)
      (g.createNode fragments).2 := by
  have next := givesNext_nextFreeId few
  refine ⟨next, node?_nextFreeId few, ?_, fun other => node?_put g _ other _⟩
  exact KeyMap.length_place_of_absent _ (mt uses_iff_mem.mpr next.free)

/-- Adds a node for each list of fragments, one after the other. The ids come in the same order. -/
def createNodes (g : Graph) : List (List String) → List NodeId × Graph
  | [] => ([], g)
  | fragments :: rest =>
    ((g.createNode fragments).1 :: ((g.createNode fragments).2.createNodes rest).1,
      ((g.createNode fragments).2.createNodes rest).2)

/-- What it means that several nodes are new: they have ids of their own that no node had, and all other
nodes are as before. -/
structure GainsNodes (g : Graph) (ids : List NodeId) (requests : List (List String)) (h : Graph) :
    Prop where
  length : ids.length = requests.length
  distinct : ids.Nodup
  free : ∀ id ∈ ids, g.node? id = none
  size : h.size = g.size + requests.length
  created : ∀ id fragments, (id, fragments) ∈ ids.zip requests →
    h.node? id = some (.ofFragments id fragments)
  kept : ∀ other, other ∉ ids → h.node? other = g.node? other

theorem GainsNode.cons {g h last : Graph} {id : NodeId} {fragments : List String} {ids : List NodeId}
    {requests : List (List String)} (first : g.GainsNode id (.ofFragments id fragments) h)
    (later : h.GainsNodes ids requests last) :
    g.GainsNodes (id :: ids) (fragments :: requests) last := by
  have there : h.node? id = some (.ofFragments id fragments) := (first.nodes id).trans (if_pos rfl)
  have fresh : id ∉ ids := by
    intro member
    rw [later.free id member] at there
    cases there
  have apart (other : NodeId) (different : other ≠ id) : h.node? other = g.node? other :=
    (first.nodes other).trans (if_neg different)
  refine ⟨?_, List.nodup_cons.mpr ⟨fresh, later.distinct⟩, ?_, ?_, ?_, ?_⟩
  · rw [List.length_cons, later.length, List.length_cons]
  · intro other member
    rcases List.mem_cons.mp member with rfl | inLater
    · exact first.free
    · rw [← apart other fun same => fresh (same ▸ inLater)]
      exact later.free other inLater
  · rw [later.size, first.size, List.length_cons]
    omega
  · intro other request member
    rw [List.zip_cons_cons] at member
    rcases List.mem_cons.mp member with same | inLater
    · cases same
      rw [later.kept id fresh, there]
    · exact later.created other request inLater
  · intro other outside
    rw [later.kept other (List.not_mem_of_not_mem_cons outside),
      apart other (List.ne_of_not_mem_cons outside)]

theorem gainsNodes_createNodes {g : Graph} {requests : List (List String)}
    (room : g.size + requests.length ≤ UInt64.size) :
    g.GainsNodes (g.createNodes requests).1 requests (g.createNodes requests).2 := by
  induction requests generalizing g with
  | nil => exact ⟨rfl, .nil, fun _ member => absurd member List.not_mem_nil, rfl,
      fun _ _ member => absurd member List.not_mem_nil, fun _ _ => rfl⟩
  | cons fragments rest ih =>
    rw [List.length_cons] at room
    have first := gainsNode_createNode (g := g) (by omega) fragments
    refine first.cons (ih ?_)
    rw [first.size]
    omega

/-- As long as there are ids left, each of several new nodes gets the id that comes next and takes the
place of none. So all of them have ids of their own, and no node is replaced. -/
theorem new_nodes {g : Graph} {requests : List (List String)}
    (room : g.size + requests.length ≤ UInt64.size) :
    (∀ before fragments, before ++ [fragments] <+: requests →
      (g.createNodes before).2.GainsNode ((g.createNodes before).2.createNode fragments).1
        (.ofFragments ((g.createNodes before).2.createNode fragments).1 fragments)
        ((g.createNodes before).2.createNode fragments).2) ∧
      g.GainsNodes (g.createNodes requests).1 requests (g.createNodes requests).2 := by
  refine ⟨fun before fragments starts => gainsNode_createNode ?_ fragments, gainsNodes_createNodes room⟩
  have fewer := starts.length_le
  rw [List.length_append, List.length_singleton] at fewer
  have earlier : g.size + before.length ≤ UInt64.size := by omega
  rw [(gainsNodes_createNodes earlier).size]
  omega

/-- With the largest id taken, the ids left out below it are given, the lowest first. -/
theorem new_nodes_gaps :
    ((ofTable ["N18446744073709551615 ; a ; O", "N1 ; b ; O"]).createNodes [["ka"], ["mo", "ri"]]).1 =
        [⟨0⟩, ⟨2⟩] ∧
      (ofTable ["N18446744073709551615 ; a ; O", "N1 ; b ; O"]).GainsNodes [⟨0⟩, ⟨2⟩]
        [["ka"], ["mo", "ri"]]
        ((ofTable ["N18446744073709551615 ; a ; O", "N1 ; b ; O"]).createNodes
          [["ka"], ["mo", "ri"]]).2 := by
  have room : (ofTable ["N18446744073709551615 ; a ; O", "N1 ; b ; O"]).size +
      [["ka"], ["mo", "ri"]].length ≤ UInt64.size := by decide +kernel
  have ids : ((ofTable ["N18446744073709551615 ; a ; O", "N1 ; b ; O"]).createNodes
      [["ka"], ["mo", "ri"]]).1 = [⟨0⟩, ⟨2⟩] := by decide +kernel
  have gains := (new_nodes room).2
  rw [ids] at gains
  exact ⟨ids, gains⟩

end Graph

end PseudoWord
