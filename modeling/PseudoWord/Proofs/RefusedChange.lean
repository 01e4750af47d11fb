import PseudoWord.Proofs.ImportedTable
import PseudoWord.Proofs.Reachable

namespace PseudoWord

/-- The answer to an operation: the id of a new node, or whether a request was accepted. The operations
that cannot be refused answer nothing. -/
inductive Reply where
  | created (id : NodeId)
  | accepted (yes : Bool)
  | nothing
deriving DecidableEq

def Operation.reply (g : Graph) : Operation → Reply
  | createNode fragments => .created (g.createNode fragments).1
  | addFragment id fragment weight => .accepted (g.addFragment id fragment weight).accepted
  | addLink source target weight => .accepted (g.addLink source target weight).accepted
  | setProperties id initializing terminating =>
    .accepted (g.setProperties id initializing terminating).accepted
  | applyRow line => .accepted (g.applyRow line).accepted
  | setName _ => .nothing
  | prepare => .nothing
  | countRuns _ => .nothing

theorem KeyMap.insert_of_get? {α : Type} {m : KeyMap α} {key : UInt64} {value : α}
    (found : m.get? key = some value) : m.insert key value = m := by
  refine ext_get? fun other => ?_
  rw [get?_insert]
  split
  · rename_i same
    rw [same, found]
  · rfl

theorem Node.addLink?_eq_none_iff {n : Node} {target : NodeId} {weight : Int64}
    (positive : 0 < weight) : n.addLink? target weight = none ↔
      UInt64.size ≤ n.links.total.toNat + weight.toUInt64.toNat := by
  have fits := n.links.insert?_isSome_iff target weight
  simp only [positive, true_and] at fits
  rw [addLink?, Option.map_eq_none_iff, ← Option.not_isSome_iff_eq_none, fits, Nat.not_lt]

namespace Graph

variable {g : Graph}

theorem nodes_put_of_node? {id : NodeId} {n : Node} (found : g.node? id = some n) :
    (g.put id n).nodes = g.nodes := KeyMap.insert_of_get? found

/-- A change to one node that is refused leaves all nodes as they are. -/
theorem nodes_updateNode_of_refused {id : NodeId} {f : Node → Option Node}
    (refused : (g.updateNode id f).accepted = false) : (g.updateNode id f).graph.nodes = g.nodes := by
  rw [updateNode] at refused ⊢
  cases found : g.node? id with
  | none => rfl
  | some n =>
    rw [found] at refused
    have nothing : f n = none :=
      Option.isNone_iff_eq_none.mp (Option.isSome_eq_false_iff.mp refused)
    simp only [nothing, Option.getD_none]
    exact nodes_put_of_node? found

theorem nodes_ensureNode_of_none {target : NodeId} (missing : g.node? target = none) :
    (g.ensureNode target).nodes = g.nodes.insert target.value (.empty target) := by
  rw [ensureNode, put, nodeOrNew, missing]
  rfl

theorem nodes_ensureNode_of_some {target : NodeId} {n : Node} (found : g.node? target = some n) :
    (g.ensureNode target).nodes = g.nodes := by
  rw [ensureNode, nodeOrNew_of_some found]
  exact nodes_put_of_node? found

theorem addLink_of_not_pos {weight : Int64} (refused : ¬ 0 < weight) (source target : NodeId) :
    g.addLink source target weight = ⟨false, g⟩ := by
  rw [addLink, decide_eq_false refused, Bool.and_false, if_neg Bool.false_ne_true]

theorem addLink_of_none {source : NodeId} (missing : g.node? source = none) (target : NodeId)
    (weight : Int64) : g.addLink source target weight = ⟨false, g⟩ := by
  have unknown : g.nodes.contains source.value = false :=
    Option.isSome_eq_false_iff.mpr (Option.isNone_iff_eq_none.mpr missing)
  rw [addLink, unknown, Bool.false_and, if_neg Bool.false_ne_true]

theorem addLink_of_some {source : NodeId} {n : Node} (found : g.node? source = some n)
    (target : NodeId) {weight : Int64} (positive : 0 < weight) :
    g.addLink source target weight = ⟨(n.addLink? target weight).isSome,
      (g.ensureNode target).put source (n.addLink target weight)⟩ := by
  have known : g.nodes.contains source.value = true := Option.isSome_iff_exists.mpr ⟨n, found⟩
  have atSource : (g.ensureNode target).node? source = some n := node?_ensureNode_of_some found target
  rw [addLink, known, decide_eq_true positive, Bool.and_true, if_pos rfl, updateNode, atSource]
  rfl

/-- A link that only the total of the weights can refuse is refused after its target is made. -/
theorem accepted_addLink_eq_false_iff {source : NodeId} {n : Node} (found : g.node? source = some n)
    (target : NodeId) {weight : Int64} (positive : 0 < weight) :
    (g.addLink source target weight).accepted = false ↔
      UInt64.size ≤ n.links.total.toNat + weight.toUInt64.toNat := by
  rw [addLink_of_some found target positive, ← Node.addLink?_eq_none_iff positive]
  exact Option.isSome_eq_false_iff.trans Option.isNone_iff_eq_none

theorem nodes_addLink_of_full {source : NodeId} {n : Node} (found : g.node? source = some n)
    (target : NodeId) {weight : Int64} (positive : 0 < weight)
    (full : UInt64.size ≤ n.links.total.toNat + weight.toUInt64.toNat) :
    (g.addLink source target weight).graph.nodes = (g.ensureNode target).nodes := by
  rw [addLink_of_some found target positive, Node.addLink, (Node.addLink?_eq_none_iff positive).mpr full]
  exact nodes_put_of_node? (node?_ensureNode_of_some found target)

end Graph

namespace Operation

/-- The node that a refused operation leaves behind. A link to a missing node makes that node first,
and only then can its weight turn out to be too much for the total of the links. -/
inductive LeavesBehind (g : Graph) : Operation → NodeId → Prop
  | addLink {source target : NodeId} {weight : Int64} {n : Node} (found : g.node? source = some n)
      (missing : g.node? target = none) (positive : 0 < weight)
      (full : UInt64.size ≤ n.links.total.toNat + weight.toUInt64.toNat) :
      LeavesBehind g (addLink source target weight) target

variable {g : Graph} {operation : Operation}

theorem LeavesBehind.reply_eq {target : NodeId} (left : LeavesBehind g operation target) :
    operation.reply g = .accepted false := by
  cases left with
  | addLink found _ positive full =>
    exact congrArg Reply.accepted ((Graph.accepted_addLink_eq_false_iff found _ positive).mpr full)

theorem LeavesBehind.nodes_apply {target : NodeId} (left : LeavesBehind g operation target) :
    (operation.apply g).nodes = g.nodes.insert target.value (.empty target) := by
  cases left with
  | addLink found missing positive full =>
    exact (Graph.nodes_addLink_of_full found target positive full).trans
      (Graph.nodes_ensureNode_of_none missing)

theorem nodes_addLink_of_refused {source target : NodeId} {weight : Int64}
    (refused : (g.addLink source target weight).accepted = false)
    (clean : ¬ LeavesBehind g (.addLink source target weight) target) :
    (g.addLink source target weight).graph.nodes = g.nodes := by
  by_cases positive : 0 < weight
  · cases found : g.node? source with
    | none => rw [Graph.addLink_of_none found]
    | some n =>
      have full := (Graph.accepted_addLink_eq_false_iff found target positive).mp refused
      cases atTarget : g.node? target with
      | none => exact absurd (.addLink found atTarget positive full) clean
      | some next =>
        exact (Graph.nodes_addLink_of_full found target positive full).trans
          (Graph.nodes_ensureNode_of_some atTarget)
  · rw [Graph.addLink_of_not_pos positive]

/-- What a refused operation does to the nodes: nothing, but for the empty node that a link with too
large a weight leaves under an id that was free. -/
theorem refused_nodes (refused : operation.reply g = .accepted false) :
    ((operation.apply g).nodes = g.nodes ↔ ∀ target, ¬ LeavesBehind g operation target) ∧
      ∀ target, LeavesBehind g operation target → g.node? target = none ∧
        (operation.apply g).nodes = g.nodes.insert target.value (.empty target) := by
  have behind (target : NodeId) (left : LeavesBehind g operation target) : g.node? target = none ∧
      (operation.apply g).nodes = g.nodes.insert target.value (.empty target) := by
    have added := left.nodes_apply
    cases left with
    | addLink _ missing _ _ => exact ⟨missing, added⟩
  refine ⟨⟨fun kept target left => ?_, fun clean => ?_⟩, behind⟩
  · obtain ⟨missing, added⟩ := behind target left
    have present : g.nodes.get? target.value = some (.empty target) := by
      rw [← kept, added, KeyMap.get?_insert, if_pos rfl]
    have missing : g.nodes.get? target.value = none := missing
    rw [missing] at present
    cases present
  · cases operation with
    | createNode fragments => cases refused
    | addFragment id fragment weight =>
      exact Graph.nodes_updateNode_of_refused (Reply.accepted.inj refused)
    | addLink source target weight =>
      exact nodes_addLink_of_refused (Reply.accepted.inj refused) (clean target)
    | setProperties id initializing terminating =>
      exact Graph.nodes_updateNode_of_refused (Reply.accepted.inj refused)
    | applyRow line =>
      have refused := Reply.accepted.inj refused
      rw [apply]
      rw [Graph.applyRow] at refused ⊢
      split at refused
      · cases refused
      · rfl
    | setName name => cases refused
    | prepare => cases refused
    | countRuns report => cases refused

/-- One node whose two links to itself weigh as much as links can in all, but for one unit. -/
def fullLinks : Graph :=
  apply (apply (apply .empty (createNode ["a"])) (addLink ⟨0⟩ ⟨0⟩ Int64.maxValue))
    (addLink ⟨0⟩ ⟨0⟩ Int64.maxValue)

theorem reachable_fullLinks : fullLinks.Reachable := .next _ (.next _ (.next _ (.named "")))

theorem leavesBehind_fullLinks : LeavesBehind fullLinks (addLink ⟨0⟩ ⟨5⟩ 2) ⟨5⟩ :=
  .addLink (Option.some_get (show (fullLinks.node? ⟨0⟩).isSome = true by decide +kernel)).symm
    (by decide +kernel) (by decide) (by decide +kernel)

/-- A link from a node that is missing, and a link that is too heavy. -/
theorem refused_nodes_fullLinks :
    (addLink ⟨5⟩ ⟨0⟩ 1).reply fullLinks = .accepted false ∧
      ((addLink ⟨5⟩ ⟨0⟩ 1).apply fullLinks).nodes = fullLinks.nodes ∧
      (addLink ⟨0⟩ ⟨5⟩ 2).reply fullLinks = .accepted false ∧
      ((addLink ⟨0⟩ ⟨5⟩ 2).apply fullLinks).nodes = fullLinks.nodes.insert 5 (.empty ⟨5⟩) := by
  have missing : fullLinks.node? ⟨5⟩ = none := by decide +kernel
  have unknown : (addLink ⟨5⟩ ⟨0⟩ 1).reply fullLinks = .accepted false := by decide +kernel
  have late := leavesBehind_fullLinks
  refine ⟨unknown, (refused_nodes unknown).1.mpr fun target left => ?_, late.reply_eq,
    ((refused_nodes late.reply_eq).2 _ late).2⟩
  cases left with
  | addLink found _ _ _ =>
    rw [missing] at found
    cases found

/-- A link that is refused, after which the graph has one node more. -/
theorem refused_link_adds_node : fullLinks.Reachable ∧
    (addLink ⟨0⟩ ⟨5⟩ 2).reply fullLinks = .accepted false ∧ fullLinks.node? ⟨5⟩ = none ∧
      ((addLink ⟨0⟩ ⟨5⟩ 2).apply fullLinks).node? ⟨5⟩ = some (.empty ⟨5⟩) :=
  ⟨reachable_fullLinks, by decide +kernel, by decide +kernel, by decide +kernel⟩

end Operation

end PseudoWord
