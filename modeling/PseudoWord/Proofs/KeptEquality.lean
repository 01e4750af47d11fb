import Mathlib.Data.List.Induction
import PseudoWord.Proofs.AlikeGraphs

namespace PseudoWord

theorem LinkItem.pos_of_mem_followed {items : List LinkItem} {link : NodeId × Int64}
    (member : link ∈ items.filterMap followed?) : 0 < link.2 := by
  obtain ⟨item, _, followed⟩ := List.mem_filterMap.mp member
  cases item with
  | terminal => cases followed
  | link target weight =>
    rw [followed?] at followed
    split at followed
    · rename_i positive
      cases followed
      exact positive
    · cases followed

/-- An operation that gives a node its first links and does not say whether words may end there. From
then on its own flag says so, which did not count before. -/
inductive Operation.FirstLink (g : Graph) : Operation → NodeId → Prop
  | addLink {source target : NodeId} {weight : Int64} {n : Node} (found : g.node? source = some n)
      (linkless : n.links.isEmpty = true) (positive : 0 < weight) :
      FirstLink g (addLink source target weight) source
  | applyRow {line : String} {row : Row} {id : NodeId} {n : Node} {link : NodeId × Int64}
      (parsed : Row.parse line.toList = .ok row) (head : row.head = .node id)
      (found : g.node? id = some n) (linkless : n.links.isEmpty = true)
      (followed : link ∈ row.links.filterMap LinkItem.followed?)
      (silent : row.links.contains .terminal = false) :
      FirstLink g (applyRow line) id

/-- The flag of the node under an id, which a node without links hides. -/
def Graph.flag? (g : Graph) (id : NodeId) : Option Bool := (g.node? id).map (·.terminating)

namespace Graph

variable {reading : Reading} {g h : Graph}

/-- The flags of two graphs under an id are read alike, once the node has links. -/
def FlagsAlike (reading : Reading) (g h : Graph) (id : NodeId) : Prop :=
  (g.flag? id).map (reading · false) = (h.flag? id).map (reading · false)

theorem flagsAlike_iff {id : NodeId} {n m : Node} (inG : g.node? id = some n)
    (inH : h.node? id = some m) :
    FlagsAlike reading g h id ↔ reading n.terminating false = reading m.terminating false := by
  rw [FlagsAlike, flag?, flag?, inG, inH]
  exact ⟨Option.some.inj, congrArg some⟩

theorem SeenAlike.addFragment (alike : SeenAlike reading g h) (id : NodeId) (fragment : String)
    (weight : Int64) :
    (g.addFragment id fragment weight).accepted = (h.addFragment id fragment weight).accepted ∧
      SeenAlike reading (g.addFragment id fragment weight).graph
        (h.addFragment id fragment weight).graph :=
  alike.updateNode id fun _ _ same => ⟨Node.isSome_addFragment?_eq same fragment weight,
    Node.seen_addFragment same fragment weight⟩

theorem SeenAlike.setProperties (alike : SeenAlike reading g h) (id : NodeId)
    (initializing terminating : Bool) :
    (g.setProperties id initializing terminating).accepted =
        (h.setProperties id initializing terminating).accepted ∧
      SeenAlike reading (g.setProperties id initializing terminating).graph
        (h.setProperties id initializing terminating).graph :=
  alike.updateNode id fun _ _ same => ⟨rfl, Node.seen_setFlags same initializing terminating⟩

theorem SeenAlike.addLink (wf : g.WellFormed) (alike : SeenAlike reading g h) (source target : NodeId)
    (weight : Int64) :
    (g.addLink source target weight).accepted = (h.addLink source target weight).accepted ∧
      (SeenAlike reading (g.addLink source target weight).graph (h.addLink source target weight).graph ↔
        ∀ id, Operation.FirstLink g (.addLink source target weight) id →
          FlagsAlike reading g h id) := by
  by_cases positive : 0 < weight
  · rcases alike.cases source with ⟨inG, inH⟩ | ⟨n, m, inG, inH, same⟩
    · rw [addLink_of_none inG, addLink_of_none inH]
      refine ⟨rfl, iff_of_true alike fun id first => ?_⟩
      cases first with
      | addLink found _ _ => cases inG.symm.trans found
    · rw [addLink_of_some inG target positive, addLink_of_some inH target positive]
      refine ⟨Node.isSome_addLink?_eq same target weight,
        ((alike.ensureNode target).put_iff source).trans ?_⟩
      rw [Node.seen_addLink_iff (wf.nodes _ _ inG).sound same, ← flagsAlike_iff inG inH]
      constructor
      · intro read id first
        cases first with
        | addLink found linkless positive =>
          cases inG.symm.trans found
          exact read linkless positive
      · exact fun read linkless positive => read source (.addLink inG linkless positive)
  · rw [addLink_of_not_pos positive, addLink_of_not_pos positive]
    refine ⟨rfl, iff_of_true alike fun id first => ?_⟩
    cases first with
    | addLink _ _ possible => exact absurd possible positive

theorem SeenAlike.addRow_node (wf : g.WellFormed) (alike : SeenAlike reading g h) {row : Row} {id : NodeId}
    (head : row.head = .node id) :
    SeenAlike reading (g.addRow row) (h.addRow row) ↔
      ((∃ n, g.node? id = some n ∧ n.links.isEmpty = true) →
        row.links.filterMap LinkItem.followed? ≠ [] → row.links.contains .terminal = false →
          FlagsAlike reading g h id) := by
  have nonempty_iff : (row.links.filterMap LinkItem.followed?).any
      (fun link => decide (0 < link.2)) = true ↔ row.links.filterMap LinkItem.followed? ≠ [] := by
    rw [List.any_eq_true]
    constructor
    · rintro ⟨link, member, _⟩
      exact List.ne_nil_of_mem member
    · intro nonempty
      obtain ⟨link, member⟩ := List.exists_mem_of_ne_nil _ nonempty
      exact ⟨link, member, decide_eq_true (LinkItem.pos_of_mem_followed member)⟩
  have whole (k : Graph) : k.addRow row =
      ((row.links.filterMap LinkItem.followed?).foldl (fun g link => g.ensureNode link.1) k).put id
        ((k.nodeOrNew id).extend row.fragments (row.links.filterMap LinkItem.followed?)
          (row.links.contains .terminal)) := by
    rw [addRow, head]
    simp only [nodeOrNew_ensureAll]
  rw [whole, whole, (alike.ensureAll _).put_iff id,
    Node.seen_extend_iff (wf.admits_nodeOrNew id).sound (alike.seen_nodeOrNew id), nonempty_iff]
  rcases alike.cases id with ⟨inG, inH⟩ | ⟨n, m, inG, inH, _⟩
  · simp [nodeOrNew, FlagsAlike, flag?, inG, inH]
  · rw [nodeOrNew_of_some inG, nodeOrNew_of_some inH, flagsAlike_iff inG inH]
    simp [inG]

theorem SeenAlike.applyRow (wf : g.WellFormed) (alike : SeenAlike reading g h) (line : String) :
    (g.applyRow line).accepted = (h.applyRow line).accepted ∧
      (SeenAlike reading (g.applyRow line).graph (h.applyRow line).graph ↔
        ∀ id, Operation.FirstLink g (.applyRow line) id → FlagsAlike reading g h id) := by
  rw [Graph.applyRow, Graph.applyRow]
  cases parsed : Row.parse line.toList with
  | error fault =>
    refine ⟨rfl, iff_of_true alike fun id first => ?_⟩
    cases first with
    | applyRow ok _ _ _ _ _ => cases parsed.symm.trans ok
  | ok row =>
    refine ⟨rfl, ?_⟩
    cases head : row.head with
    | starts =>
      have marked : SeenAlike reading (g.addRow row) (h.addRow row) := by
        rw [addRow, addRow, head]
        exact alike.markAll _
      refine iff_of_true marked fun id first => ?_
      cases first with
      | applyRow ok atHead _ _ _ _ =>
        cases parsed.symm.trans ok
        cases head.symm.trans atHead
    | node id =>
      refine (alike.addRow_node wf head).trans ⟨fun read other first => ?_, fun read => ?_⟩
      · cases first with
        | applyRow ok atHead found linkless followed silent =>
          cases parsed.symm.trans ok
          cases head.symm.trans atHead
          exact read ⟨_, found, linkless⟩ (List.ne_nil_of_mem followed) silent
      · rintro ⟨n, found, linkless⟩ nonempty silent
        obtain ⟨link, followed⟩ := List.exists_mem_of_ne_nil _ nonempty
        exact read id (.applyRow parsed head found linkless followed silent)

/-- The answer to an operation does not depend on what a reading hides, and the graphs are alike after
it if they read the flag alike of each node that gets its first links. -/
theorem SeenAlike.apply (wf : g.WellFormed) (alike : SeenAlike reading g h) (operation : Operation) :
    operation.reply g = operation.reply h ∧
      (SeenAlike reading (operation.apply g) (operation.apply h) ↔
        ∀ id, operation.FirstLink g id → FlagsAlike reading g h id) := by
  cases operation with
  | createNode fragments =>
    have free := alike.nextFreeId_eq
    have created : SeenAlike reading (g.createNode fragments).2 (h.createNode fragments).2 := by
      rw [Graph.createNode, Graph.createNode, free]
      exact (alike.put_iff _).mpr rfl
    exact ⟨congrArg Reply.created free, iff_of_true created fun _ first => nomatch first⟩
  | addFragment id fragment weight =>
    obtain ⟨accepted, kept⟩ := alike.addFragment id fragment weight
    exact ⟨congrArg Reply.accepted accepted, iff_of_true kept fun _ first => nomatch first⟩
  | addLink source target weight =>
    exact (alike.addLink wf source target weight).imp_left (congrArg Reply.accepted)
  | setProperties id initializing terminating =>
    obtain ⟨accepted, kept⟩ := alike.setProperties id initializing terminating
    exact ⟨congrArg Reply.accepted accepted, iff_of_true kept fun _ first => nomatch first⟩
  | applyRow line => exact (alike.applyRow wf line).imp_left (congrArg Reply.accepted)
  | setName name => exact ⟨rfl, iff_of_true alike fun _ first => nomatch first⟩
  | prepare => exact ⟨rfl, iff_of_true alike fun _ first => nomatch first⟩
  | countRuns report =>
    exact ⟨rfl, iff_of_true (alike.countRuns report) fun _ first => nomatch first⟩

theorem SeenAlike.mono {other : Reading} (alike : SeenAlike reading g h)
    (coarser : ∀ n m : Node, n.seen reading = m.seen reading → n.seen other = m.seen other) :
    SeenAlike other g h := by
  intro id
  rcases alike.cases id with ⟨inG, inH⟩ | ⟨n, m, inG, inH, same⟩
  · rw [inG, inH]
  · rw [inG, inH]
    exact congrArg some (coarser n m same)

/-- The graph after some operations, one after the other. -/
def after (g : Graph) (operations : List Operation) : Graph := operations.foldl Operation.apply g

theorem after_append_singleton (g : Graph) (operations : List Operation) (operation : Operation) :
    g.after (operations ++ [operation]) = operation.apply (g.after operations) := by
  rw [after, List.foldl_append]
  rfl

theorem Reachable.after (reach : g.Reachable) (operations : List Operation) :
    (g.after operations).Reachable :=
  List.foldlRecOn operations _ reach fun _ reach operation _ => .next operation reach

/-- The answers to operations that are made one after the other. -/
def replies (g : Graph) : List Operation → List Reply
  | [] => []
  | operation :: rest => operation.reply g :: replies (operation.apply g) rest

/-- A reading that reads the same from two flags whether or not there are links: no operation makes a
difference that it did not see before. -/
theorem SeenAlike.after (reach : g.Reachable) (alike : SeenAlike reading g h)
    (steady : ∀ flag other linkless, reading flag linkless = reading other linkless →
      reading flag false = reading other false) (operations : List Operation) :
    g.replies operations = h.replies operations ∧
      SeenAlike reading (g.after operations) (h.after operations) := by
  induction operations generalizing g h with
  | nil => exact ⟨rfl, alike⟩
  | cons operation rest ih =>
    obtain ⟨reply, kept⟩ := alike.apply reach.wellFormed operation
    have read (id : NodeId) : FlagsAlike reading g h id := by
      rcases alike.cases id with ⟨inG, inH⟩ | ⟨n, m, inG, inH, same⟩
      · rw [FlagsAlike, flag?, flag?, inG, inH]
      · obtain ⟨_, _, links, _, ends⟩ := Node.seen_eq_iff.mp same
        rw [← links] at ends
        exact (flagsAlike_iff inG inH).mpr (steady _ _ _ ends)
    obtain ⟨later, whole⟩ := ih (.next operation reach) (kept.mpr fun id _ => read id)
    exact ⟨by rw [replies, replies, reply, later], whole⟩

/-- The reading by which equal graphs are alike hides a flag only from those who see no links. -/
theorem flagsAlike_or_iff {id : NodeId} : FlagsAlike (· || ·) g h id ↔ g.flag? id = h.flag? id := by
  simp [FlagsAlike]

theorem Same.apply (reach : g.Reachable) (same : g.Same h) (operation : Operation) :
    operation.reply g = operation.reply h ∧
      ((operation.apply g).Same (operation.apply h) ↔
        ∀ id, operation.FirstLink g id → g.flag? id = h.flag? id) := by
  obtain ⟨reply, kept⟩ := (same_iff_seenAlike.mp same).apply reach.wellFormed operation
  simp only [flagsAlike_or_iff] at kept
  exact ⟨reply, same_iff_seenAlike.trans kept⟩

theorem Same.replies_eq (reach : g.Reachable) (same : g.Same h) (operations : List Operation) :
    g.replies operations = h.replies operations := by
  have outlines : SeenAlike (fun _ _ => false) g h := (same_iff_seenAlike.mp same).mono fun n m seen => by
    obtain ⟨ids, fragments, links, starts, _⟩ := Node.seen_eq_iff.mp seen
    exact Node.seen_eq_iff.mpr ⟨ids, fragments, links, starts, rfl⟩
  exact (outlines.after reach (fun _ _ _ _ => rfl) operations).1

theorem Same.after_of_flags (reach : g.Reachable) (same : g.Same h)
    (flags : ∀ id, g.flag? id = h.flag? id) (operations : List Operation) :
    (g.after operations).Same (h.after operations) := by
  have bare : SeenAlike (fun flag _ => flag) g h := by
    intro id
    rcases (same_iff_seenAlike.mp same).cases id with ⟨inG, inH⟩ | ⟨n, m, inG, inH, seen⟩
    · rw [inG, inH]
    · have flag := flags id
      rw [flag?, flag?, inG, inH] at flag
      obtain ⟨ids, fragments, links, starts, _⟩ := Node.seen_eq_iff.mp seen
      rw [inG, inH]
      exact congrArg some
        (Node.seen_eq_iff.mpr ⟨ids, fragments, links, starts, Option.some.inj flag⟩)
  have later := (bare.after reach (fun _ _ _ same => same) operations).2
  refine same_iff_seenAlike.mpr (later.mono fun n m seen => ?_)
  obtain ⟨ids, fragments, links, starts, flag⟩ := Node.seen_eq_iff.mp seen
  exact Node.seen_eq_iff.mpr ⟨ids, fragments, links, starts, by rw [flag, links]⟩

/-- Equal graphs answer all operations alike. They stay equal exactly as long as no operation gives its
first links to a node whose hidden flag differs between the graphs, so always if no flag differs. -/
theorem same_after_operations (reach : g.Reachable) (same : g.Same h) :
    (∀ operation : Operation, operation.reply g = operation.reply h ∧
        ((operation.apply g).Same (operation.apply h) ↔
          ∀ id, operation.FirstLink g id → g.flag? id = h.flag? id)) ∧
      (∀ operations, g.replies operations = h.replies operations ∧
        ((∀ before, before <+: operations → (g.after before).Same (h.after before)) ↔
          ∀ before operation, before ++ [operation] <+: operations →
            ∀ id, operation.FirstLink (g.after before) id →
              (g.after before).flag? id = (h.after before).flag? id)) ∧
      ((∀ id, g.flag? id = h.flag? id) →
        ∀ operations, (g.after operations).Same (h.after operations)) := by
  refine ⟨same.apply reach, fun operations => ⟨same.replies_eq reach operations, ?_, ?_⟩,
    same.after_of_flags reach⟩
  · intro equal before operation first
    have earlier := equal before ((List.prefix_append before [operation]).trans first)
    have later := equal _ first
    rw [after_append_singleton, after_append_singleton] at later
    exact (earlier.apply (reach.after before) operation).2.mp later
  · intro flags before first
    induction before using List.reverseRecOn with
    | nil => exact same
    | append_singleton before operation ih =>
      have earlier := ih ((List.prefix_append before [operation]).trans first)
      rw [after_append_singleton, after_append_singleton]
      exact (earlier.apply (reach.after before) operation).2.mpr (flags before operation first)

/-- One node without links. -/
def unlinked : Graph := (empty.createNode ["a"]).2

/-- The same node, flagged as terminating. -/
def unlinkedFlagged : Graph := (unlinked.setProperties ⟨0⟩ false true).graph

theorem reachable_unlinked : unlinked.Reachable := .next (.createNode ["a"]) (.named "")

theorem same_unlinked : unlinked.Same unlinkedFlagged := by decide +kernel

/-- A fragment changes nothing about what is hidden, and a link afterwards is answered alike. -/
theorem same_after_operations_unlinked : unlinked.Reachable ∧ unlinked.Same unlinkedFlagged ∧
    (Operation.apply unlinked (.addFragment ⟨0⟩ "b" 1)).Same
      (Operation.apply unlinkedFlagged (.addFragment ⟨0⟩ "b" 1)) ∧
      unlinked.replies [.addFragment ⟨0⟩ "b" 1, .addLink ⟨0⟩ ⟨0⟩ 1] =
        unlinkedFlagged.replies [.addFragment ⟨0⟩ "b" 1, .addLink ⟨0⟩ ⟨0⟩ 1] := by
  obtain ⟨operation, operations, _⟩ := same_after_operations reachable_unlinked same_unlinked
  refine ⟨reachable_unlinked, same_unlinked, (operation _).2.mpr fun id first => ?_, (operations _).1⟩
  cases first

/-- A first link tells two equal graphs apart. -/
theorem first_link_tells_apart : unlinked.Reachable ∧ unlinkedFlagged.Reachable ∧
    unlinked.Same unlinkedFlagged ∧
      ¬ (Operation.apply unlinked (.addLink ⟨0⟩ ⟨0⟩ 1)).Same
        (Operation.apply unlinkedFlagged (.addLink ⟨0⟩ ⟨0⟩ 1)) :=
  ⟨reachable_unlinked, .next (.setProperties ⟨0⟩ false true) reachable_unlinked, same_unlinked,
    by decide +kernel⟩

end Graph

end PseudoWord
