import PseudoWord.Proofs.RefusedChange

namespace PseudoWord

namespace WeightedSet

variable {α : Type} {s : WeightedSet α}

theorem Sound.total_of_isEmpty (sound : s.Sound) (empty : s.isEmpty = true) : s.total = 0 := by
  have entries : s.entries.entries = [] := List.isEmpty_iff.mp empty
  rw [Sound, entries] at sound
  generalize s.total = total at sound
  cases sound
  rfl

/-- The first item of a set is refused only for its weight. -/
theorem Sound.isEmpty_insert (sound : s.Sound) (item : α) (weight : Int64) :
    (s.insert item weight).isEmpty = (s.isEmpty && !decide (0 < weight)) := by
  rw [WeightedSet.insert]
  cases accepted : s.insert? item weight with
  | some after =>
    obtain ⟨positive, _, entries⟩ := insert?_eq_some sound accepted
    simp [isEmpty, KeyMap.isEmpty, entries, positive]
  | none =>
    cases empty : s.isEmpty with
    | false => exact empty
    | true =>
      have refused : ¬ 0 < weight := by
        intro positive
        have fits : (s.insert? item weight).isSome = true := by
          refine (s.insert?_isSome_iff item weight).mpr ⟨positive, ?_⟩
          have small := (Int64.toUInt64_of_pos positive).2
          have bound : weightBound < UInt64.size := by decide
          rw [sound.total_of_isEmpty empty, UInt64.toNat_zero, Nat.zero_add]
          exact Nat.lt_trans small bound
        rw [accepted] at fits
        cases fits
      rw [decide_eq_false refused]
      exact empty

theorem Sound.isEmpty_insertAll (sound : s.Sound) (items : List (α × Int64)) :
    (s.insertAll items).isEmpty = (s.isEmpty && !items.any (fun item => decide (0 < item.2))) := by
  induction items generalizing s with
  | nil => exact (Bool.and_true _).symm
  | cons item rest ih =>
    have later := ih (sound.insert item.1 item.2)
    rw [sound.isEmpty_insert, Bool.and_assoc, ← Bool.not_or] at later
    exact later

end WeightedSet

/-- A way to read how a node ends words, from its flag and from whether it is without links. -/
abbrev Reading : Type := Bool → Bool → Bool

namespace Node

variable {reading : Reading} {n m : Node}

/-- A node as it is seen by a reading: its own flag is hidden, and so are its runs. -/
def seen (reading : Reading) (n : Node) : Node :=
  { n with terminating := reading n.terminating n.links.isEmpty, runs := 0 }

theorem seen_eq_iff : n.seen reading = m.seen reading ↔
    n.id = m.id ∧ n.fragments = m.fragments ∧ n.links = m.links ∧ n.initializing = m.initializing ∧
      reading n.terminating n.links.isEmpty = reading m.terminating m.links.isEmpty := by
  simp only [seen, mk.injEq, and_true]

theorem identity_eq_iff_seen : n.identity = m.identity ↔ n.seen (· || ·) = m.seen (· || ·) := by
  simp only [identity, seen, mk.injEq, Identity.mk.injEq, isTerminating]
  tauto

theorem seen_setFlags (same : n.seen reading = m.seen reading) (initializing terminating : Bool) :
    (n.setFlags initializing terminating).seen reading =
      (m.setFlags initializing terminating).seen reading := by
  obtain ⟨ids, fragments, links, _, _⟩ := seen_eq_iff.mp same
  refine seen_eq_iff.mpr ⟨ids, fragments, links, rfl, ?_⟩
  exact congrArg (fun links => reading terminating links.isEmpty) links

theorem seen_mark (same : n.seen reading = m.seen reading) :
    { n with initializing := true }.seen reading = { m with initializing := true }.seen reading := by
  obtain ⟨ids, fragments, links, _, ends⟩ := seen_eq_iff.mp same
  exact seen_eq_iff.mpr ⟨ids, fragments, links, rfl, ends⟩

theorem seen_addFragment (same : n.seen reading = m.seen reading) (fragment : String)
    (weight : Int64) :
    (n.addFragment fragment weight).seen reading = (m.addFragment fragment weight).seen reading := by
  obtain ⟨ids, fragments, links, starts, ends⟩ := seen_eq_iff.mp same
  rw [addFragment_eq, addFragment_eq, fragments]
  exact seen_eq_iff.mpr ⟨ids, rfl, links, starts, ends⟩

theorem isSome_addFragment?_eq (same : n.seen reading = m.seen reading) (fragment : String)
    (weight : Int64) :
    (n.addFragment? fragment weight).isSome = (m.addFragment? fragment weight).isSome := by
  obtain ⟨_, fragments, _⟩ := seen_eq_iff.mp same
  rw [addFragment?, addFragment?, fragments]
  split
  · rw [Option.isSome_map, Option.isSome_map]
  · rfl

theorem isSome_addLink?_eq (same : n.seen reading = m.seen reading) (target : NodeId)
    (weight : Int64) : (n.addLink? target weight).isSome = (m.addLink? target weight).isSome := by
  obtain ⟨_, _, links, _⟩ := seen_eq_iff.mp same
  rw [addLink?, addLink?, links, Option.isSome_map, Option.isSome_map]

/-- When links are added, a node is seen alike still if it had links already, if it gets none, or if
its flag is read alike once there are links. -/
theorem reading_links_iff {flag other linkless added : Bool}
    (same : reading flag linkless = reading other linkless) :
    reading flag (linkless && !added) = reading other (linkless && !added) ↔
      (linkless = true → added = true → reading flag false = reading other false) := by
  cases linkless with
  | false => simpa using same
  | true =>
    cases added with
    | false => simpa using same
    | true => simp

/-- The same for a row, which also flags a node that it leaves without links. -/
theorem reading_row_iff {flag other linkless added terminal : Bool}
    (same : reading flag linkless = reading other linkless) :
    reading (terminal || (flag || (linkless && !added))) (linkless && !added) =
        reading (terminal || (other || (linkless && !added))) (linkless && !added) ↔
      (linkless = true → added = true → terminal = false →
        reading flag false = reading other false) := by
  cases terminal with
  | true => simp
  | false =>
    cases linkless with
    | false => simpa using same
    | true => cases added <;> simp

theorem seen_addLink_iff (sound : n.Sound) (same : n.seen reading = m.seen reading) (target : NodeId)
    (weight : Int64) :
    (n.addLink target weight).seen reading = (m.addLink target weight).seen reading ↔
      (n.links.isEmpty = true → 0 < weight →
        reading n.terminating false = reading m.terminating false) := by
  obtain ⟨ids, fragments, links, starts, ends⟩ := seen_eq_iff.mp same
  rw [← links] at ends
  rw [addLink_eq, addLink_eq, seen_eq_iff, ← links]
  simp only [ids, fragments, starts, true_and, sound.links.isEmpty_insert]
  rw [reading_links_iff ends, decide_eq_true_iff]

theorem seen_extend_iff (sound : n.Sound) (same : n.seen reading = m.seen reading)
    (fragments : List FragmentItem) (links : List (NodeId × Int64)) (terminal : Bool) :
    (n.extend fragments links terminal).seen reading =
        (m.extend fragments links terminal).seen reading ↔
      (n.links.isEmpty = true → links.any (fun link => decide (0 < link.2)) = true →
        terminal = false → reading n.terminating false = reading m.terminating false) := by
  obtain ⟨ids, sameFragments, sameLinks, starts, ends⟩ := seen_eq_iff.mp same
  rw [← sameLinks] at ends
  rw [extend_eq, extend_eq, seen_eq_iff, ← sameLinks, ← sameFragments]
  simp only [ids, starts, true_and, sound.links.isEmpty_insertAll]
  exact reading_row_iff ends

end Node

namespace Graph

variable {reading : Reading} {g h : Graph}

/-- Two graphs that are seen alike by a reading: the same ids, each with nodes that are seen alike. -/
def SeenAlike (reading : Reading) (g h : Graph) : Prop :=
  ∀ id, (g.node? id).map (Node.seen reading) = (h.node? id).map (Node.seen reading)

theorem same_iff_seenAlike : g.Same h ↔ SeenAlike (· || ·) g h := by
  have reread (id : NodeId) : (g.node? id).map Node.identity = (h.node? id).map Node.identity ↔
      (g.node? id).map (Node.seen (· || ·)) = (h.node? id).map (Node.seen (· || ·)) := by
    cases g.node? id <;> cases h.node? id <;> simp [Node.identity_eq_iff_seen]
  rw [same_iff]
  exact forall_congr' reread

theorem SeenAlike.cases (alike : SeenAlike reading g h) (id : NodeId) :
    (g.node? id = none ∧ h.node? id = none) ∨
      ∃ n m, g.node? id = some n ∧ h.node? id = some m ∧ n.seen reading = m.seen reading := by
  have atId := alike id
  cases inG : g.node? id with
  | none =>
    rw [inG] at atId
    exact .inl ⟨rfl, Option.map_eq_none_iff.mp atId.symm⟩
  | some n =>
    rw [inG] at atId
    obtain ⟨m, inH, same⟩ := Option.map_eq_some_iff.mp atId.symm
    exact .inr ⟨n, m, rfl, inH, same.symm⟩

theorem SeenAlike.nextFreeId_eq (alike : SeenAlike reading g h) : g.nextFreeId = h.nextFreeId := by
  have nodes : g.nodes.map (Node.seen reading) = h.nodes.map (Node.seen reading) := by
    refine KeyMap.ext_get? fun key => ?_
    rw [KeyMap.get?_map, KeyMap.get?_map]
    exact alike ⟨key⟩
  have keys (k : Graph) : (k.nodes.map (Node.seen reading)).keys = k.nodes.keys := by
    rw [KeyMap.keys, KeyMap.map, List.map_map]
    rfl
  rw [nextFreeId, nextFreeId, ← keys g, ← keys h, nodes]

/-- Graphs that were alike are alike after one node is stored if these nodes are. -/
theorem SeenAlike.put_iff (alike : SeenAlike reading g h) (id : NodeId) {n m : Node} :
    SeenAlike reading (g.put id n) (h.put id m) ↔ n.seen reading = m.seen reading := by
  constructor
  · intro stored
    have atId := stored id
    rw [node?_put, node?_put, if_pos rfl, if_pos rfl] at atId
    exact Option.some.inj atId
  · intro same other
    rw [node?_put, node?_put]
    split
    · exact congrArg some same
    · exact alike other

theorem SeenAlike.seen_nodeOrNew (alike : SeenAlike reading g h) (id : NodeId) :
    (g.nodeOrNew id).seen reading = (h.nodeOrNew id).seen reading := by
  rcases alike.cases id with ⟨inG, inH⟩ | ⟨n, m, inG, inH, same⟩
  · rw [nodeOrNew, nodeOrNew, inG, inH]
  · rw [nodeOrNew_of_some inG, nodeOrNew_of_some inH, same]

theorem SeenAlike.ensureNode (alike : SeenAlike reading g h) (id : NodeId) :
    SeenAlike reading (g.ensureNode id) (h.ensureNode id) :=
  (alike.put_iff id).mpr (alike.seen_nodeOrNew id)

theorem SeenAlike.ensureAll (alike : SeenAlike reading g h) (links : List (NodeId × Int64)) :
    SeenAlike reading (links.foldl (fun g link => g.ensureNode link.1) g)
      (links.foldl (fun g link => g.ensureNode link.1) h) := by
  induction links generalizing g h with
  | nil => exact alike
  | cons link rest ih => exact ih (alike.ensureNode link.1)

theorem SeenAlike.markAll (alike : SeenAlike reading g h) (ids : List NodeId) :
    SeenAlike reading (ids.foldl markInitializing g) (ids.foldl markInitializing h) := by
  induction ids generalizing g h with
  | nil => exact alike
  | cons id rest ih => exact ih ((alike.put_iff id).mpr (Node.seen_mark (alike.seen_nodeOrNew id)))

theorem SeenAlike.updateNode (alike : SeenAlike reading g h) (id : NodeId) {f : Node → Option Node}
    (kept : ∀ n m, n.seen reading = m.seen reading →
      (f n).isSome = (f m).isSome ∧ ((f n).getD n).seen reading = ((f m).getD m).seen reading) :
    (g.updateNode id f).accepted = (h.updateNode id f).accepted ∧
      SeenAlike reading (g.updateNode id f).graph (h.updateNode id f).graph := by
  rcases alike.cases id with ⟨inG, inH⟩ | ⟨n, m, inG, inH, same⟩
  · rw [Graph.updateNode, Graph.updateNode, inG, inH]
    exact ⟨rfl, alike⟩
  · obtain ⟨accepted, seen⟩ := kept n m same
    rw [Graph.updateNode, Graph.updateNode, inG, inH]
    exact ⟨accepted, (alike.put_iff id).mpr seen⟩

theorem SeenAlike.countRuns (alike : SeenAlike reading g h) (report : Report) :
    SeenAlike reading (g.countRuns report) (h.countRuns report) := by
  rw [Graph.countRuns, Graph.countRuns]
  induction report.walkStarts generalizing g h with
  | nil => exact alike
  | cons start rest ih =>
    refine ih fun id => ?_
    have hidden (k : Graph) : ((k.countRun start).node? id).map (Node.seen reading) =
        (k.node? id).map (Node.seen reading) := by
      rw [node?_countRun, Option.map_map]
      congr 1
      funext n
      simp only [Function.comp_apply]
      split <;> rfl
    rw [hidden, hidden]
    exact alike id

end Graph

end PseudoWord
