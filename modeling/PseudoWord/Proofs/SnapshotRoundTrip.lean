import PseudoWord.Proofs.SameWalks
import PseudoWord.Proofs.SnapshotReading
import PseudoWord.Storage

namespace PseudoWord

namespace Graph

variable {g : Graph}

/-- What a snapshot keeps of a graph: all but the run counters. The start nodes are listed anew. -/
def restored (g : Graph) : Graph := { g.prepare with nodes := g.nodes.map Node.unrun }

theorem nodeList_restored (g : Graph) : g.restored.nodeList = g.nodeList.map Node.unrun := by
  simp only [nodeList, KeyMap.values, restored, KeyMap.map, List.map_map, Function.comp_def]

theorem node?_restored (g : Graph) (id : NodeId) :
    g.restored.node? id = (g.node? id).map Node.unrun := g.nodes.get?_map Node.unrun id.value

/-- Run counters have no part in which nodes are flagged as initializing. -/
theorem initializingIds_restored (g : Graph) : g.restored.initializingIds = g.initializingIds := by
  rw [initializingIds, nodeList_restored, List.filter_map, List.map_map]
  rfl

/-- A prepared graph from which no walk has started is kept as it is. -/
theorem restored_eq_self (unrun : ∀ n ∈ g.nodeList, n.runs = 0)
    (prepared : g.starts = some g.initializingIds) : g.restored = g := by
  have nodes : g.nodes.map Node.unrun = g.nodes := by
    refine KeyMap.map_eq_self fun n inside => ?_
    rw [Node.unrun, ← unrun n inside]
  rw [restored, nodes, prepare, ← prepared]

theorem prepare_unrun (g : Graph) :
    (Graph.mk g.name (g.nodes.map Node.unrun) none).prepare = g.restored :=
  congrArg (fun ids => Graph.mk g.name (g.nodes.map Node.unrun) (some ids)) g.initializingIds_restored

theorem Fits.ofSnapshot_append (fits : g.Fits) (more : Bytes) :
    ofSnapshot (g.snapshot ++ more) = .ok g.restored := by
  rw [ofSnapshot, (Reader.readsIf_graph g).reads fits more]
  exact congrArg Except.ok g.prepare_unrun

/-- Whatever a snapshot is read as, it is what was written. -/
theorem eq_restored_of_ofSnapshot {h : Graph} {more : Bytes}
    (read : ofSnapshot (g.snapshot ++ more) = .ok h) : h = g.restored := by
  rw [ofSnapshot] at read
  split at read
  · rename_i k left taken
    obtain ⟨rfl, _⟩ := (Reader.readsIf_graph g).only taken
    cases read
    exact g.prepare_unrun
  · cases read

theorem Fits.loadSnapshot (fits : g.Fits) {t : FileTree} {p : Path} {more : Bytes}
    (held : t.read p = .ok (g.snapshot ++ more)) : loadSnapshot t p = .ok g.restored := by
  rw [Graph.loadSnapshot, held]
  exact fits.ofSnapshot_append more

theorem same_restored (g : Graph) : g.restored.Same g.prepare := by
  refine same_iff.mpr fun id => ?_
  rw [node?_restored, Option.map_map]
  rfl

theorem replays_restored (g : Graph) : g.restored.Replays g.prepare := by
  intro n inside target linked
  rw [node?_restored, Option.map_map]
  rfl

/-- The snapshot of any graph is read back as the same graph, whatever follows it, with all flags and
keys as they are, with its run counters at 0 and prepared. It answers requests as the prepared graph
does, with the same draws. -/
theorem snapshot_round_trip (fits : g.Fits) :
    (∀ more : Bytes, ofSnapshot (g.snapshot ++ more) = .ok g.restored) ∧
      (∀ (t : FileTree) (p : Path) (time : Nat),
        (t.CanWrite p ↔ ∃ after, g.saveSnapshot t p time = .ok after) ∧
          ∀ after, g.saveSnapshot t p time = .ok after → after.read p = .ok g.snapshot) ∧
      (∀ (t : FileTree) (p : Path) (more : Bytes), t.read p = .ok (g.snapshot ++ more) →
        loadSnapshot t p = .ok g.restored) ∧
      ∀ (σ : Type) [Source σ] (r : Request),
        g.restored.generate r = (g.prepare.generate r : Sampler σ Report) := by
  refine ⟨fits.ofSnapshot_append, fun t p time => ⟨t.canWrite_iff_store p g.snapshot time, ?_⟩,
    fun t p more => fits.loadSnapshot, fun σ _ r => ?_⟩
  · intro after saved
    exact FileTree.read_of_write (FileTree.store_eq_ok_iff.mp saved)
  · exact generate_congr g.same_restored g.replays_restored rfl r

/-- A node whose numbers do not agree: it has another id than its key, totals that its items do not add
up to, the largest of all numbers as a key, and links to nodes that are missing. -/
def twistedNode : Node where
  id := ⟨7⟩
  fragments := ⟨.ofList [(0, ""), (300, "ĉe né"), (18446744073709551615, "ta")], 128⟩
  links := ⟨.ofList [(9223372036854775808, ⟨5⟩)], 0⟩
  initializing := true
  terminating := false
  runs := 12

def twisted : Graph := ⟨"né;\n", .ofList [(16384, twistedNode), (18446744073709551615, .empty ⟨0⟩)], none⟩

theorem snapshot_round_trip_twisted :
    twisted.Fits ∧ ofSnapshot (twisted.snapshot ++ [255, 0]) = .ok twisted.restored ∧
      (twisted.restored.node? ⟨16384⟩).map (fun n => (n.id, n.fragments.total, n.runs)) =
        some (⟨7⟩, 128, 0) := by
  have fits : twisted.Fits := by decide +kernel
  obtain ⟨read, _⟩ := snapshot_round_trip fits
  exact ⟨fits, read [255, 0], by decide +kernel⟩

end Graph

end PseudoWord
