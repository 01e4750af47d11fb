import PseudoWord.Acceptor
import PseudoWord.Proofs.AnySchedule
import PseudoWord.Proofs.SnapshotRoundTrip
import PseudoWord.Proofs.Reachable

namespace PseudoWord

namespace Graph

/-- The graphs of any history: operations in any order, accepted or refused, and snapshots that are
read again. -/
inductive Arises : Graph → Prop
  | named (name : String) : Arises (named name)
  | table (lines : List String) : Arises (ofTable lines)
  | next {g : Graph} (operation : Operation) : Arises g → Arises (operation.apply g)
  | loaded {g h : Graph} : Arises g → ofSnapshot g.snapshot = .ok h → Arises h

theorem WellFormed.restored {g : Graph} (wf : g.WellFormed) : g.restored.WellFormed := by
  refine ⟨fun id m found => ?_, fun ids prepared => ?_⟩
  · rw [node?_restored] at found
    obtain ⟨n, atId, rfl⟩ := Option.map_eq_some_iff.mp found
    obtain ⟨own, sound, links⟩ := wf.nodes id n atId
    refine ⟨own, ⟨sound.fragments, sound.links, sound.words⟩, fun target linked => ?_⟩
    obtain ⟨next, atTarget⟩ := links target linked
    exact ⟨next.unrun, by rw [node?_restored, atTarget]; rfl⟩
  · rw [initializingIds_restored]
    exact (Option.some.inj prepared).symm

theorem Arises.wellFormed {g : Graph} (arises : Arises g) : g.WellFormed := by
  induction arises with
  | named name => exact wellFormed_named name
  | table lines => exact .ofTable lines
  | next operation _ ih => exact ih.apply operation
  | @loaded g h _ read ih =>
    rw [← List.append_nil g.snapshot] at read
    exact eq_restored_of_ofSnapshot read ▸ ih.restored

/-- Nodes that stand under their own ids are listed in ascending order of these. -/
theorem WellFormed.initializingIds_ascending {g : Graph} (wf : g.WellFormed) :
    g.initializingIds.Pairwise (fun a b => a.value < b.value) := by
  have own (entry : UInt64 × Node) (member : entry ∈ g.nodes.entries) : entry.2.id.value = entry.1 :=
    congrArg NodeId.value (wf.nodes ⟨entry.1⟩ entry.2 (g.nodes.get?_eq_some_iff.mpr member)).id
  have ascending : g.nodes.entries.Pairwise (fun a b => a.2.id.value < b.2.id.value) := by
    refine g.nodes.sorted.imp_of_mem fun {a b} inA inB below => ?_
    rw [own a inA, own b inB]
    exact below
  have listed : g.nodeList.Pairwise (fun a b => a.id.value < b.id.value) :=
    List.pairwise_map.mpr ascending
  exact List.pairwise_map.mpr (listed.filter _)

end Graph

namespace Operation

variable {g : Graph} {operation : Operation}

/-- A change to a graph that leaves it as it is or forgets its start nodes. -/
def Forgets (g h : Graph) : Prop := h.starts = none ∨ h = g

theorem forgets_updateNode (id : NodeId) (f : Node → Option Node) :
    Forgets g (g.updateNode id f).graph := by
  rw [Graph.updateNode]
  cases g.node? id with
  | none => exact .inr rfl
  | some n => exact .inl rfl

theorem forgets_addLink (source target : NodeId) (weight : Int64) :
    Forgets g (g.addLink source target weight).graph := by
  rw [Graph.addLink]
  split
  · rcases forgets_updateNode (g := g.ensureNode target) source (·.addLink? target weight) with
      forgotten | same
    · exact .inl forgotten
    · exact .inl (congrArg Graph.starts same)
  · exact .inr rfl

/-- A row that marks no start node changes nothing. -/
theorem forgets_addRow (row : Row) : Forgets g (g.addRow row) := by
  rw [Graph.addRow]
  split
  · cases row.links.filterMap LinkItem.target? with
    | nil => exact .inr rfl
    | cons first rest =>
      rw [List.foldl_cons]
      exact .inl (Graph.starts_markAll rfl)
  · exact .inl rfl

theorem forgets_applyRow (line : String) : Forgets g (g.applyRow line).graph := by
  rw [Graph.applyRow]
  split
  · exact forgets_addRow _
  · exact .inr rfl

/-- Some id leads to another node than before, or to one for the first time. That a walk was counted is
no change. -/
def Alters (g : Graph) (operation : Operation) : Prop :=
  ∃ id, ((operation.apply g).node? id).map Node.unrun ≠ (g.node? id).map Node.unrun

theorem Alters.forgets (alters : operation.Alters g) : (operation.apply g).starts = none := by
  obtain ⟨id, different⟩ := alters
  have onlyIf {h : Graph} (forgets : Forgets g h)
      (different : (h.node? id).map Node.unrun ≠ (g.node? id).map Node.unrun) : h.starts = none := by
    rcases forgets with forgotten | rfl
    · exact forgotten
    · exact absurd rfl different
  cases operation with
  | createNode fragments => rfl
  | addFragment => exact onlyIf (forgets_updateNode _ _) different
  | addLink => exact onlyIf (forgets_addLink _ _ _) different
  | setProperties => exact onlyIf (forgets_updateNode _ _) different
  | applyRow => exact onlyIf (forgets_applyRow _) different
  | setName name => exact absurd rfl different
  | prepare => exact absurd rfl different
  | countRuns report =>
    refine absurd ?_ different
    rw [← Graph.node?_unrun, ← Graph.node?_unrun]
    exact congrArg (fun h => Graph.node? h id) (Graph.unrun_foldl_countRun report.walkStarts)

end Operation

namespace Graph

variable {g : Graph}

/-- A graph that refuses every request: it says that it is not prepared, draws nothing and counts no
walk. -/
structure Refuses (g : Graph) : Prop where
  unprepared : g.isPrepared = false
  initializers : g.initializers = .error .unprepared
  words : ∀ word, g.isValid word = .error .unprepared
  generation : ∀ (σ : Type) [Source σ] (r : Request) (s : σ), ∃ report,
    (g.generate r).run s = (report, s) ∧ report.result = .error .unprepared ∧ report.words = [] ∧
      g.countRuns report = g
  parallel : ∀ r seed cpus, g.generateParallel r seed cpus = .error .unprepared

theorem refuses_of_starts (forgotten : g.starts = none) : g.Refuses where
  unprepared := by rw [isPrepared, forgotten]; rfl
  initializers := by rw [Graph.initializers, forgotten]
  words word := by rw [isValid, Graph.initializers, forgotten]; rfl
  generation σ _ r s := by
    refine ⟨⟨r.count, [], [], some .unprepared⟩, ?_, rfl, rfl, rfl⟩
    rw [generate, forgotten]
    rfl
  parallel r seed cpus := by
    have failed (worker : Nat) :
        (g.work (r.share (r.workers cpus)) seed worker).report.result = .error .unprepared := by
      rw [work, generate, forgotten]
      rfl
    obtain ⟨others, some⟩ := Nat.exists_eq_succ_of_ne_zero
      (Nat.one_le_iff_ne_zero.mp (r.one_le_workers cpus))
    rw [generateParallel, Arrival.collect_of_perm (.refl _) (g.numbered_workAll r seed cpus), workAll]
    rw [some, List.range_succ_eq_map, List.map_cons, List.map_cons, Report.merge, List.mapM_cons,
      ← some, failed]
    rfl

/-- Whatever was done to a graph before: while it is prepared, the start nodes that it names are those
that are flagged, in ascending order, and no operation adds or changes a node without making it refuse
every request until it is prepared again. -/
theorem start_nodes_current (arises : Arises g) :
    (g.isPrepared = true → ∃ ids, g.initializers = .ok ids ∧
        ids.Pairwise (fun a b => a.value < b.value) ∧
        ∀ id, id ∈ ids ↔ ∃ n, g.node? id = some n ∧ n.id = id ∧ n.initializing = true) ∧
      ∀ operation : Operation, operation.Alters g → (operation.apply g).Refuses := by
  have wf := arises.wellFormed
  refine ⟨fun prepared => ?_, fun operation alters => refuses_of_starts alters.forgets⟩
  obtain ⟨ids, remembered⟩ := Option.isSome_iff_exists.mp prepared
  obtain rfl := wf.starts ids remembered
  refine ⟨g.initializingIds, by rw [Graph.initializers, remembered], wf.initializingIds_ascending,
    fun id => g.mem_initializingIds_iff.trans ⟨?_, ?_⟩⟩
  · rintro ⟨n, listed, flagged, rfl⟩
    exact ⟨n, wf.node?_self listed, rfl, flagged⟩
  · rintro ⟨n, found, own, flagged⟩
    exact ⟨n, g.mem_nodeList_iff.mpr ⟨id, found⟩, flagged, own⟩

/-- Two syllables, of which the second begins a word. -/
def twoSyllables : Graph := ofTable ["S ; _ ; N4", "N4 ; ka ; N2", "N2 ; ri ; O"]

/-- The same after it was written and read again, with both syllables at the beginning. -/
def twoBeginnings : Graph :=
  Operation.apply ((Operation.setProperties ⟨2⟩ true true).apply twoSyllables.restored) .prepare

theorem arises_twoBeginnings : twoBeginnings.Arises := by
  have fits : twoSyllables.Fits := by decide +kernel
  have read := fits.ofSnapshot_append []
  rw [List.append_nil] at read
  exact .next _ (.next _ (.loaded (.table _) read))

theorem start_nodes_current_twoBeginnings :
    twoBeginnings.Arises ∧ twoBeginnings.isPrepared = true ∧
      (∃ ids, twoBeginnings.initializers = .ok ids ∧ ids.Pairwise (fun a b => a.value < b.value) ∧
        ∀ id, id ∈ ids ↔ ∃ n, twoBeginnings.node? id = some n ∧ n.id = id ∧ n.initializing = true) ∧
      twoBeginnings.initializers = .ok [⟨2⟩, ⟨4⟩] ∧
      Operation.Alters twoBeginnings (.addLink ⟨2⟩ ⟨7⟩ 3) ∧
      (Operation.apply twoBeginnings (.addLink ⟨2⟩ ⟨7⟩ 3)).Refuses := by
  have prepared : twoBeginnings.isPrepared = true := rfl
  have alters : Operation.Alters twoBeginnings (.addLink ⟨2⟩ ⟨7⟩ 3) := ⟨⟨7⟩, by decide +kernel⟩
  obtain ⟨current, refuses⟩ := start_nodes_current arises_twoBeginnings
  exact ⟨arises_twoBeginnings, prepared, current prepared, by decide +kernel, alters, refuses _ alters⟩

end Graph

end PseudoWord
