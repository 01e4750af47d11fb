import PseudoWord.Proofs.SameGraph
import PseudoWord.Proofs.WellFormed

namespace PseudoWord

/-- What can be asked of a graph from outside. Words that are generated leave nothing behind but the
counts of their walks. -/
inductive Operation where
  | createNode (fragments : List String)
  | addFragment (id : NodeId) (fragment : String) (weight : Int64)
  | addLink (source target : NodeId) (weight : Int64)
  | setProperties (id : NodeId) (initializing terminating : Bool)
  | applyRow (line : String)
  | setName (name : String)
  | prepare
  | countRuns (report : Report)

def Operation.apply (g : Graph) : Operation → Graph
  | createNode fragments => (g.createNode fragments).2
  | addFragment id fragment weight => (g.addFragment id fragment weight).graph
  | addLink source target weight => (g.addLink source target weight).graph
  | setProperties id initializing terminating => (g.setProperties id initializing terminating).graph
  | applyRow line => (g.applyRow line).graph
  | setName name => g.setName name
  | prepare => g.prepare
  | countRuns report => g.countRuns report

namespace Graph

/-- The graphs that come from an empty graph or from a table by any operations in any order, accepted
or refused. -/
inductive Reachable : Graph → Prop
  | named (name : String) : Reachable (named name)
  | table (lines : List String) : Reachable (ofTable lines)
  | next {g : Graph} (operation : Operation) : Reachable g → Reachable (operation.apply g)

theorem WellFormed.countRun {g : Graph} (wf : g.WellFormed) (id : NodeId) :
    (g.countRun id).WellFormed := by
  refine ⟨fun other m found => ?_, fun ids prepared => ?_⟩
  · rw [node?_countRun] at found
    obtain ⟨n, atOther, rfl⟩ := Option.map_eq_some_iff.mp found
    obtain ⟨atId, sound, links⟩ := wf.nodes other n atOther
    have kept (target : NodeId) (member : target ∈ n.links.values) :
        ∃ next, (g.countRun id).node? target = some next := by
      obtain ⟨next, atTarget⟩ := links target member
      rw [node?_countRun, atTarget]
      exact ⟨_, rfl⟩
    split
    · exact ⟨atId, ⟨sound.fragments, sound.links, sound.words⟩, kept⟩
    · exact ⟨atId, sound, kept⟩
  · rw [(same_countRun g id).initializingIds_eq]
    exact wf.starts ids prepared

theorem WellFormed.apply {g : Graph} (wf : g.WellFormed) (operation : Operation) :
    (operation.apply g).WellFormed := by
  cases operation with
  | createNode fragments => exact wf.createNode fragments
  | addFragment id fragment weight => exact wf.addFragment id fragment weight
  | addLink source target weight => exact wf.addLink source target weight
  | setProperties id initializing terminating => exact wf.setProperties id initializing terminating
  | applyRow line => exact wf.applyRow line
  | setName name =>
    refine ⟨fun id n found => ?_, wf.starts⟩
    obtain ⟨atId, sound, links⟩ := wf.nodes id n found
    exact ⟨atId, sound, links⟩
  | prepare => exact wf.prepare
  | countRuns report => exact List.foldlRecOn _ _ wf (fun _ wf id _ => wf.countRun id)

theorem Reachable.wellFormed {g : Graph} (reach : Reachable g) : g.WellFormed := by
  induction reach with
  | named name => exact wellFormed_named name
  | table lines => exact .ofTable lines
  | next operation _ ih => exact ih.apply operation

end Graph

end PseudoWord
