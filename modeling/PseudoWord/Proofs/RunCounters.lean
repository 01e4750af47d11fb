import PseudoWord.Proofs.Contract
import PseudoWord.Proofs.WorkerSteps

namespace PseudoWord

theorem Walk.stride_unrun {σ : Type} [Source σ] (g h : Graph) (r : Request)
    (nodes : ∀ id, h.node? id = (g.node? id).map Node.unrun) (origin current : Node) (budget : Nat)
    (trail : List Visit) (text : String) :
    stride h r origin.unrun budget current.unrun trail text =
      (stride g r origin budget current trail text : Sampler σ Stride) := by
  rw [stride, stride]
  refine bind_congr fun outcome => ?_
  cases outcome with
  | error cause => rfl
  | ok choice =>
    cases choice with
    | none => rfl
    | some id =>
      dsimp only
      rw [nodes id]
      cases g.node? id with
      | none => rfl
      | some next => rfl

namespace Graph

variable (g : Graph)

/-- The graph before any walk was counted. -/
def unrun : Graph := { g with nodes := g.nodes.map Node.unrun }

theorem node?_unrun (id : NodeId) : g.unrun.node? id = (g.node? id).map Node.unrun :=
  g.nodes.get?_map Node.unrun id.value

theorem nodeOrNew_unrun (id : NodeId) : g.unrun.nodeOrNew id = (g.nodeOrNew id).unrun := by
  rw [nodeOrNew, nodeOrNew, node?_unrun]
  cases g.node? id <;> rfl

theorem contains_unrun (key : UInt64) : g.unrun.nodes.contains key = g.nodes.contains key := by
  rw [KeyMap.contains, KeyMap.contains, unrun, KeyMap.get?_map, Option.isSome_map]

theorem same_unrun : g.unrun.Same g := by
  refine same_iff.mpr fun id => ?_
  rw [node?_unrun, Option.map_map]
  rfl

theorem replays_unrun : g.unrun.Replays g := by
  intro n inside target linked
  rw [node?_unrun, Option.map_map]
  rfl

variable {g}

theorem unrun_countRun (id : NodeId) : (g.countRun id).unrun = g.unrun := by
  refine ext_node? rfl rfl fun other => ?_
  rw [node?_unrun, node?_unrun, node?_countRun, Option.map_map]
  congr 1
  funext n
  simp only [Function.comp_apply]
  split <;> rfl

theorem unrun_foldl_countRun (ids : List NodeId) : (ids.foldl countRun g).unrun = g.unrun := by
  induction ids generalizing g with
  | nil => rfl
  | cons id rest ih => exact ih.trans (unrun_countRun id)

/-- Walks may be counted in any order. -/
theorem countRun_comm (id other : NodeId) :
    (g.countRun id).countRun other = (g.countRun other).countRun id := by
  refine ext_node? rfl rfl fun one => ?_
  rw [node?_countRun, node?_countRun, node?_countRun, node?_countRun, Option.map_map, Option.map_map]
  congr 1
  funext n
  simp only [Function.comp_apply]
  split <;> split <;> rfl

instance : RightCommutative countRun := ⟨fun g id other => g.countRun_comm id other⟩

theorem foldl_countRuns_arrivals (arrivals : List Arrival) :
    g.countArrivals arrivals = (arrivals.flatMap (·.report.walkStarts)).foldl countRun g := by
  rw [countArrivals, List.foldl_flatMap]
  rfl

end Graph

section Steps

variable {σ : Type} [Source σ] {g : Graph} {r : Request}

/-- What a worker does next does not hang on what was counted. -/
theorem Task.next_unrun (task : Task) : task.next g.unrun r = (task.next g r : Sampler σ Task) := by
  cases task with
  | begin => rfl
  | round tries rounds found => cases tries <;> rfl
  | pick o => rfl
  | enter o start => rw [next, next, Graph.contains_unrun]
  | depart o start =>
    rw [next, next, Graph.nodeOrNew_unrun]
    rfl
  | follow o start budget current trail text =>
    rw [next, next, Graph.nodeOrNew_unrun, Graph.nodeOrNew_unrun,
      Walk.stride_unrun g g.unrun r g.node?_unrun]
  | send report => rfl

/-- The start nodes of the walks of some rounds. -/
def Round.starts (rounds : List Round) : List NodeId :=
  (rounds.flatMap (·.attempts)).filterMap Attempt.start?

theorem Round.starts_reverse (rounds : List Round) : (starts rounds.reverse).Perm (starts rounds) :=
  ((List.reverse_perm rounds).flatMap_right _).filterMap _

/-- The start nodes of the walks that a worker has counted. -/
def Task.counted : Task → List NodeId
  | begin => []
  | round _ rounds _ => Round.starts rounds
  | pick o => Round.starts o.rounds
  | enter o _ => Round.starts o.rounds
  | depart o start => start :: Round.starts o.rounds
  | follow o start _ _ _ _ => start :: Round.starts o.rounds
  | send report => report.walkStarts

theorem OpenRound.starts_broken (o : OpenRound) (cause : Failure) :
    (o.broken r cause).walkStarts.Perm (Round.starts o.rounds) := Round.starts_reverse o.rounds

theorem OpenRound.counted_settle (o : OpenRound) (attempt : Attempt) :
    (Task.ofSettled (o.settle r attempt)).counted.Perm
      (attempt.start?.toList ++ Round.starts o.rounds) := by
  have entered (found : DistinctWords) :
      (Round.starts { o with attempts := attempt :: o.attempts, found := found }.rounds).Perm
        (attempt.start?.toList ++ Round.starts o.rounds) := by
    have last : [attempt].filterMap Attempt.start? = attempt.start?.toList := by
      cases attempt <;> rfl
    simp only [Round.starts, rounds, List.flatMap_cons, List.reverse_cons, List.filterMap_append, last]
    rw [List.append_assoc]
    exact List.perm_append_comm_assoc _ _ _
  cases attempt with
  | idle => exact entered o.found
  | walked start walk =>
    rw [settle]
    cases walk.result with
    | error cause => exact (starts_broken _ cause).trans (entered o.found)
    | ok made =>
      cases made with
      | none => exact entered o.found
      | some word => exact entered (o.found.insert word)

/-- A step counts the walk that it says, and no other. -/
theorem Task.ensures_counted (task : Task) :
    Ensures (task.next g r : Sampler σ Task)
      (fun after => after.counted.Perm (task.counts g ++ task.counted)) := by
  cases task with
  | begin =>
    rw [next]
    split <;> exact ensures_pure .nil
  | round tries rounds found =>
    cases tries with
    | zero => exact ensures_pure (Round.starts_reverse rounds)
    | succ tries =>
      rw [next]
      split
      · exact ensures_pure (.refl _)
      · exact ensures_pure (Round.starts_reverse rounds)
  | pick o =>
    rw [next]
    split
    · exact ensures_pure (.refl _)
    · refine ensures_bind_any fun outcome => ?_
      cases outcome with
      | error cause => exact ensures_pure (OpenRound.starts_broken _ cause)
      | ok start => exact ensures_pure (.refl _)
  | enter o start =>
    rw [next, counts]
    split
    · exact ensures_pure (.refl _)
    · exact ensures_pure (o.counted_settle .idle)
  | depart o start =>
    rw [next]
    refine ensures_bind_any fun stride => ?_
    cases stride with
    | ended walk => exact ensures_pure (o.counted_settle (.walked start walk))
    | arrived id trail text => exact ensures_pure (.refl _)
  | follow o start budget current trail text =>
    rw [next]
    refine ensures_bind_any fun stride => ?_
    cases stride with
    | ended walk => exact ensures_pure (o.counted_settle (.walked start walk))
    | arrived id trail text => exact ensures_pure (.refl _)
  | send report => exact ensures_pure (.refl _)

end Steps

end PseudoWord
