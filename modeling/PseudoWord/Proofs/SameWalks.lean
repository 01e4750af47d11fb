import PseudoWord.Proofs.SameGraph
import PseudoWord.Proofs.WellFormed

namespace PseudoWord

variable {σ : Type} [Source σ]

/-- Whatever is drawn, an item that is chosen is one of the set. -/
theorem WeightedSet.mem_values_of_sample {α : Type} {s : WeightedSet α} {draw : UInt64} {item : α}
    (picked : s.sample draw = some item) : item ∈ s.values := by
  obtain ⟨entry, found, rfl⟩ := Option.map_eq_some_iff.mp picked
  exact List.mem_map_of_mem (List.mem_of_find?_eq_some found)

theorem WeightedSet.choose_bind_congr {α β : Type} {s : WeightedSet α}
    {f f' : Except Failure (Option α) → Sampler σ β}
    (failed : ∀ cause, f (.error cause) = f' (.error cause)) (nothing : f (.ok none) = f' (.ok none))
    (chosen : ∀ item ∈ s.values, f (.ok (some item)) = f' (.ok (some item))) :
    ((s.choose : Draws σ (Option α)).run >>= f) = (s.choose : Draws σ (Option α)).run >>= f' := by
  rw [choose]
  split
  · simp only [ExceptT.run_pure, pure_bind, nothing]
  · simp only [ExceptT.run_bind, bind_assoc]
    refine bind_congr fun outcome => ?_
    cases outcome with
    | error cause => exact failed cause
    | ok draw =>
      change f (.ok (s.sample draw)) = f' (.ok (s.sample draw))
      cases picked : s.sample draw with
      | none => exact nothing
      | some item => exact chosen item (mem_values_of_sample picked)

namespace Node

variable {n m : Node}

theorem links_eq_of_identity (same : n.identity = m.identity) : n.links = m.links :=
  congrArg Identity.links same

theorem fanOut_eq_of_identity (same : n.identity = m.identity) : n.fanOut = m.fanOut := by
  rw [fanOut, fanOut, links_eq_of_identity same]

theorem emit_eq_of_identity (same : n.identity = m.identity) :
    n.emit = (m.emit : Draws σ (Option String)) := by
  have fragments : n.fragments = m.fragments := congrArg Identity.fragments same
  rw [emit, emit, fragments]

/-- Where nothing leads on, the flag for terminating is not looked at. -/
theorem stops_eq_of_identity (same : n.identity = m.identity) :
    n.stops = (m.stops : Draws σ Bool) := by
  have links := links_eq_of_identity same
  rw [stops, stops, fanOut_eq_of_identity same, links]
  split
  · rfl
  · rename_i filled
    have flags : n.terminating = m.terminating := by
      have ends : n.isTerminating = m.isTerminating := congrArg Identity.terminating same
      simpa only [isTerminating, links, Bool.eq_false_iff.mpr filled, Bool.or_false] using ends
    rw [flags]

/-- All that a walk looks at when it has followed a link to a node. -/
def bearing (n : Node) : Identity × Bool := (n.identity, n.terminating)

end Node

theorem Request.stopsAfter_congr (r : Request) {origin origin' current current' : Node}
    (first : origin.identity = origin'.identity) (here : current.bearing = current'.bearing)
    (length : Nat) :
    r.stopsAfter origin current length = (r.stopsAfter origin' current' length : Draws σ Bool) := by
  have same : current.identity = current'.identity := congrArg Prod.fst here
  have flags : current.terminating = current'.terminating := congrArg Prod.snd here
  have fans : r.biasedFanOut origin current = r.biasedFanOut origin' current' := by
    rw [biasedFanOut, biasedFanOut, Node.fanOut_eq_of_identity first, Node.fanOut_eq_of_identity same]
  rw [stopsAfter, stopsAfter, stopsLong, stopsLong, flags, fans, Node.stops_eq_of_identity same]

/-- Under each id that a link of `g` leads to, both graphs hold nodes with the same bearing, or neither
holds one. -/
def Graph.Replays (g h : Graph) : Prop :=
  ∀ n ∈ g.nodeList, ∀ target ∈ n.links.values,
    (g.node? target).map Node.bearing = (h.node? target).map Node.bearing

section Walks

variable {g h : Graph} {r : Request}

theorem Walk.follow_congr (replays : g.Replays h) {origin origin' : Node}
    (first : origin.identity = origin'.identity) (budget : Nat) {current current' : Node}
    (here : current.identity = current'.identity) (inside : current ∈ g.nodeList)
    (trail : List Visit) (text : String) :
    follow g r origin budget current trail text =
      (follow h r origin' budget current' trail text : Sampler σ Walk) := by
  have ids : origin.id = origin'.id := congrArg Node.Identity.id first
  rw [follow, follow, ids, Node.chooseLink, Node.chooseLink, ← Node.links_eq_of_identity here]
  refine WeightedSet.choose_bind_congr (fun cause => rfl) rfl fun target linked => ?_
  have bearings := replays current inside target linked
  dsimp only
  cases found : g.node? target with
  | none =>
    rw [found, Option.map_none] at bearings
    rw [Option.map_eq_none_iff.mp bearings.symm]
  | some next =>
    rw [found, Option.map_some] at bearings
    obtain ⟨next', found', bearing⟩ := Option.map_eq_some_iff.mp bearings.symm
    have same : next.identity = next'.identity := congrArg Prod.fst bearing.symm
    have nextIds : next.id = next'.id := congrArg Node.Identity.id same
    rw [found']
    cases budget with
    | zero => rfl
    | succ budget =>
      dsimp only
      rw [Node.emit_eq_of_identity same]
      refine bind_congr fun outcome => ?_
      cases outcome with
      | error cause => rfl
      | ok fragment =>
        dsimp only
        rw [r.stopsAfter_congr first bearing.symm, nextIds]
        refine bind_congr fun outcome => ?_
        match outcome with
        | .error cause => rfl
        | .ok true => rfl
        | .ok false =>
          exact follow_congr replays first budget same (g.mem_nodeList_iff.mpr ⟨target, found⟩) _ _

/-- Walks from nodes that count as the same draw the same and go the same way. -/
theorem Node.walk_congr (replays : g.Replays h) {n m : Node} (same : n.identity = m.identity)
    (inside : n ∈ g.nodeList) : n.walk g r = (m.walk h r : Sampler σ Walk) := by
  have ids : n.id = m.id := congrArg Identity.id same
  rw [walk, walk, emit_eq_of_identity same, ids]
  refine bind_congr fun outcome => ?_
  cases outcome with
  | error cause => rfl
  | ok fragment =>
    dsimp only
    rw [stops_eq_of_identity same]
    refine bind_congr fun outcome => ?_
    match outcome with
    | .error cause => rfl
    | .ok true => rfl
    | .ok false => exact Walk.follow_congr replays same _ same inside _ _

end Walks

namespace Graph

variable {g h : Graph} {r : Request}

theorem attempt_congr (same : g.Same h) (replays : g.Replays h) (start : NodeId) :
    g.attempt r start = (h.attempt r start : Sampler σ Attempt) := by
  have identities := same_iff.mp same start
  rw [attempt, attempt]
  cases found : g.node? start with
  | none =>
    rw [found, Option.map_none] at identities
    rw [Option.map_eq_none_iff.mp identities.symm]
  | some n =>
    rw [found, Option.map_some] at identities
    obtain ⟨m, found', identity⟩ := Option.map_eq_some_iff.mp identities.symm
    rw [found']
    dsimp only
    rw [Node.walk_congr replays identity.symm (g.mem_nodeList_iff.mpr ⟨start, found⟩)]

theorem runBatch_congr (same : g.Same h) (replays : g.Replays h) (starts : List NodeId) (left : Nat)
    (attempts : List Attempt) (found : DistinctWords) :
    g.runBatch r starts left attempts found =
      (h.runBatch r starts left attempts found : Sampler σ Batch) := by
  induction left generalizing attempts found with
  | zero => rfl
  | succ left ih =>
    rw [runBatch, runBatch]
    refine bind_congr fun outcome => ?_
    cases outcome with
    | error cause => rfl
    | ok start =>
      dsimp only
      rw [attempt_congr same replays]
      refine bind_congr fun attempt => ?_
      cases attempt with
      | idle => exact ih _ _
      | walked id walk =>
        dsimp only
        split
        · rfl
        · exact ih _ _
        · exact ih _ _

theorem runRounds_congr (same : g.Same h) (replays : g.Replays h) (starts : List NodeId) (tries : Nat)
    (rounds : List Round) (found : DistinctWords) :
    g.runRounds r starts tries rounds found =
      (h.runRounds r starts tries rounds found : Sampler σ Report) := by
  induction tries generalizing rounds found with
  | zero => rfl
  | succ tries ih =>
    rw [runRounds, runRounds]
    split
    · refine congr (congrArg bind (runBatch_congr same replays _ _ _ _)) (funext fun batch => ?_)
      split
      · rfl
      · exact ih _ _
    · rfl

/-- Two graphs with the same start nodes, in which walks meet the same, answer every request alike and
after the same draws. -/
theorem generate_congr (same : g.Same h) (replays : g.Replays h) (starts : g.starts = h.starts)
    (r : Request) : g.generate r = (h.generate r : Sampler σ Report) := by
  rw [generate, generate, starts]
  split
  · rfl
  · rfl
  · exact runRounds_congr same replays _ _ _ _

end Graph

end PseudoWord
