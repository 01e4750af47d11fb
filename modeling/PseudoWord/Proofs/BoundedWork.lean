import PseudoWord.Proofs.RecordedDraws
import PseudoWord.Proofs.StepCounter
import PseudoWord.Report
import PseudoWord.Table.Import

namespace PseudoWord

/-- What may be asked for at a node: a number for one of its fragments, for one of its links, or against
the number of its links. -/
inductive Node.Wants (n : Node) : UInt64 → Prop
  | fragment : n.fragments.isEmpty = false → Wants n (n.fragments.total - 1)
  | link : n.links.isEmpty = false → Wants n (n.links.total - 1)
  | stop : Wants n (n.fanOut + 1)

/-- What a walk from a node may ask for: what is wanted at this node or at one that the graph holds, or a
number against the room that a word has left. -/
inductive Graph.WalkWants (g : Graph) (r : Request) (origin : Node) : UInt64 → Prop
  | origin {high : UInt64} : origin.Wants high → WalkWants g r origin high
  | node {id : NodeId} {n : Node} {high : UInt64} :
      g.node? id = some n → n.Wants high → WalkWants g r origin high
  | room (length : Nat) : WalkWants g r origin (r.room length)

/-- What generation may ask for: one of the start nodes, or what a walk from a node of the graph asks
for. -/
inductive Graph.Wants (g : Graph) (r : Request) (starts : List NodeId) : UInt64 → Prop
  | start : starts ≠ [] → Wants g r starts (starts.length.toUInt64 - 1)
  | walk {id : NodeId} {n : Node} {high : UInt64} :
      g.node? id = some n → g.WalkWants r n high → Wants g r starts high

/-- Why generation breaks off at a draw: the source fails, or it answers a draw for one of the start nodes
with a place behind the last of them. -/
inductive Graph.Breaks (σ : Type) [Source σ] (starts : List NodeId) (draw : Draw) : Failure → Prop
  | failed {cause : Failure} : draw.Fails σ cause → Breaks σ starts draw cause
  | crashed {index : UInt64} : draw.low = 0 → draw.high = starts.length.toUInt64 - 1 →
      draw.Gets σ (.ok index) → starts.length ≤ index.toNat →
      Breaks σ starts draw (.outOfBounds index starts.length)

section Draws

variable {σ : Type} [Source σ] {asks : UInt64 → Prop} {n current origin : Node} {r : Request}

theorem Node.asks_emit (wants : ∀ high, n.Wants high → asks high) :
    Asks asks 1 (n.emit : Draws σ (Option String)) n.emit :=
  WeightedSet.asks_choose fun filled => wants _ (.fragment filled)

theorem Node.asks_chooseLink (wants : ∀ high, n.Wants high → asks high) :
    Asks asks 1 (n.chooseLink : Draws σ (Option NodeId)) n.chooseLink :=
  WeightedSet.asks_choose fun linked => wants _ (.link linked)

theorem Node.asks_stops (wants : ∀ high, n.Wants high → asks high) :
    Asks asks 1 (n.stops : Draws σ Bool) n.stops := by
  rw [stops, stops]
  split
  · exact asks_pure true
  · split
    · exact asks_isZero (wants _ .stop)
    · exact asks_pure false

theorem Request.asks_stopsLong (length : Nat) (room : asks (r.room length))
    (first : ∀ high, origin.Wants high → asks high) (here : ∀ high, current.Wants high → asks high) :
    Asks asks (1 + 1) (r.stopsLong origin current length : Draws σ Bool)
      (r.stopsLong origin current length) := by
  have bias : asks (r.biasedFanOut origin current + 1) := by
    rw [biasedFanOut]
    cases r.stopBias with
    | origin => exact first _ .stop
    | current => exact here _ .stop
  rw [stopsLong, stopsLong]
  split
  · refine Asks.bind (asks_isZero room) fun near => ?_
    split
    · exact asks_pure true
    · exact asks_isZero bias
  · exact asks_pure false

theorem Request.asks_stopsAfter (length : Nat) (room : asks (r.room length))
    (first : ∀ high, origin.Wants high → asks high) (here : ∀ high, current.Wants high → asks high) :
    Asks asks (1 + 1 + 1) (r.stopsAfter origin current length : Draws σ Bool)
      (r.stopsAfter origin current length) := by
  rw [stopsAfter, stopsAfter]
  refine Asks.bind (asks_stopsLong length room first here) fun stop => ?_
  split
  · exact asks_pure true
  · exact Node.asks_stops here

end Draws

/-- The failure that broke a walk off. -/
def Walk.broken (walk : Walk) : Option Failure := failureOf walk.result

/-- The failure that broke the walk of an attempt off. -/
def Attempt.broken : Attempt → Option Failure
  | .walked _ walk => walk.broken
  | .idle => none

section Work

variable {σ : Type} [Source σ] {g : Graph} {r : Request}

/-- The rest of a walk that has come to a node, from which so many more links may be followed. -/
def Walk.arrive (g : Graph) (r : Request) (origin next : Node) (budget : Nat) (trail : List Visit)
    (text : String) : Sampler σ Walk := do
  match ← next.emit.run with
  | .error cause => return ⟨origin.id, trail, .failed cause⟩
  | .ok fragment =>
    let trail := ⟨next.id, fragment⟩ :: trail
    let text := text ++ fragment.getD ""
    match ← (r.stopsAfter origin next text.length).run with
    | .error cause => return ⟨origin.id, trail, .failed cause⟩
    | .ok true => return ⟨origin.id, trail, .word text⟩
    | .ok false => follow g r origin budget next trail text

/-- A walk that has made the visits of a trail, and after them so many more at most. -/
def Walk.Prolongs (trail : List Visit) (budget : Nat) (walk : Walk) : Prop :=
  ∃ later, walk.trail = later ++ trail ∧ later.length ≤ budget

theorem Walk.prolongs_trail (walk : Walk) (budget : Nat) : walk.Prolongs walk.trail budget :=
  ⟨[], rfl, Nat.zero_le budget⟩

/-- What comes after a visit comes after the trail that the visit was added to. -/
theorem Walk.Prolongs.of_cons {walk : Walk} {visit : Visit} {trail : List Visit} {budget : Nat}
    (prolongs : walk.Prolongs (visit :: trail) budget) :
    walk.Prolongs trail (budget + 1) ∧ trail.length < walk.trail.length := by
  obtain ⟨later, visits, few⟩ := prolongs
  have all : walk.trail = (later ++ [visit]) ++ trail := by rw [visits, List.append_assoc]; rfl
  have more : (later ++ [visit]).length = later.length + 1 := List.length_append
  refine ⟨⟨_, all, ?_⟩, ?_⟩
  · rw [more]
    exact Nat.succ_le_succ few
  · rw [all, List.length_append, more]
    omega

/-- At a node that a walk comes to, four draws are for the fragment and for the three stop tests. No word
is made without a visit to this node. -/
theorem Walk.spends_arrive {origin next : Node} {budget limit : Nat} (trail : List Visit) (text : String)
    (there : ∀ high, next.Wants high → g.WalkWants r origin high)
    (onward : ∀ trail text, Spends (g.WalkWants r origin) (Draw.Fails σ) limit broken (Prolongs trail budget)
      (follow g r origin budget next trail text : Sampler σ Walk)
      (follow g r origin budget next trail text)) :
    Spends (g.WalkWants r origin) (Draw.Fails σ) (1 + (1 + 1 + 1 + limit)) broken
      (fun walk => walk.Prolongs trail (budget + 1) ∧
        ∀ word, walk.ending = .word word → trail.length < walk.trail.length)
      (arrive g r origin next budget trail text : Sampler σ Walk)
      (arrive g r origin next budget trail text) := by
  rw [arrive, arrive]
  refine Spends.draws_bind (Node.asks_emit there)
    (fun cause => ⟨_, rfl, rfl, rfl, prolongs_trail _ _, nofun⟩) fun fragment => ?_
  have visited {walk : Walk} (prolongs : walk.Prolongs (⟨next.id, fragment⟩ :: trail) budget) :
      walk.Prolongs trail (budget + 1) ∧
        ∀ word, walk.ending = .word word → trail.length < walk.trail.length :=
    prolongs.of_cons.imp_right fun longer _ _ => longer
  refine Spends.draws_bind (Request.asks_stopsAfter _ (.room _) (fun _ => .origin) there)
    (fun cause => ⟨_, rfl, rfl, rfl, visited (prolongs_trail _ _)⟩) fun stop => ?_
  cases stop with
  | true => exact spends_pure rfl (visited (prolongs_trail _ _))
  | false => exact (onward _ _).imp fun _ prolongs => visited prolongs

/-- Each link that is followed takes five draws: for the link, for the fragment, and for the three stop
tests. One more draw may be for a link that is not followed. -/
theorem Walk.spends_follow {origin : Node} (budget : Nat) {current : Node} (trail : List Visit)
    (text : String) (here : ∀ high, current.Wants high → g.WalkWants r origin high) :
    Spends (g.WalkWants r origin) (Draw.Fails σ) (1 + 5 * budget) broken (Prolongs trail budget)
      (follow g r origin budget current trail text : Sampler σ Walk)
      (follow g r origin budget current trail text) := by
  rw [follow, follow]
  refine Spends.draws_bind (Node.asks_chooseLink here)
    (fun cause => ⟨_, rfl, rfl, rfl, prolongs_trail _ _⟩) fun choice => ?_
  cases choice with
  | none => exact spends_pure rfl (prolongs_trail _ _)
  | some target =>
    dsimp only
    cases found : g.node? target with
    | none => exact spends_pure rfl (prolongs_trail _ _)
    | some next =>
      cases budget with
      | zero => exact spends_pure rfl (prolongs_trail _ _)
      | succ budget =>
        have there (high : UInt64) (wanted : next.Wants high) : g.WalkWants r origin high :=
          .node found wanted
        have steps : 5 * (budget + 1) = 1 + (1 + 1 + 1 + (1 + 5 * budget)) := by omega
        rw [steps]
        exact (spends_arrive trail text there fun trail text => spends_follow budget trail text there).imp
          fun walk visited => visited.1

/-- A walk takes one draw for its first fragment and one for its first stop test, and makes no more
steps than its limit allows. -/
theorem Node.spends_walk (n : Node) :
    Spends (g.WalkWants r n) (Draw.Fails σ) (3 + 5 * r.maxSteps.toNat) Walk.broken
      (fun walk => walk.trail.length ≤ r.maxSteps.toNat + 1)
      (n.walk g r : Sampler σ Walk) (n.walk g r) := by
  have here (high : UInt64) (wanted : n.Wants high) : g.WalkWants r n high := .origin wanted
  have draws : 3 + 5 * r.maxSteps.toNat = 1 + (1 + (1 + 5 * r.maxSteps.toNat)) := by omega
  rw [walk, walk, draws]
  refine Spends.draws_bind (asks_emit here) (fun cause => ⟨_, rfl, rfl, rfl, Nat.zero_le _⟩)
    fun fragment => ?_
  have one : 1 ≤ r.maxSteps.toNat + 1 := Nat.le_add_left 1 _
  refine Spends.draws_bind (asks_stops here) (fun cause => ⟨_, rfl, rfl, rfl, one⟩) fun stop => ?_
  cases stop with
  | true => exact spends_pure rfl one
  | false =>
    refine (Walk.spends_follow r.maxSteps.toNat _ _ here).imp fun walk prolongs => ?_
    obtain ⟨later, visits, few⟩ := prolongs
    rw [visits, List.length_append, List.length_singleton]
    exact Nat.succ_le_succ few

namespace Graph

variable {starts : List NodeId}

theorem spends_drawStart (filled : starts ≠ []) :
    Spends (g.Wants r starts) (Breaks σ starts) 1 failureOf (fun _ => True)
      (drawStart starts : Draws σ NodeId).run (drawStart starts).run := by
  rw [drawStart, drawStart, ExceptT.run_bind, ExceptT.run_bind]
  refine Records.bind (records_range _) fun outcome earlier holds => ?_
  obtain ⟨draw, rfl, low, high, gets, value⟩ := holds
  have asked : g.Wants r starts draw.high := by
    rw [high]
    exact .start filled
  have one {failure : Option Failure} (broke : ∀ cause, failure = some cause → Breaks σ starts draw cause) :
      Recorded σ (g.Wants r starts) (Breaks σ starts) 1 failure ([draw] ++ []) :=
    recorded_singleton low asked gets value broke
  cases outcome with
  | error cause =>
    refine records_pure ⟨one fun _ broke => ?_, trivial⟩
    cases broke
    exact .failed gets
  | ok index =>
    dsimp only
    cases picked : starts[index.toNat]? with
    | none =>
      refine records_pure ⟨one fun _ broke => ?_, trivial⟩
      cases broke
      exact .crashed low high gets (List.getElem?_eq_none_iff.mp picked)
    | some start => exact records_pure ⟨one (fun _ impossible => by cases impossible), trivial⟩

theorem spends_attempt (start : NodeId) :
    Spends (g.Wants r starts) (Breaks σ starts) (3 + 5 * r.maxSteps.toNat) Attempt.broken
      (fun _ => True) (g.attempt r start : Sampler σ Attempt) (g.attempt r start) := by
  rw [attempt, attempt]
  cases found : g.node? start with
  | none => exact spends_pure rfl trivial
  | some n =>
    have walked : Spends (g.Wants r starts) (Breaks σ starts) (3 + 5 * r.maxSteps.toNat) Walk.broken _
        (n.walk g r : Sampler σ Walk) (n.walk g r) :=
      n.spends_walk.mono (fun _ => .walk found) (fun _ _ => .failed) (Nat.le_refl _)
    exact walked.map (fun _ => rfl) fun _ _ => trivial

theorem spends_batch (filled : starts ≠ []) (left : Nat) (attempts : List Attempt)
    (found : DistinctWords) :
    Spends (g.Wants r starts) (Breaks σ starts) (left * (4 + 5 * r.maxSteps.toNat)) Batch.failure
      (fun _ => True) (g.runBatch r starts left attempts found : Sampler σ Batch)
      (g.runBatch r starts left attempts found) := by
  induction left generalizing attempts found with
  | zero => exact spends_pure rfl trivial
  | succ left ih =>
    have draws : (left + 1) * (4 + 5 * r.maxSteps.toNat) =
        1 + ((3 + 5 * r.maxSteps.toNat) + left * (4 + 5 * r.maxSteps.toNat)) := by
      rw [Nat.succ_mul]
      omega
    rw [runBatch, runBatch, draws]
    refine Spends.draws_bind (spends_drawStart filled) (fun cause => ⟨_, rfl, rfl, rfl, trivial⟩)
      fun start => ?_
    refine Spends.bind (spends_attempt _) (fun attempt cause broke _ => ?_)
      fun attempt unbroken _ => ?_
    · cases attempt with
      | idle => cases broke
      | walked start walk =>
        simp only [failureOf_eq_some_iff.mp broke]
        exact ⟨_, rfl, rfl, rfl, trivial⟩
    · cases attempt with
      | idle => exact ih _ _
      | walked start walk =>
        obtain ⟨made, result⟩ := failureOf_eq_none_iff.mp unbroken
        simp only [result]
        cases made with
        | none => exact ih _ _
        | some word => exact ih _ _

theorem spends_rounds (filled : starts ≠ []) (tries : Nat) (rounds : List Round)
    (found : DistinctWords) :
    Spends (g.Wants r starts) (Breaks σ starts) (tries * (r.count.toNat * (4 + 5 * r.maxSteps.toNat)))
      Report.failure (fun _ => True) (g.runRounds r starts tries rounds found : Sampler σ Report)
      (g.runRounds r starts tries rounds found) := by
  induction tries generalizing rounds found with
  | zero => exact spends_pure rfl trivial
  | succ tries ih =>
    rw [runRounds, runRounds, Nat.succ_mul, Nat.add_comm]
    split
    · have size : r.count.toNat - found.size / 2 ≤ r.count.toNat := Nat.sub_le _ _
      have fits := Nat.mul_le_mul_right (4 + 5 * r.maxSteps.toNat) size
      have batch : Spends (g.Wants r starts) (Breaks σ starts)
          (r.count.toNat * (4 + 5 * r.maxSteps.toNat)) Batch.failure _
          (g.runBatch r starts (r.count.toNat - found.size / 2) [] found : Sampler σ Batch) _ :=
        (spends_batch filled _ [] found).mono (fun _ wanted => wanted) (fun _ _ why => why) fits
      refine Spends.bind batch (fun batch cause broke _ => ?_) fun batch unbroken _ => ?_
      · simp only [broke]
        exact ⟨_, rfl, rfl, rfl, trivial⟩
      · simp only [unbroken]
        exact ih _ _
    · exact spends_pure rfl trivial

/-- Generation from a prepared graph makes no more rounds than there are tries, no more attempts in each
than words are asked for, and with each of them one draw besides those of the walk. -/
theorem spends_generate (prepared : g.starts = some starts) :
    Spends (g.Wants r starts) (Breaks σ starts)
      (r.maxTries.toNat * (r.count.toNat * (4 + 5 * r.maxSteps.toNat))) Report.failure (fun _ => True)
      (g.generate r : Sampler σ Report) (g.generate r) := by
  rw [generate, generate, prepared]
  cases starts with
  | nil => exact spends_pure rfl trivial
  | cons first rest => exact spends_rounds (List.cons_ne_nil first rest) _ _ _

end Graph

end Work

/-- A source that gives one answer, whatever it is asked for. -/
structure Stubborn where
  answer : UInt64

instance : Source Stubborn where
  draw _ _ s := (.ok s.answer, s)

namespace Graph

/-- A silent node that leads to itself and to a node that is not there; its links have lost their
total. -/
def strayNode : Node where
  id := ⟨0⟩
  fragments := .empty
  links := ⟨.ofList [(1, ⟨0⟩), (9, ⟨4⟩)], 0⟩
  initializing := true
  terminating := false
  runs := 0

def strayGraph : Graph := ⟨"", .ofList [(0, strayNode)], some [⟨0⟩]⟩

/-- Two words of two steps at most, in three rounds. -/
def strayRequest : Request := ⟨2, 1, 3, 3, 2, .current⟩

/-- Two words of a walk without end: no counter of 64 bits passes this limit. -/
def endlessRequest : Request := { strayRequest with maxSteps := 18446744073709551615 }

/-- The limit on the draws is reached by walks that ask for everything at each step and never stop. -/
example :
    ((generate (ofTable ["S ; _ ; N0 | N1", "N1 ; a(2) ; N1(2) | O"]) strayRequest).run
      (Traced.start (Stubborn.mk 1))).2.trace.length = 3 * 2 * (4 + 5 * 2) := by decide +kernel

end Graph

end PseudoWord
