import PseudoWord.Graph.Change
import PseudoWord.Parallel

namespace PseudoWord

/-- A walk after one more visit: it has ended, or it stands at a node with what its visits emitted. -/
inductive Stride where
  | ended (walk : Walk)
  | arrived (id : NodeId) (trail : List Visit) (text : String)

/-- A round that is under way: how many rounds may follow it, those before it with the latest first,
the words that were found before it, its size, and what is left of it. -/
structure OpenRound where
  triesLeft : Nat
  earlier : List Round
  before : Nat
  size : Nat
  left : Nat
  attempts : List Attempt
  found : DistinctWords

namespace OpenRound

/-- The rounds so far, this one among them, the latest first. -/
def rounds (o : OpenRound) : List Round := ⟨o.before, o.size, o.attempts.reverse⟩ :: o.earlier

/-- The report of a generation that a failure broke off in this round. -/
def broken (o : OpenRound) (r : Request) (cause : Failure) : Report :=
  ⟨r.count, o.rounds.reverse, o.found.toList, some cause⟩

/-- Enters an attempt. Either the round goes on, or the attempt failed and the report is ready. -/
def settle (o : OpenRound) (r : Request) (attempt : Attempt) : Report ⊕ OpenRound :=
  let o := { o with attempts := attempt :: o.attempts }
  match attempt with
  | .idle => .inr o
  | .walked _ walk =>
    match walk.result with
    | .error cause => .inl (o.broken r cause)
    | .ok none => .inr o
    | .ok (some word) => .inr { o with found := o.found.insert word }

end OpenRound

/-- What a worker does next. Nodes are held by their ids: whatever is read of a node is read from the
graph as it is at that moment. -/
inductive Task where
  | begin
  | round (tries : Nat) (rounds : List Round) (found : DistinctWords)
  | pick (o : OpenRound)
  | enter (o : OpenRound) (start : NodeId)
  | depart (o : OpenRound) (start : NodeId)
  | follow (o : OpenRound) (start : NodeId) (budget : Nat) (current : NodeId) (trail : List Visit)
      (text : String)
  | send (report : Report)

namespace Task

def ofSettled : Report ⊕ OpenRound → Task
  | .inl report => send report
  | .inr o => pick o

/-- The walk that the next step counts, if it counts one. -/
def counts (g : Graph) : Task → List NodeId
  | enter _ start => if g.nodes.contains start.value then [start] else []
  | _ => []

end Task

variable {σ : Type} [Source σ]

/-- The first visit of a walk. -/
def Node.depart (n : Node) : Sampler σ Stride := do
  match ← n.emit.run with
  | .error cause => return .ended ⟨n.id, [], .failed cause⟩
  | .ok fragment =>
    let trail := [⟨n.id, fragment⟩]
    let text := fragment.getD ""
    match ← n.stops.run with
    | .error cause => return .ended ⟨n.id, trail, .failed cause⟩
    | .ok true => return .ended ⟨n.id, trail, .word text⟩
    | .ok false => return .arrived n.id trail text

/-- Follows one link from `current`, unless no more may be followed. -/
def Walk.stride (g : Graph) (r : Request) (origin : Node) (budget : Nat) (current : Node)
    (trail : List Visit) (text : String) : Sampler σ Stride := do
  match ← current.chooseLink.run with
  | .error cause => return .ended ⟨origin.id, trail, .failed cause⟩
  | .ok none => return .ended ⟨origin.id, trail, .word text⟩
  | .ok (some id) =>
    match g.node? id with
    | none => return .ended ⟨origin.id, trail, .unknownNode id⟩
    | some next =>
      if budget = 0 then return .ended ⟨origin.id, trail, .tooLong r.maxSteps⟩
      else
        match ← next.emit.run with
        | .error cause => return .ended ⟨origin.id, trail, .failed cause⟩
        | .ok fragment =>
          let trail := ⟨next.id, fragment⟩ :: trail
          let text := text ++ fragment.getD ""
          match ← (r.stopsAfter origin next text.length).run with
          | .error cause => return .ended ⟨origin.id, trail, .failed cause⟩
          | .ok true => return .ended ⟨origin.id, trail, .word text⟩
          | .ok false => return .arrived id trail text

/-- One step of a worker that answers a request: a decision, a draw for a start node, or one visit of a
walk. The walk itself is counted in a step of its own, before its first visit. -/
def Task.next (g : Graph) (r : Request) : Task → Sampler σ Task
  | begin =>
    match g.starts with
    | none => return send ⟨r.count, [], [], some .unprepared⟩
    | some [] => return send ⟨r.count, [], [], none⟩
    | some _ => return round r.maxTries.toNat [] .empty
  | round 0 rounds found => return send ⟨r.count, rounds.reverse, found.toList, none⟩
  | round (tries + 1) rounds found =>
    if found.size < r.count.toNat then
      let size := r.count.toNat - found.size / 2
      return pick ⟨tries, rounds, found.size, size, size, [], found⟩
    else return send ⟨r.count, rounds.reverse, found.toList, none⟩
  | pick o =>
    match o.left with
    | 0 => return round o.triesLeft o.rounds o.found
    | left + 1 => do
      let o := { o with left }
      match ← (Graph.drawStart (g.starts.getD [])).run with
      | .error cause => return send (o.broken r cause)
      | .ok start => return enter o start
  | enter o start =>
    if g.nodes.contains start.value then return depart o start
    else return ofSettled (o.settle r .idle)
  | depart o start => do
    match ← (g.nodeOrNew start).depart with
    | .ended walk => return ofSettled (o.settle r (.walked start walk))
    | .arrived _ trail text => return follow o start r.maxSteps.toNat start trail text
  | follow o start budget current trail text => do
    match ← Walk.stride g r (g.nodeOrNew start) budget (g.nodeOrNew current) trail text with
    | .ended walk => return ofSettled (o.settle r (.walked start walk))
    | .arrived id trail text => return follow o start (budget - 1) id trail text
  | send report => return send report

/-- A worker with its number, what it does next, and its own source. -/
structure Worker where
  number : Nat
  task : Task
  source : Seeded

/-- The worker after one step on the graph as it is. -/
def Worker.advance (g : Graph) (r : Request) (w : Worker) : Worker :=
  match (w.task.next g r).run w.source with
  | (task, source) => ⟨w.number, task, source⟩

/-- Workers on one graph, of which they change nothing but the run counters, and the reports that have
arrived, in the order in which they were sent. -/
structure Crew where
  graph : Graph
  workers : List Worker
  arrived : List Arrival

namespace Crew

/-- The workers of a request before their first steps. -/
def start (g : Graph) (r : Request) (seed : UInt64) (cpus : Nat) : Crew :=
  ⟨g, (List.range (r.workers cpus)).map
    (fun worker => ⟨worker, .begin, .ofSeed (seed + worker.toUInt64)⟩), []⟩

/-- One worker, whichever, makes one step: it works on its share, or sends its report and is done. -/
inductive Step (share : Request) : Crew → Crew → Prop
  | work {g : Graph} {before after : List Worker} {arrived : List Arrival} (w : Worker) :
      (∀ report, w.task ≠ .send report) →
      Step share ⟨g, before ++ w :: after, arrived⟩
        ⟨(w.task.counts g).foldl Graph.countRun g, before ++ w.advance g share :: after, arrived⟩
  | send {g : Graph} {before after : List Worker} {arrived : List Arrival} (number : Nat)
      (report : Report) (source : Seeded) :
      Step share ⟨g, before ++ ⟨number, .send report, source⟩ :: after, arrived⟩
        ⟨g, before ++ after, arrived ++ [⟨number, report⟩]⟩

/-- So many steps, in any order of the workers. -/
inductive Run (share : Request) (first : Crew) : Nat → Crew → Prop
  | start : Run share first 0 first
  | next {steps : Nat} {s t : Crew} : Run share first steps s → Step share s t →
      Run share first (steps + 1) t

end Crew

end PseudoWord
