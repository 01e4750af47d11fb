import PseudoWord.DistinctWords
import PseudoWord.Walk

namespace PseudoWord

/-- One try for a word: a walk from a start node, or nothing when the graph holds no such node. -/
inductive Attempt where
  | walked (start : NodeId) (walk : Walk)
  | idle
deriving DecidableEq

def Attempt.word? : Attempt → Option String
  | .walked _ walk => walk.result.toOption.join
  | .idle => none

def Attempt.start? : Attempt → Option NodeId
  | .walked start _ => some start
  | .idle => none

/-- A batch of attempts, with the number of distinct words that were found before it. -/
structure Round where
  found : Nat
  batch : Nat
  attempts : List Attempt
deriving DecidableEq

/-- All that happened while words were generated. The words are distinct, in the order in which they
were found; `failure` is what broke the generation off, if anything did. -/
structure Report where
  requested : UInt64
  rounds : List Round
  words : List String
  failure : Option Failure
deriving DecidableEq

namespace Report

def attempts (a : Report) : List Attempt := a.rounds.flatMap (·.attempts)

/-- The start nodes of the walks, in order. -/
def walkStarts (a : Report) : List NodeId := a.attempts.filterMap Attempt.start?

/-- At most as many words as were asked for, or the failure. -/
def result (a : Report) : Except Failure Generation :=
  match a.failure with
  | some cause => .error cause
  | none => .ok ⟨a.words.take a.requested.toNat, a.requested⟩

end Report

/-- The state of a round between two attempts; the attempts stand latest first. -/
structure Batch where
  attempts : List Attempt
  found : DistinctWords
  failure : Option Failure

variable {σ : Type} [Source σ]

namespace Graph

/-- One of the start nodes. A source that answers beyond them makes the generation crash. -/
@[inline]
def drawStart (starts : List NodeId) : Draws σ NodeId := do
  let index ← Draws.range 0 (starts.length.toUInt64 - 1)
  match starts[index.toNat]? with
  | some start => return start
  | none => throw (.outOfBounds index starts.length)

/-- The walk of one attempt. -/
@[specialize]
def attempt (g : Graph) (r : Request) (start : NodeId) : Sampler σ Attempt :=
  match g.node? start with
  | none => return .idle
  | some n => do return .walked start (← n.walk g r)

/-- Makes the given number of attempts, each from a start node that is drawn. A failure to draw one
ends the batch. -/
@[specialize]
def runBatch (g : Graph) (r : Request) (starts : List NodeId) :
    Nat → List Attempt → DistinctWords → Sampler σ Batch
  | 0, attempts, found => return ⟨attempts, found, none⟩
  | left + 1, attempts, found => do
    match ← (drawStart starts).run with
    | .error cause => return ⟨attempts, found, some cause⟩
    | .ok start =>
      let attempt ← g.attempt r start
      let attempts := attempt :: attempts
      match attempt with
      | .idle => runBatch g r starts left attempts found
      | .walked _ walk =>
        match walk.result with
        | .error cause => return ⟨attempts, found, some cause⟩
        | .ok none => runBatch g r starts left attempts found
        | .ok (some word) => runBatch g r starts left attempts (found.insert word)

/-- Runs rounds until enough distinct words are found or the tries are used up. Each round makes as
many attempts as words were asked for, less half of those already found. -/
@[specialize]
def runRounds (g : Graph) (r : Request) (starts : List NodeId) :
    Nat → List Round → DistinctWords → Sampler σ Report
  | 0, rounds, found => return ⟨r.count, rounds.reverse, found.toList, none⟩
  | tries + 1, rounds, found =>
    if found.size < r.count.toNat then do
      let size := r.count.toNat - found.size / 2
      let batch ← g.runBatch r starts size [] found
      let rounds := ⟨found.size, size, batch.attempts.reverse⟩ :: rounds
      match batch.failure with
      | some cause => return ⟨r.count, rounds.reverse, batch.found.toList, some cause⟩
      | none => runRounds g r starts tries rounds batch.found
    else return ⟨r.count, rounds.reverse, found.toList, none⟩

/-- Generates words from a prepared graph. Without start nodes there is nothing to do. -/
@[specialize]
def generate (g : Graph) (r : Request) : Sampler σ Report :=
  match g.starts with
  | none => return ⟨r.count, [], [], some .unprepared⟩
  | some [] => return ⟨r.count, [], [], none⟩
  | some starts => g.runRounds r starts r.maxTries.toNat [] .empty

/-- The graph after the walks of a report have been counted. -/
def countRuns (g : Graph) (report : Report) : Graph := report.walkStarts.foldl countRun g

end Graph

end PseudoWord
