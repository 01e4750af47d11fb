import PseudoWord.Report
import PseudoWord.Source.Seeded

namespace PseudoWord

/-- The words of several reports together: distinct, in the order of the reports, and at most as many
as were asked for. The first failure among the reports is the failure of the whole. -/
def Report.merge (requested : UInt64) (parts : List Report) : Except Failure Generation := do
  let generations ← parts.mapM Report.result
  let found := generations.foldl (fun found part => found.insertAll part.words) DistinctWords.empty
  return ⟨found.toList.take requested.toNat, requested⟩

namespace Request

/-- The number of workers that a request is spread over: one for each processor, but no more than
words are asked for, and at least one. -/
def workers (r : Request) (cpus : Nat) : Nat := max 1 (min cpus (max r.count.toNat 1))

/-- The part of a request that falls to each of so many workers. -/
def share (r : Request) (workers : Nat) : Request :=
  r.withCount ((r.count.toNat + workers - 1) / workers).toUInt64

end Request

/-- The report of one worker, with its number. -/
structure Arrival where
  worker : Nat
  report : Report

namespace Graph

/-- What a worker does: it answers its share from a source seeded with the seed plus its number. -/
def work (g : Graph) (share : Request) (seed : UInt64) (worker : Nat) : Arrival :=
  ⟨worker, ((g.generate share).run (Seeded.ofSeed (seed + worker.toUInt64))).1⟩

/-- The reports of all workers, in order of their numbers. -/
def workAll (g : Graph) (r : Request) (seed : UInt64) (cpus : Nat) : List Arrival :=
  (List.range (r.workers cpus)).map (g.work (r.share (r.workers cpus)) seed)

end Graph

/-- Puts the reports of the workers into the order of their numbers, in whichever order they came
in, and merges them. -/
def Arrival.collect (requested : UInt64) (arrivals : List Arrival) : Except Failure Generation :=
  Report.merge requested
    ((arrivals.mergeSort (fun a b => decide (a.worker ≤ b.worker))).map (·.report))

/-- Generates words with several workers on the same graph. -/
def Graph.generateParallel (g : Graph) (r : Request) (seed : UInt64) (cpus : Nat) :
    Except Failure Generation :=
  Arrival.collect r.count (g.workAll r seed cpus)

/-- The graph after the walks of all workers have been counted. -/
def Graph.countArrivals (g : Graph) (arrivals : List Arrival) : Graph :=
  arrivals.foldl (fun g arrival => g.countRuns arrival.report) g

end PseudoWord
