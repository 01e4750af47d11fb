import PseudoWord.Note.Basic
import PseudoWord.Parallel

namespace PseudoWord

/-- How a walk went. `run` is its number among the walks from the same node. -/
def Walk.notes (w : Walk) (run : Nat) : List Note :=
  let visits := match w.visits with
    | [] => []
    | first :: later =>
      .walkStarted run first.node first.text ::
        later.map (fun visit => .visited visit.node visit.fragment)
  visits ++ match w.ending with
    | .word text => [.walkEnded text]
    | .unknownNode id => [.unknownNode w.origin id]
    | .tooLong maxSteps => [.walkTooLong w.origin maxSteps]
    | .failed _ => []

namespace Graph

/-- How many walks from a node have been counted. -/
def runsOf (g : Graph) (id : NodeId) : Nat := ((g.node? id).map (·.runs)).getD 0

/-- The notes of successive attempts; each walk is counted before it is noted. -/
def attemptNotes (g : Graph) : List Attempt → Graph × List Note
  | [] => (g, [])
  | .idle :: rest => g.attemptNotes rest
  | .walked start walk :: rest =>
    let g := g.countRun start
    match g.attemptNotes rest with
    | (after, notes) => (after, walk.notes (g.runsOf start) ++ notes)

def roundNotes (g : Graph) (number : Nat) : List Round → List Note
  | [] => []
  | round :: rest =>
    match g.attemptNotes round.attempts with
    | (g, notes) =>
      .roundStarted number round.batch round.found :: (notes ++ g.roundNotes (number + 1) rest)

/-- How a generation from this graph went. -/
def reportNotes (g : Graph) (report : Report) : List Note :=
  match g.starts with
  | some [] => [.noStartNode g.name]
  | _ => g.roundNotes 1 report.rounds

/-- How the generation of several workers on this graph went, one worker after the other. -/
def arrivalNotes (g : Graph) : List Arrival → List Note
  | [] => []
  | arrival :: rest =>
    g.reportNotes arrival.report ++ (g.countRuns arrival.report).arrivalNotes rest

end Graph

end PseudoWord
