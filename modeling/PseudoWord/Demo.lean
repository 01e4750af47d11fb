import PseudoWord.Acceptor
import PseudoWord.Parallel
import PseudoWord.Storage

namespace PseudoWord

/-- What the demonstration prints and leaves behind. -/
structure Showing where
  output : List String
  files : FileTree
  failure : Option Failure

namespace Demo

def tablePath : Path := .ofString "./data/syllables.csv"

/-- The table that is written when there is none yet. -/
def sampleTable : List String :=
  ["S ; _ ; N0 | N1",
    "N0 ; ka | ki | ko(2) | ta | to ; N1(2) | N2 | O",
    "N1 ; a | e(3) | i | o ; N0(3) | N2(2)",
    "N2 ; n | r | sh ; N1 | O"]

/-- Twenty words of three to eight characters, where the visited node's links count against
stopping. -/
def request : Request := { Request.ofLengths 20 3 8 with stopBias := .current }

def seed : UInt64 := 2024

def parallelCount : UInt64 := 100

def parallelSeed : UInt64 := 7

def candidates : List String := ["kaeshka", "toan", "xyz", ""]

def wordLines (number : Nat) : List String → List String
  | [] => []
  | word :: rest => s!"Generated word {number}: {word}" :: wordLines (number + 1) rest

def shortfallLines (generation : Generation) : List String :=
  if generation.isComplete then []
  else [s!"Only {generation.size} of {generation.requested} words could be generated"]

/-- All that is printed about a language. -/
def lines (g : Graph) (cpus : Nat) : Except Failure (List String) := do
  let generation ← ((g.generate request).run (Seeded.ofSeed seed)).1.result
  let parallel ← g.generateParallel (request.withCount parallelCount) parallelSeed cpus
  let verdicts ← candidates.mapM fun word => do
    return s!"'{word}' valid: {← g.isValid word}"
  return s!"Language '{g.name}' with {g.size} nodes" :: wordLines 1 generation.words ++
    shortfallLines generation ++
    s!"Parallel generation produced {parallel.size} words" :: verdicts

/-- The files with a table in them: the sample is written when there is none. -/
def ensureTable (files : FileTree) (time : Nat) : Except Failure FileTree :=
  if (files.stamp? tablePath).isSome then .ok files
  else
    let made := files.makeDirectories (.ofString "./data")
    match made.failure with
    | some cause => .error (.file cause)
    | none => (Graph.ofTable sampleTable).save made.files tablePath time

/-- Opens the table, generates words and checks some, and writes the table back in its normal
form. -/
def run (files : FileTree) (cpus time : Nat) : Showing :=
  match ensureTable files time with
  | .error cause => ⟨[], files, some cause⟩
  | .ok files =>
    let opened := Graph.openTable files tablePath time
    let files := opened.files
    match opened.graph with
    | .error cause => ⟨[], files, some cause⟩
    | .ok g =>
      match lines g cpus with
      | .error cause => ⟨[], files, some cause⟩
      | .ok output =>
        match g.save files tablePath time with
        | .error cause => ⟨output, files, some cause⟩
        | .ok files => ⟨output, files, none⟩

end Demo

end PseudoWord
