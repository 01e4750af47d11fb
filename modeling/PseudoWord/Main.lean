import PseudoWord.Demo

namespace PseudoWord

/-- The contents of a file of the data directory, with its time in nanoseconds. -/
def readDataFile (name : String) : IO (Option FileItem) := do
  let path := (← IO.currentDir) / "data" / name
  if ← path.isDir then return some .directory
  if !(← path.pathExists) then return none
  let bytes ← IO.FS.readBinFile path
  let modified := (← path.metadata).modified
  return some (.file bytes.toList (modified.sec.toNat * 1000000000 + modified.nsec.toNat))

def dataFiles : List String := ["syllables.csv", "syllables.bin"]

def dataLocation (name : String) : Location := ["data".toList, name.toList]

def readDataFiles : IO FileTree :=
  dataFiles.foldlM (fun files name => do
    match ← readDataFile name with
    | some item => return (files.put ["data".toList] .directory).put (dataLocation name) item
    | none => return files) .empty

/-- Writes the files that differ from what they were. -/
def writeDataFiles (before after : FileTree) : IO Unit :=
  dataFiles.forM fun name => do
    match before.item? (dataLocation name), after.item? (dataLocation name) with
    | old, some (.file bytes modified) =>
      if old != some (.file bytes modified) then
        let directory := (← IO.currentDir) / "data"
        IO.FS.createDirAll directory
        IO.FS.writeBinFile (directory / name) bytes.toByteArray
    | _, _ => return ()

/-- A time after that of every file. -/
def timeAfter (files : FileTree) : Nat :=
  files.items.foldl (fun time item =>
    match item.2 with
    | .file _ modified => max time (modified + 1)
    | .directory => time) 0

def processorCount : IO Nat := do
  try
    let text ← IO.FS.readFile "/proc/cpuinfo"
    return max 1 ((splitLines text).filter (·.startsWith "processor")).length
  catch _ => return 1

end PseudoWord

def main : IO UInt32 := do
  let before ← PseudoWord.readDataFiles
  let showing := PseudoWord.Demo.run before (← PseudoWord.processorCount)
    (PseudoWord.timeAfter before)
  showing.output.forM IO.println
  PseudoWord.writeDataFiles before showing.files
  match showing.failure with
  | none => return 0
  | some cause =>
    IO.eprintln s!"Error: {cause.message}"
    return 1
