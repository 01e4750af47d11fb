import PseudoWord.Files.Lines
import PseudoWord.Files.Tree
import PseudoWord.Note.Table
import PseudoWord.Snapshot.Decode
import PseudoWord.Table.Export
import PseudoWord.Table.Import

namespace PseudoWord

namespace FileTree

/-- The text of a file. -/
def readText (t : FileTree) (p : Path) : Except FileError String := do
  match String.fromUTF8? (← t.read p).toByteArray with
  | some text => return text
  | none => throw .invalidText

/-- The lines of a file; one that cannot be read has none, as an empty one. -/
def readLines (t : FileTree) (p : Path) : List String :=
  match t.readText p with
  | .ok text => splitLines text
  | .error _ => []

/-- The note of a file that cannot be read. -/
def readNotes (t : FileTree) (p : Path) : List Note :=
  match t.readText p with
  | .ok _ => []
  | .error cause => [.unreadable p.toString cause]

/-- Writes a file, with the failure as one of languages. -/
def store (t : FileTree) (p : Path) (bytes : Bytes) (time : Nat) : Except Failure FileTree :=
  (t.write p bytes time).mapError .file

/-- Replaces a file by lines, each ended by a line feed. -/
def writeLines (t : FileTree) (p : Path) (lines : List String) (time : Nat) :
    Except Failure FileTree :=
  t.store p (joinLines lines).toUTF8.data.toList time

end FileTree

namespace Path

/-- The name of the language whose table is in a file: the stem, or nothing for a path without a
name. -/
def languageName (p : Path) : String := String.ofList (p.stem?.getD [])

/-- The snapshot that belongs to a table. -/
def snapshot? (p : Path) : Option Path := p.derived? ['b', 'i', 'n']

end Path

namespace Graph

/-- The prepared graph of the table in a file, named after the file. A file that cannot be read gives
an empty graph. -/
def load (t : FileTree) (p : Path) : Graph := (ofTable (t.readLines p)).setName p.languageName

def loadNotes (t : FileTree) (p : Path) : List Note :=
  t.readNotes p ++ (t.readLines p).flatMap Note.ofLine

def save (g : Graph) (t : FileTree) (p : Path) (time : Nat) : Except Failure FileTree :=
  t.writeLines p g.table time

def saveNotes (g : Graph) (t : FileTree) (p : Path) (time : Nat) : List Note :=
  match g.save t p time with
  | .ok _ => []
  | .error cause => [.tableNotWritten p.toString cause]

def saveSnapshot (g : Graph) (t : FileTree) (p : Path) (time : Nat) : Except Failure FileTree :=
  t.store p g.snapshot time

def loadSnapshot (t : FileTree) (p : Path) : Except Failure Graph := do
  ofSnapshot (← (t.read p).mapError .file)

end Graph

/-- What opening a table gives, and the files after it. -/
structure Opened where
  graph : Except Failure Graph
  files : FileTree
  notes : List Note

namespace Graph

/-- Reads a table anew and writes its snapshot; that the snapshot cannot be written does no harm. -/
def refresh (t : FileTree) (p snapshot : Path) (time : Nat) : Opened :=
  let g := load t p
  let notes := .tableParsed p.toString :: loadNotes t p
  match g.saveSnapshot t snapshot time with
  | .ok files => ⟨.ok g, files, notes⟩
  | .error cause => ⟨.ok g, t, notes ++ [.snapshotNotWritten snapshot.toString cause]⟩

/-- The language of a table: from its snapshot when that is fresh, and otherwise from the table. -/
def openTable (t : FileTree) (p : Path) (time : Nat) : Opened :=
  match p.snapshot? with
  | none => ⟨.error (.file .noFileName), t, []⟩
  | some snapshot =>
    if t.isFresh snapshot p then
      ⟨(loadSnapshot t snapshot).map (·.setName p.languageName), t,
        [.snapshotUsed snapshot.toString]⟩
    else refresh t p snapshot time

end Graph

end PseudoWord
