import PseudoWord.Failure
import PseudoWord.Files.Path
import PseudoWord.Snapshot.Encode

namespace PseudoWord

/-- The names that lead from the working directory to a file or directory. -/
abbrev Location := List PathPart

inductive FileItem where
  | directory
  | file (bytes : Bytes) (modified : Nat)
deriving DecidableEq

/-- The files and directories below a working directory. -/
structure FileTree where
  items : List (Location × FileItem)

/-- What a path leads to: something that is there, a name that is still free in a directory, or one
that is too long for anything to have it. The name of what is not a directory may have been written
as one, with a slash after it. -/
inductive Spot where
  | directory (place : Location)
  | file (place : Location) (bytes : Bytes) (modified : Nat) (asDirectory : Bool)
  | vacant (place : Location) (asDirectory : Bool)
  | unnameable (asDirectory : Bool)
deriving DecidableEq

namespace FileTree

def empty : FileTree := ⟨[]⟩

def item? (t : FileTree) (place : Location) : Option FileItem :=
  (t.items.find? (fun item => item.1 == place)).map (·.2)

def put (t : FileTree) (place : Location) (item : FileItem) : FileTree :=
  ⟨(place, item) :: t.items.filter (fun old => old.1 != place)⟩

def erase (t : FileTree) (place : Location) : FileTree :=
  ⟨t.items.filter (fun old => old.1 != place)⟩

@[simp]
theorem item?_put_self (t : FileTree) (place : Location) (item : FileItem) :
    (t.put place item).item? place = some item := by
  simp [item?, put]

theorem item?_put_of_ne (t : FileTree) {place other : Location} (different : other ≠ place)
    (item : FileItem) : (t.put place item).item? other = t.item? other := by
  have skipped : (place == other) = false := beq_false_of_ne different.symm
  have kept (old : Location × FileItem) :
      decide ((old.1 != place) = true ∧ (old.1 == other) = true) = (old.1 == other) := by
    by_cases same : old.1 = other
    · simp [same, different]
    · simp [same]
  simp only [item?, put, List.find?_cons, skipped, List.find?_filter, kept]

/-- Follows parts from a directory. Every part but the last must lead to a directory, and a part that
says nothing or goes up must stand in one. There is nothing above the working directory. -/
def follow (t : FileTree) : Location → List PathPart → Except FileError Spot
  | place, [] => .ok (.directory place)
  | place, part :: rest =>
    if Path.isIdle part then t.follow place rest
    else if part == Path.dotDot then t.follow place.dropLast rest
    else if Path.isLongName part then
      if rest.all (·.isEmpty) then .ok (.unnameable !rest.isEmpty) else .error .nameTooLong
    else
      let next := place ++ [part]
      match t.item? next with
      | some .directory => t.follow next rest
      | some (.file bytes modified) =>
        if rest.all (·.isEmpty) then .ok (.file next bytes modified !rest.isEmpty)
        else .error .notADirectory
      | none =>
        if rest.all (·.isEmpty) then .ok (.vacant next !rest.isEmpty) else .error .notFound

/-- Why a path cannot be followed, wherever it leads. -/
def pathFault? (p : Path) : Option FileError :=
  if p.hasNull then some .nullInName else if p.isLong then some .nameTooLong else none

/-- What a path leads to. The empty path leads nowhere. -/
def locate (t : FileTree) (p : Path) : Except FileError Spot :=
  match pathFault? p with
  | some cause => .error cause
  | none =>
    if p.parts.all (·.isEmpty) && p.parts.length ≤ 1 then .error .notFound
    else t.follow [] p.parts

def read (t : FileTree) (p : Path) : Except FileError Bytes := do
  match ← t.locate p with
  | .directory _ => throw .isADirectory
  | .file _ bytes _ false => return bytes
  | .file _ _ _ true => throw .notADirectory
  | .vacant .. => throw .notFound
  | .unnameable _ => throw .nameTooLong

/-- Creates a file or replaces its contents. -/
def write (t : FileTree) (p : Path) (bytes : Bytes) (time : Nat) : Except FileError FileTree := do
  match ← t.locate p with
  | .file place _ _ false => return t.put place (.file bytes time)
  | .vacant place false => return t.put place (.file bytes time)
  | .unnameable false => throw .nameTooLong
  | _ => throw .isADirectory

def remove (t : FileTree) (p : Path) : Except FileError FileTree := do
  match ← t.locate p with
  | .directory _ => throw .isADirectory
  | .file place _ _ false => return t.erase place
  | .file _ _ _ true => throw .notADirectory
  | .vacant .. => throw .notFound
  | .unnameable _ => throw .nameTooLong

/-- Sets the time of a file, if there is one. -/
def touch (t : FileTree) (p : Path) (time : Nat) : FileTree :=
  match t.locate p with
  | .ok (.file place bytes _ false) => t.put place (.file bytes time)
  | _ => t

/-- The files after directories were to be made, and why the last of them are missing. -/
structure MadeDirectories where
  files : FileTree
  failure : Option FileError

/-- Makes the directories that parts lead through from a directory. Those that were made stay when a
later one cannot be. Where only idle parts follow and a dot is among them, the path asks for a
directory that is there already, so its last name is not made. -/
def makeThrough (t : FileTree) : Location → List PathPart → MadeDirectories
  | _, [] => ⟨t, none⟩
  | place, part :: rest =>
    if Path.isIdle part then t.makeThrough place rest
    else if part == Path.dotDot then t.makeThrough place.dropLast rest
    else if Path.isLongName part then ⟨t, some .nameTooLong⟩
    else
      let next := place ++ [part]
      match t.item? next with
      | some .directory => t.makeThrough next rest
      | some (.file ..) => ⟨t, some .notADirectory⟩
      | none =>
        if rest.all Path.isIdle && rest.contains Path.dot then ⟨t, some .notFound⟩
        else (t.put next .directory).makeThrough next rest

/-- Makes a directory and those above it. -/
def makeDirectories (t : FileTree) (p : Path) : MadeDirectories :=
  match pathFault? p with
  | some cause => ⟨t, some cause⟩
  | none => t.makeThrough [] p.parts

/-- When something was modified. Directories count as newer than every file. -/
inductive Stamp where
  | time (seconds : Nat)
  | newest
deriving DecidableEq

def Stamp.notBefore : Stamp → Stamp → Bool
  | .newest, _ => true
  | .time _, .newest => false
  | .time a, .time b => decide (b ≤ a)

def stamp? (t : FileTree) (p : Path) : Option Stamp :=
  match t.locate p with
  | .ok (.directory _) => some .newest
  | .ok (.file _ _ modified false) => some (.time modified)
  | _ => none

/-- Whether a file is there and was modified no earlier than the one it is derived from. When that one
is gone, it is fresh all the same. -/
def isFresh (t : FileTree) (derived source : Path) : Bool :=
  match t.stamp? derived, t.stamp? source with
  | none, _ => false
  | some _, none => true
  | some a, some b => a.notBefore b

/-- The paths of all files and directories in ascending order; those of directories end in a slash. -/
def listing (t : FileTree) : List String :=
  let paths := t.items.map fun item =>
    let path := ['/'].intercalate item.1
    String.ofList (if item.2 = .directory then path ++ ['/'] else path)
  paths.mergeSort (fun a b => decide (a ≤ b))

end FileTree

end PseudoWord
