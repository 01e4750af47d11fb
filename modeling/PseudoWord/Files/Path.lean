namespace PseudoWord

/-- A part of a path between two slashes. -/
abbrev PathPart := List Char

/-- A path as it is written, cut at its slashes. Empty parts and dots are kept. -/
structure Path where
  parts : List PathPart
deriving DecidableEq

namespace Path

def dot : PathPart := ['.']

def dotDot : PathPart := ['.', '.']

/-- Whether a part says nothing about where a path leads. -/
def isIdle (part : PathPart) : Bool := part.isEmpty || part == dot

def ofString (text : String) : Path := ⟨text.toList.splitOn '/'⟩

def text (p : Path) : List Char := ['/'].intercalate p.parts

def toString (p : Path) : String := String.ofList p.text

theorem toString_ofString (text : String) : (ofString text).toString = text := by
  rw [toString, Path.text, ofString, List.intercalate_splitOn, String.ofList_toList]

/-- The bytes that a text takes in UTF-8. -/
def byteCount (text : List Char) : Nat := text.foldl (fun bytes c => bytes + c.utf8Size) 0

/-- Whether a part is longer than the 255 bytes that the name of a file or directory may have. -/
def isLongName (part : PathPart) : Bool := decide (255 < byteCount part)

/-- Whether a path is longer than the 4095 bytes that a path may have. -/
def isLong (p : Path) : Bool := decide (4095 < byteCount p.text)

def hasNull (p : Path) : Bool := p.text.contains '\x00'

/-- Parts in reverse order without those at the end of the path that say nothing. The first part of a
path stays, whatever it is. -/
def dropIdle : List PathPart → List PathPart
  | part :: before =>
    if !before.isEmpty && isIdle part then dropIdle before else part :: before
  | [] => []

/-- The parts before the last one that says something, and that part, when it is a name. -/
def splitName? (p : Path) : Option (List PathPart × PathPart) :=
  match dropIdle p.parts.reverse with
  | name :: before =>
    if isIdle name || name == dotDot then none else some (before.reverse, name)
  | [] => none

/-- A file name without its extension, which starts at the last dot. A dot that begins the name begins
no extension. -/
def stemOf (name : PathPart) : PathPart :=
  match name.reverse.dropWhile (· != '.') with
  | _ :: before => if before.isEmpty then name else before.reverse
  | [] => name

def stem? (p : Path) : Option PathPart := p.splitName?.map (fun split => stemOf split.2)

/-- The parts of the directory that a path with a name is in. -/
def parentParts (before : List PathPart) : List PathPart := (dropIdle before.reverse).reverse

/-- Puts an extension in the place of the one that the name has, if the path has a name. -/
def withExtension (p : Path) (extension : List Char) : Path :=
  match p.splitName? with
  | some (before, name) => ⟨before ++ [stemOf name ++ '.' :: extension]⟩
  | none => p

/-- The file beside `p` that holds what is derived from it: the stem of `p` in the same directory,
given another extension. -/
def derived? (p : Path) (extension : List Char) : Option Path :=
  p.splitName?.map fun split =>
    withExtension ⟨parentParts split.1 ++ [stemOf split.2]⟩ extension

end Path

end PseudoWord
