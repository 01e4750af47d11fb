namespace PseudoWord

/-- Why a file could not be read or written. -/
inductive FileError where
  | notFound
  | notADirectory
  | isADirectory
  | nameTooLong
  | nullInName
  | noFileName
  | invalidText
deriving DecidableEq

def FileError.message : FileError → String
  | .notFound => "No such file or directory (os error 2)"
  | .notADirectory => "Not a directory (os error 20)"
  | .isADirectory => "Is a directory (os error 21)"
  | .nameTooLong => "File name too long (os error 36)"
  | .nullInName => "file name contained an unexpected NUL byte"
  | .noFileName => "Input path has no filename"
  | .invalidText => "stream did not contain valid UTF-8"

/-- Why bytes are not a snapshot. -/
inductive SnapshotError where
  | endOfInput
  | longVarint
  | badBool
  | badText
deriving DecidableEq

def SnapshotError.message : SnapshotError → String
  | .endOfInput => "Hit the end of buffer, expected more data"
  | .longVarint =>
    "Found a varint that didn't terminate. Is the usize too big for this platform?"
  | .badBool => "Found a bool that wasn't 0 or 1"
  | .badText => "Tried to parse invalid utf-8"

/-- Every way in which an operation on languages can end without a result. All but the last are errors
that the operation returns; the last is a crash, from which nothing returns: a list was read at a place
behind its end. Malformed table rows and refused weights are not failures: they are skipped. -/
inductive Failure where
  | invalidRange (low high : UInt64)
  | unprepared
  | file (cause : FileError)
  | snapshot (cause : SnapshotError)
  | outOfBounds (index : UInt64) (length : Nat)
deriving DecidableEq

def Failure.message : Failure → String
  | .invalidRange low high => s!"invalid bounds for min/max: [{low}, {high}]"
  | .unprepared => "language graph changed since the last prepare()"
  | .file cause => s!"i/o error: {cause.message}"
  | .snapshot cause => s!"snapshot error: {cause.message}"
  | .outOfBounds index length =>
    s!"index out of bounds: the len is {length} but the index is {index}"

end PseudoWord
