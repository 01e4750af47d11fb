import PseudoWord.Failure
import PseudoWord.Node

namespace PseudoWord

inductive Level where
  | trace
  | debug
  | warn
deriving DecidableEq

def Level.label : Level → String
  | .trace => "TRACE"
  | .debug => "DEBUG"
  | .warn => "WARN"

/-- A record of something that happened and that an answer does not show. -/
inductive Note where
  | malformedRow (line : String)
  | rowWithoutId (line : String)
  | malformedLink (item : String) (id : NodeId)
  | malformedFragment (item : String) (id : NodeId)
  | walkStarted (run : Nat) (id : NodeId) (text : String)
  | visited (id : NodeId) (fragment : Option String)
  | walkEnded (text : String)
  | unknownNode (origin id : NodeId)
  | walkTooLong (origin : NodeId) (maxSteps : UInt64)
  | noStartNode (language : String)
  | roundStarted (number batch found : Nat)
  | unreadable (path : String) (cause : FileError)
  | snapshotUsed (path : String)
  | tableParsed (path : String)
  | snapshotNotWritten (path : String) (cause : Failure)
  | tableNotWritten (path : String) (cause : Failure)
deriving DecidableEq

namespace Note

def level : Note → Level
  | .walkStarted .. => .trace
  | .visited .. => .trace
  | .walkEnded .. => .trace
  | .noStartNode .. => .warn
  | .snapshotNotWritten .. => .warn
  | .tableNotWritten .. => .warn
  | _ => .debug

def message : Note → String
  | .malformedRow line => s!"skipping malformed row: {line}"
  | .rowWithoutId line => s!"skipping node row without id: {line}"
  | .malformedLink item id => s!"skipping malformed link '{item}' of {id.label}"
  | .malformedFragment item id => s!"skipping malformed fragment '{item}' of {id.label}"
  | .walkStarted run id text => s!"{run}: ({id.value}){text}"
  | .visited id (some fragment) => s!" + ({id.value}):{fragment}"
  | .visited id none => s!" + ({id.value}) no fragment"
  | .walkEnded text => s!" = {text}"
  | .unknownNode origin id => s!"walk from {origin.label} reached unknown node {id.label}"
  | .walkTooLong origin maxSteps => s!"walk from {origin.label} exceeded {maxSteps} steps, discarded"
  | .noStartNode language => s!"language '{language}' has no initializer node"
  | .roundStarted number batch found => s!"round {number}: {batch} walks, {found} words so far"
  | .unreadable path cause => s!"could not read {path}: {cause.message}"
  | .snapshotUsed path => s!"loading snapshot {path}"
  | .tableParsed path => s!"no fresh snapshot for {path}, parsing table"
  | .snapshotNotWritten path cause => s!"could not write snapshot {path}: {cause.message}"
  | .tableNotWritten path cause => s!"could not write transition table {path}: {cause.message}"

def line (note : Note) : String := s!"{note.level.label} {note.message}"

end Note

end PseudoWord
