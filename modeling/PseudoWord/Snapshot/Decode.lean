import PseudoWord.Failure
import PseudoWord.Snapshot.Encode

namespace PseudoWord

/-- Reads a value from the front of some bytes and leaves the others. -/
abbrev Reader : Type → Type := StateT Bytes (Except SnapshotError)

namespace Reader

def byte : Reader UInt8 := fun bytes =>
  match bytes with
  | [] => .error .endOfInput
  | first :: rest => .ok (first, rest)

/-- Groups of seven bits in at most `left` bytes. When the last of them may be reached it can only
hold 0 or 1. -/
def groups : Nat → Reader Nat
  | 0 => throw .longVarint
  | left + 1 => do
    let first ← byte
    if first < 128 then
      if left = 0 ∧ 1 < first then throw .longVarint
      return first.toNat
    let higher ← groups left
    return first.toNat % 128 + 128 * higher

/-- A number of up to 64 bits. -/
def varint : Reader Nat := groups 10

def word : Reader UInt64 := do return (← varint).toUInt64

def flag : Reader Bool := do
  match ← byte with
  | 0 => return false
  | 1 => return true
  | _ => throw .badBool

/-- The next `count` bytes. -/
def take (count : Nat) : Reader Bytes := fun bytes =>
  if bytes.length < count then .error .endOfInput else .ok (bytes.splitAt count)

def text : Reader String := do
  let bytes ← take (← varint)
  match String.fromUTF8? bytes.toByteArray with
  | some value => return value
  | none => throw .badText

variable {α : Type}

/-- So many keys with their values. A key that comes again replaces its value. -/
def entries (item : Reader α) : Nat → KeyMap α → Reader (KeyMap α)
  | 0, m => return m
  | left + 1, m => do
    let key ← word
    let value ← item
    entries item left (m.insert key value)

def map (item : Reader α) : Reader (KeyMap α) := do entries item (← varint) .empty

def weightedSet (item : Reader α) : Reader (WeightedSet α) := do return ⟨← map item, ← word⟩

def nodeId : Reader NodeId := do return ⟨← word⟩

def node : Reader Node := do
  let id ← nodeId
  let fragments ← weightedSet text
  let links ← weightedSet nodeId
  let initializing ← flag
  let terminating ← flag
  return ⟨id, fragments, links, initializing, terminating, 0⟩

def graph : Reader Graph := do
  let name ← text
  let nodes ← map node
  return ⟨name, nodes, none⟩

end Reader

/-- The prepared graph that a snapshot holds. Bytes after it are ignored. -/
def Graph.ofSnapshot (bytes : Bytes) : Except Failure Graph :=
  match Reader.graph.run bytes with
  | .ok (g, _) => .ok g.prepare
  | .error cause => .error (.snapshot cause)

end PseudoWord
