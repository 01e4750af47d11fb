import PseudoWord.Graph.Basic

namespace PseudoWord

/-- The bytes of a snapshot. -/
abbrev Bytes := List UInt8

namespace Snapshot

/-- A number in groups of seven bits, the lowest first; every byte but the last has its high bit
set. -/
def varint (value : Nat) : Bytes :=
  if value < 128 then [value.toUInt8]
  else (value % 128 + 128).toUInt8 :: varint (value / 128)
termination_by value
decreasing_by omega

def word (value : UInt64) : Bytes := varint value.toNat

def flag (value : Bool) : Bytes := if value then [1] else [0]

/-- The number of UTF-8 bytes, then the bytes. -/
def text (value : String) : Bytes :=
  let bytes := value.toUTF8.data.toList
  varint bytes.length ++ bytes

/-- The number of entries, then each key with its value in ascending order. -/
def map {α : Type} (item : α → Bytes) (m : KeyMap α) : Bytes :=
  varint m.size ++ m.entries.flatMap (fun entry => word entry.1 ++ item entry.2)

def weightedSet {α : Type} (item : α → Bytes) (s : WeightedSet α) : Bytes :=
  map item s.entries ++ word s.total

def nodeId (id : NodeId) : Bytes := word id.value

/-- A node without its run counter. The flag for terminating is written as it is set. -/
def node (n : Node) : Bytes :=
  nodeId n.id ++ weightedSet text n.fragments ++ weightedSet nodeId n.links ++
    flag n.initializing ++ flag n.terminating

end Snapshot

/-- The snapshot of a graph: its name and its nodes. -/
def Graph.snapshot (g : Graph) : Bytes := Snapshot.text g.name ++ Snapshot.map Snapshot.node g.nodes

end PseudoWord
