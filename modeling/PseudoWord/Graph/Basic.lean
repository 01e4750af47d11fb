import PseudoWord.Failure
import PseudoWord.Node

namespace PseudoWord

/-- A language: its nodes by id, and the start nodes as they were when the graph was last prepared.
Any change to a node forgets the start nodes until the graph is prepared again. -/
structure Graph where
  name : String
  nodes : KeyMap Node
  starts : Option (List NodeId)
deriving DecidableEq

namespace Graph

def named (name : String) : Graph := ⟨name, .empty, none⟩

def empty : Graph := named ""

instance : Inhabited Graph := ⟨empty⟩

def setName (g : Graph) (name : String) : Graph := { g with name }

def node? (g : Graph) (id : NodeId) : Option Node := g.nodes.get? id.value

/-- The nodes in ascending order of their ids. -/
def nodeList (g : Graph) : List Node := g.nodes.values

def size (g : Graph) : Nat := g.nodes.size

def isEmpty (g : Graph) : Bool := g.nodes.isEmpty

def isPrepared (g : Graph) : Bool := g.starts.isSome

/-- The ids of the nodes that are flagged as initializing, in ascending order. -/
def initializingIds (g : Graph) : List NodeId :=
  (g.nodeList.filter (·.initializing)).map (·.id)

def prepare (g : Graph) : Graph := { g with starts := some g.initializingIds }

def initializers (g : Graph) : Except Failure (List NodeId) :=
  match g.starts with
  | some ids => .ok ids
  | none => .error .unprepared

/-- Two graphs are the same language when they hold the same nodes under the same ids. Their names,
run counters and preparation do not matter. -/
def Same (a b : Graph) : Prop := a.nodes.map Node.identity = b.nodes.map Node.identity

instance (a b : Graph) : Decidable (a.Same b) :=
  inferInstanceAs (Decidable (a.nodes.map Node.identity = b.nodes.map Node.identity))

/-- Counts one more walk from a node. This is not a change to the language. -/
def countRun (g : Graph) (id : NodeId) : Graph :=
  { g with nodes := g.nodes.adjust id.value (fun n => { n with runs := n.runs + 1 }) }

end Graph

end PseudoWord
