import PseudoWord.Graph.Basic

namespace PseudoWord

/-- The outcome of a request to change a graph: whether it was accepted, and the graph after it. -/
structure Change where
  accepted : Bool
  graph : Graph

namespace Graph

/-- The first number that a list of ascending keys leaves out, counting up from `candidate`. -/
def lowestGap (candidate : UInt64) : List UInt64 → UInt64
  | [] => candidate
  | key :: rest => if candidate = key then lowestGap (candidate + 1) rest else candidate

/-- One past the highest id; once the largest number is taken, the lowest id that is free. -/
def nextFreeId (g : Graph) : NodeId :=
  match g.nodes.keys.getLast? with
  | none => ⟨0⟩
  | some last =>
    if last.toNat + 1 < UInt64.size then ⟨last + 1⟩ else ⟨lowestGap 0 g.nodes.keys⟩

/-- Stores a node under an id and forgets the start nodes. -/
def put (g : Graph) (id : NodeId) (n : Node) : Graph :=
  { g with nodes := g.nodes.insert id.value n, starts := none }

/-- Adds a node under the next free id that emits each of the fragments with weight 1. -/
def createNode (g : Graph) (fragments : List String) : NodeId × Graph :=
  let id := g.nextFreeId
  (id, g.put id (.ofFragments id fragments))

/-- The node under an id, or an empty one when there is none yet. -/
def nodeOrNew (g : Graph) (id : NodeId) : Node := (g.node? id).getD (.empty id)

/-- Makes sure that there is a node under an id, and forgets the start nodes. -/
def ensureNode (g : Graph) (id : NodeId) : Graph := g.put id (g.nodeOrNew id)

/-- Changes the node under an id. The request is refused when there is no such node or when `f`
refuses; in the second case the start nodes are forgotten all the same. -/
def updateNode (g : Graph) (id : NodeId) (f : Node → Option Node) : Change :=
  match g.node? id with
  | none => ⟨false, g⟩
  | some n => ⟨(f n).isSome, g.put id ((f n).getD n)⟩

def addFragment (g : Graph) (id : NodeId) (fragment : String) (weight : Int64) : Change :=
  g.updateNode id (·.addFragment? fragment weight)

/-- Adds a link. The node that it leads to is created when it is missing; a missing first node or a
weight that is not positive is refused before that. -/
def addLink (g : Graph) (source target : NodeId) (weight : Int64) : Change :=
  if g.nodes.contains source.value && decide (0 < weight) then
    (g.ensureNode target).updateNode source (·.addLink? target weight)
  else ⟨false, g⟩

def setProperties (g : Graph) (id : NodeId) (initializing terminating : Bool) : Change :=
  g.updateNode id (fun n => some (n.setFlags initializing terminating))

end Graph

end PseudoWord
