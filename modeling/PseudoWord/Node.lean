import PseudoWord.WeightedSet
import PseudoWord.Text.Numeral
import PseudoWord.Text.WordChar

namespace PseudoWord

/-- The stable name of a node inside its graph, written with a leading N. -/
structure NodeId where
  value : UInt64
deriving DecidableEq, Hashable

def NodeId.text (id : NodeId) : List Char := 'N' :: numeral id.value.toNat

def NodeId.label (id : NodeId) : String := String.ofList id.text

/-- One state of a language. A visit emits one of the weighted fragments, if there are any, and then
follows one of the weighted links. `runs` counts the walks that started here. -/
structure Node where
  id : NodeId
  fragments : WeightedSet String
  links : WeightedSet NodeId
  initializing : Bool
  terminating : Bool
  runs : Nat
deriving DecidableEq

namespace Node

def empty (id : NodeId) : Node := ⟨id, .empty, .empty, false, false, 0⟩

/-- Whether a word may end here: the node is flagged so, or nothing leads on. -/
def isTerminating (n : Node) : Bool := n.terminating || n.links.isEmpty

/-- Adds a fragment. One that is not a run of word characters is refused, and so is one whose weight
the set of fragments refuses. -/
def addFragment? (n : Node) (fragment : String) (weight : Int64) : Option Node :=
  if isWordText fragment.toList then
    (n.fragments.insert? fragment weight).map (fun fragments => { n with fragments })
  else none

def addLink? (n : Node) (target : NodeId) (weight : Int64) : Option Node :=
  (n.links.insert? target weight).map (fun links => { n with links })

def addFragment (n : Node) (fragment : String) (weight : Int64) : Node :=
  (n.addFragment? fragment weight).getD n

def addLink (n : Node) (target : NodeId) (weight : Int64) : Node :=
  (n.addLink? target weight).getD n

/-- A node that emits each of the fragments with weight 1. -/
def ofFragments (id : NodeId) (fragments : List String) : Node :=
  fragments.foldl (fun n fragment => n.addFragment fragment 1) (empty id)

def setFlags (n : Node) (initializing terminating : Bool) : Node :=
  { n with initializing, terminating }

/-- What two nodes must share to count as the same. The run counter is left out, and a node without
links is as terminating as a flagged one. -/
structure Identity where
  id : NodeId
  initializing : Bool
  terminating : Bool
  fragments : WeightedSet String
  links : WeightedSet NodeId
deriving DecidableEq

def identity (n : Node) : Identity :=
  ⟨n.id, n.initializing, n.isTerminating, n.fragments, n.links⟩

end Node

end PseudoWord
