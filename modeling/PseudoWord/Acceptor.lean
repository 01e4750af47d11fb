import Std.Data.HashSet
import PseudoWord.Graph.Basic

namespace PseudoWord

/-- A point in the search for a word: a node to visit, the id under which it was reached, and what is
left of the word. -/
structure Branch where
  reached : NodeId
  node : Node
  rest : List Char

/-- The state of a search: the branches still to be tried, the next one first, and the links that
were followed already, each as its target and the number of characters that were left. -/
structure Search where
  pending : List Branch
  seen : Std.HashSet (NodeId × Nat)

namespace Branch

/-- What is left of the word after the visit: one of the fragments is taken off its front, and a node
without fragments takes nothing. -/
def remainders (b : Branch) : List (List Char) :=
  if b.node.fragments.isEmpty then [b.rest]
  else b.node.fragments.values.filterMap (fun fragment => fragment.toList.isPrefixOf? b.rest)

/-- Whether the word may end with this visit. -/
def accepts (b : Branch) : Bool := b.node.isTerminating && b.remainders.any (·.isEmpty)

end Branch

namespace Search

/-- Follows one link with a remainder, unless that was done before. -/
def follow (g : Graph) (rest : List Char) (s : Search) (target : NodeId) : Search :=
  if s.seen.contains (target, rest.length) then s
  else
    let seen := s.seen.insert (target, rest.length)
    match g.node? target with
    | some node => ⟨⟨target, node, rest⟩ :: s.pending, seen⟩
    | none => ⟨s.pending, seen⟩

/-- Follows every link of a branch with every remainder. -/
def expand (g : Graph) (b : Branch) (s : Search) : Search :=
  b.remainders.foldl (fun s rest => b.node.links.values.foldl (follow g rest) s) s

/-- Tries branches until one accepts, or none is left, or `budget` of them have been tried. -/
def run (g : Graph) : Nat → Search → Bool
  | 0, _ => false
  | budget + 1, s =>
    match s.pending with
    | [] => false
    | b :: pending => b.accepts || run g budget (expand g b ⟨pending, s.seen⟩)

/-- Each node of the graph can be met once with each remainder, and the first branch comes on top. -/
def budget (g : Graph) (word : List Char) : Nat := 1 + g.size * (word.length + 1)

def start (n : Node) (word : List Char) : Search :=
  ⟨[⟨n.id, n, word⟩], Std.HashSet.ofList [(n.id, word.length)]⟩

end Search

/-- Whether a walk from a node could give the word. -/
def Node.canMake (n : Node) (g : Graph) (word : String) : Bool :=
  Search.run g (Search.budget g word.toList) (.start n word.toList)

namespace Graph

/-- Whether one of the initializing nodes can make the word. -/
def isValid (g : Graph) (word : String) : Except Failure Bool :=
  g.initializers.map (fun ids => (ids.filterMap g.node?).any (·.canMake g word))

end Graph

end PseudoWord
