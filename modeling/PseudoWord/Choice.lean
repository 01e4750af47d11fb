import PseudoWord.Node
import PseudoWord.Sampler

namespace PseudoWord

variable {σ : Type} [Source σ]

/-- Draws an item in proportion to its weight. An empty set gives none and asks for nothing. -/
@[inline]
def WeightedSet.choose {α : Type} (s : WeightedSet α) : Draws σ (Option α) :=
  if s.isEmpty then pure none
  else do
    let draw ← Draws.range 0 (s.total - 1)
    return s.sample draw

namespace Node

/-- The fragment that a visit emits. -/
@[inline]
def emit (n : Node) : Draws σ (Option String) := n.fragments.choose

/-- The node to visit next. -/
@[inline]
def chooseLink (n : Node) : Draws σ (Option NodeId) := n.links.choose

/-- The number of links. A set in memory never has so many items that the bound is reached, and one
more than this number is a number of 64 bits again. -/
def fanOut (n : Node) : UInt64 := (min n.links.size (UInt64.size - 2)).toUInt64

/-- Whether the walk ends here whatever its length: there is no way on, or a flagged node wins a draw
against the number of its links. -/
@[inline]
def stops (n : Node) : Draws σ Bool :=
  if n.links.isEmpty then pure true
  else if n.terminating then Draws.isZero (n.fanOut + 1)
  else pure false

end Node

end PseudoWord
