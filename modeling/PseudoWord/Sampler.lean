import PseudoWord.Failure

namespace PseudoWord

/-- Something that answers requests for a number between two bounds, both included. A request may
fail, and it leaves the source in another state. -/
class Source (σ : Type) where
  draw : UInt64 → UInt64 → σ → Except Failure UInt64 × σ

/-- A computation that draws from a source and leaves it in another state. -/
abbrev Sampler (σ α : Type) : Type := StateM σ α

/-- A computation that ends with the first request that fails. -/
abbrev Draws (σ α : Type) : Type := ExceptT Failure (StateM σ) α

namespace Draws

variable {σ : Type} [Source σ]

/-- A number between two bounds. -/
@[inline]
def range (low high : UInt64) : Draws σ UInt64 := ExceptT.mk (Source.draw low high)

/-- Whether a number drawn from zero to `high` is zero. -/
@[inline]
def isZero (high : UInt64) : Draws σ Bool := do
  let draw ← range 0 high
  return draw == 0

end Draws

end PseudoWord
