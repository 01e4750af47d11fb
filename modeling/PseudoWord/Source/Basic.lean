import PseudoWord.Sampler

namespace PseudoWord

/-- Folds a number into a range by taking it modulo the range's width. -/
def foldIntoRange (low high value : UInt64) : UInt64 :=
  (low.toNat + value.toNat % (high.toNat - low.toNat + 1)).toUInt64

/-- One request and its answer; a request that failed has none. -/
structure Draw where
  low : UInt64
  high : UInt64
  value : Option UInt64
deriving DecidableEq

/-- A source together with the requests made of it, the latest first. -/
structure Traced (σ : Type) where
  source : σ
  latest : List Draw

namespace Traced

variable {σ : Type}

def start (source : σ) : Traced σ := ⟨source, []⟩

/-- The requests in the order in which they were made. -/
def trace (t : Traced σ) : List Draw := t.latest.reverse

instance [Source σ] : Source (Traced σ) where
  draw low high t :=
    match Source.draw low high t.source with
    | (answer, rest) => (answer, ⟨rest, ⟨low, high, answer.toOption⟩ :: t.latest⟩)

end Traced

end PseudoWord
