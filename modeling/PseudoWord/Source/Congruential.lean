import PseudoWord.Source.Basic

namespace PseudoWord

/-- A linear congruential generator; the bits from 16 up are folded into the range. -/
structure Congruential where
  state : UInt64

namespace Congruential

def next (g : Congruential) : Congruential :=
  ⟨g.state * 6364136223846793005 + 1442695040888963407⟩

instance : Source Congruential where
  draw low high g :=
    if high < low then (.error (.invalidRange low high), g)
    else (.ok (foldIntoRange low high (g.next.state >>> 16)), g.next)

end Congruential

end PseudoWord
