import PseudoWord.Source.Basic

namespace PseudoWord

/-- A source that plays a list of numbers, each folded into the range that is asked for. It fails
once the list is used up, and on an empty range, which uses nothing. -/
structure Scripted where
  pending : List UInt64

instance : Source Scripted where
  draw low high s :=
    if high < low then (.error (.invalidRange low high), s)
    else match s.pending with
      | [] => (.error (.invalidRange low high), s)
      | value :: rest => (.ok (foldIntoRange low high value), ⟨rest⟩)

end PseudoWord
