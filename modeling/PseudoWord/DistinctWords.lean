import Std.Data.HashSet

namespace PseudoWord

/-- Distinct words, the latest first, with a set to look them up in. -/
structure DistinctWords where
  latest : List String
  seen : Std.HashSet String

namespace DistinctWords

def empty : DistinctWords := ⟨[], ∅⟩

/-- Adds a word at the end, unless it is there. -/
def insert (found : DistinctWords) (word : String) : DistinctWords :=
  if found.seen.contains word then found
  else ⟨word :: found.latest, found.seen.insert word⟩

def insertAll (found : DistinctWords) (words : List String) : DistinctWords :=
  words.foldl insert found

def size (found : DistinctWords) : Nat := found.latest.length

/-- The words in the order in which they were found. -/
def toList (found : DistinctWords) : List String := found.latest.reverse

theorem toList_insert (found : DistinctWords) (word : String) :
    (found.insert word).toList =
      if found.seen.contains word then found.toList else found.toList ++ [word] := by
  rw [insert]
  split
  · rfl
  · exact List.reverse_cons

end DistinctWords

end PseudoWord
