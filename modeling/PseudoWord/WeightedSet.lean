import PseudoWord.KeyMap

namespace PseudoWord

/-- One past the largest weight that a signed 64-bit number can be. -/
def weightBound : Nat := 9223372036854775808

/-- Items with weights. Each item stands under the running total reached when it was added, so a
uniform number below the total picks an item in proportion to its weight. -/
structure WeightedSet (α : Type) where
  entries : KeyMap α
  total : UInt64
deriving DecidableEq

namespace WeightedSet

variable {α : Type}

def empty : WeightedSet α := ⟨.empty, 0⟩

instance : Inhabited (WeightedSet α) := ⟨empty⟩

/-- Adds an item. A weight that is not positive, or that would carry the total past the largest
64-bit number, is refused. -/
def insert? (s : WeightedSet α) (item : α) (weight : Int64) : Option (WeightedSet α) :=
  if 0 < weight ∧ s.total.toNat + weight.toUInt64.toNat < UInt64.size then
    let total := s.total + weight.toUInt64
    some ⟨s.entries.insert total item, total⟩
  else none

theorem insert?_isSome_iff (s : WeightedSet α) (item : α) (weight : Int64) :
    (s.insert? item weight).isSome = true ↔
      0 < weight ∧ s.total.toNat + weight.toUInt64.toNat < UInt64.size := by
  rw [insert?]
  split
  · rename_i accepted
    exact ⟨fun _ => accepted, fun _ => rfl⟩
  · rename_i refused
    exact ⟨fun impossible => Bool.noConfusion impossible, fun accepted => absurd accepted refused⟩

/-- Adds an item, or leaves the set as it is when the weight is refused. -/
def insert (s : WeightedSet α) (item : α) (weight : Int64) : WeightedSet α :=
  (s.insert? item weight).getD s

def size (s : WeightedSet α) : Nat := s.entries.size

def isEmpty (s : WeightedSet α) : Bool := s.entries.isEmpty

/-- The item at exactly this running total. -/
def get? (s : WeightedSet α) (key : UInt64) : Option α := s.entries.get? key

/-- The item at the smallest running total above `draw`. -/
def sample (s : WeightedSet α) (draw : UInt64) : Option α :=
  (s.entries.above? draw).map (·.2)

def values (s : WeightedSet α) : List α := s.entries.values

/-- The items of an ascending list with the steps between neighbouring keys. -/
def steps (previous : UInt64) : List (UInt64 × α) → List (α × UInt64)
  | [] => []
  | entry :: rest => (entry.2, entry.1 - previous) :: steps entry.1 rest

/-- The items with their weights, in the order in which they were added. -/
def weighted (s : WeightedSet α) : List (α × UInt64) := steps 0 s.entries.entries

end WeightedSet

end PseudoWord
