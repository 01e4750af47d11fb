namespace PseudoWord

/-- The node whose number of links feeds the stop test of a walk that is long enough. -/
inductive StopBias where
  | origin
  | current
deriving DecidableEq, Inhabited

/-- What words are asked for. The lengths are counted in characters and are soft bounds; `maxTries`
bounds the rounds and `maxSteps` the links that one walk follows. -/
structure Request where
  count : UInt64
  minLength : UInt64
  maxLength : UInt64
  maxTries : UInt64
  maxSteps : UInt64
  stopBias : StopBias
deriving DecidableEq

namespace Request

def defaultTries : UInt64 := 10

def defaultSteps : UInt64 := 10000

def ofLengths (count minLength maxLength : UInt64) : Request :=
  ⟨count, minLength, maxLength, defaultTries, defaultSteps, .origin⟩

def withCount (r : Request) (count : UInt64) : Request := { r with count }

/-- How far a word of this length is from one past the longest wanted, as a 64-bit number. -/
def room (r : Request) (length : Nat) : UInt64 :=
  (min (r.maxLength.toNat + 1) (UInt64.size - 1) - length).toUInt64

end Request

/-- The words that a request was answered with. -/
structure Generation where
  words : List String
  requested : UInt64
deriving DecidableEq

namespace Generation

def empty : Generation := ⟨[], 0⟩

def size (a : Generation) : Nat := a.words.length

def isEmpty (a : Generation) : Bool := a.words.isEmpty

def isComplete (a : Generation) : Bool := decide (a.requested.toNat ≤ a.size)

def shortfall (a : Generation) : Nat := a.requested.toNat - a.size

end Generation

end PseudoWord
