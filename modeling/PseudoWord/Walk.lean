import PseudoWord.Choice
import PseudoWord.Graph.Basic
import PseudoWord.Request.Basic

namespace PseudoWord

/-- A node that a walk came to, with the fragment that was emitted there. -/
structure Visit where
  node : NodeId
  fragment : Option String
deriving DecidableEq

def Visit.text (v : Visit) : String := v.fragment.getD ""

/-- How a walk ended. Only the first way gives a word. -/
inductive Ending where
  | word (text : String)
  | unknownNode (id : NodeId)
  | tooLong (maxSteps : UInt64)
  | failed (cause : Failure)
deriving DecidableEq

/-- A walk from its first node to its end. The trail holds every visit, the latest first. -/
structure Walk where
  origin : NodeId
  trail : List Visit
  ending : Ending
deriving DecidableEq

/-- The visits in the order in which they were made. -/
def Walk.visits (w : Walk) : List Visit := w.trail.reverse

/-- The word of a walk, nothing for one that was discarded, or the failure that broke it off. -/
def Walk.result (w : Walk) : Except Failure (Option String) :=
  match w.ending with
  | .word text => .ok (some text)
  | .unknownNode _ => .ok none
  | .tooLong _ => .ok none
  | .failed cause => .error cause

variable {σ : Type} [Source σ]

namespace Request

/-- The number of links that counts against stopping. -/
def biasedFanOut (r : Request) (origin current : Node) : UInt64 :=
  match r.stopBias with
  | .origin => origin.fanOut
  | .current => current.fanOut

/-- Whether a walk that has come to a node with a word of this length stops because the word is long
enough: the node is flagged as terminating, and one of two draws gives zero. -/
@[inline]
def stopsLong (r : Request) (origin current : Node) (length : Nat) : Draws σ Bool :=
  if current.terminating && decide (r.minLength.toNat ≤ length) then do
    if ← Draws.isZero (r.room length) then return true
    Draws.isZero (r.biasedFanOut origin current + 1)
  else pure false

/-- Both stop tests after a step: the one on the length, then that of the node. -/
@[inline]
def stopsAfter (r : Request) (origin current : Node) (length : Nat) : Draws σ Bool := do
  if ← r.stopsLong origin current length then return true
  current.stops

end Request

namespace Walk

/-- Follows links from `current` until a stop test succeeds. At most `budget` more links are
followed; `text` is what the visits of the trail emitted. The budget stands for a count of links that is
held against the limit, and is the same as long as that count cannot wrap: see `Node.runs_iff`. -/
@[specialize]
def follow (g : Graph) (r : Request) (origin : Node) :
    Nat → Node → List Visit → String → Sampler σ Walk
  | budget, current, trail, text => do
    match ← current.chooseLink.run with
    | .error cause => return ⟨origin.id, trail, .failed cause⟩
    | .ok none => return ⟨origin.id, trail, .word text⟩
    | .ok (some id) =>
      match g.node? id with
      | none => return ⟨origin.id, trail, .unknownNode id⟩
      | some next =>
        match budget with
        | 0 => return ⟨origin.id, trail, .tooLong r.maxSteps⟩
        | budget + 1 =>
          match ← next.emit.run with
          | .error cause => return ⟨origin.id, trail, .failed cause⟩
          | .ok fragment =>
            let trail := ⟨next.id, fragment⟩ :: trail
            let text := text ++ fragment.getD ""
            match ← (r.stopsAfter origin next text.length).run with
            | .error cause => return ⟨origin.id, trail, .failed cause⟩
            | .ok true => return ⟨origin.id, trail, .word text⟩
            | .ok false => follow g r origin budget next trail text

end Walk

/-- Walks at random from a node: it emits, and then follows links as long as no stop test succeeds.
The links are looked up in `g`, which need not be the graph that the node belongs to. -/
@[specialize]
def Node.walk (n : Node) (g : Graph) (r : Request) : Sampler σ Walk := do
  match ← n.emit.run with
  | .error cause => return ⟨n.id, [], .failed cause⟩
  | .ok fragment =>
    let trail := [⟨n.id, fragment⟩]
    let text := fragment.getD ""
    match ← n.stops.run with
    | .error cause => return ⟨n.id, trail, .failed cause⟩
    | .ok true => return ⟨n.id, trail, .word text⟩
    | .ok false => Walk.follow g r n r.maxSteps.toNat n trail text

end PseudoWord
