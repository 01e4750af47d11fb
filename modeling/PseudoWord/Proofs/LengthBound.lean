import Mathlib.Data.List.MinMax
import PseudoWord.Proofs.CurrentStarts
import PseudoWord.Proofs.ForeignWords
import PseudoWord.Proofs.WellFormedDraws

namespace PseudoWord

/-- The number of links that a walk has followed. One that is too long has followed a last link without
a visit to the node behind it. -/
def Walk.followed (walk : Walk) : Nat :=
  match walk.ending with
  | .tooLong _ => walk.trail.length
  | _ => walk.trail.length - 1

namespace Graph

/-- The number of characters of the longest fragment of any node. -/
def longestFragment (g : Graph) : Nat :=
  ((g.nodeList.flatMap (·.fragments.values)).map String.length).foldr max 0

/-- A word may end on every node, and every node has something to say. -/
def EndsAnywhere (g : Graph) : Prop :=
  ∀ n ∈ g.nodeList, n.MayEnd ∧ n.fragments.isEmpty = false

instance (g : Graph) : Decidable g.EndsAnywhere :=
  inferInstanceAs (Decidable (∀ n ∈ g.nodeList, n.MayEnd ∧ n.fragments.isEmpty = false))

theorem length_le_longestFragment {g : Graph} {n : Node} (inside : n ∈ g.nodeList) {fragment : String}
    (member : fragment ∈ n.fragments.values) : fragment.length ≤ g.longestFragment :=
  List.le_max_of_le (List.mem_map_of_mem (List.mem_flatMap_of_mem inside member)) le_rfl

end Graph

/-- A node on which a word may end, and which emits from one character up to a number of them. -/
structure Node.Speaks (longest : Nat) (n : Node) : Prop where
  sound : n.Sound
  ends : n.MayEnd
  filled : n.fragments.isEmpty = false
  short : ∀ fragment ∈ n.fragments.values, fragment.length ≤ longest

theorem Node.Speaks.length_emitted {n : Node} {longest : Nat} (speaks : n.Speaks longest)
    {choice : Option String} (emits : n.Emits choice) :
    1 ≤ (choice.getD "").length ∧ (choice.getD "").length ≤ longest := by
  have spoken := speaks.sound.getD_ne_empty speaks.filled emits
  refine ⟨Nat.one_le_iff_ne_zero.mpr fun silent => spoken (String.length_eq_zero_iff.mp silent), ?_⟩
  rcases emits with ⟨rfl, _⟩ | ⟨fragment, member, rfl⟩
  · exact Nat.zero_le longest
  · exact speaks.short fragment member

section Stops

variable {σ : Type}

/-- Of two stop tests the second is not made once the first has stopped the walk. -/
theorem ensures_or {d e : Draws σ Bool} (first : Ensures d.run (Answers (fun stop => stop = true))) :
    Ensures (do if ← d then return true else e : Draws σ Bool).run
      (Answers (fun stop => stop = true)) := by
  refine first.draws_bind (fun _ _ => trivial) fun stop stopped => ?_
  cases stop with
  | true => exact ensures_draws_pure rfl
  | false => cases stopped

variable [Source σ] [BoundedSource σ]

theorem ensures_isZero_zero :
    Ensures (Draws.isZero 0 : Draws σ Bool).run (Answers (fun zero => zero = true)) := by
  rw [Draws.isZero]
  refine (ensures_range 0 0).draws_bind (fun _ _ => trivial) fun draw bounds => ?_
  exact ensures_draws_pure (beq_iff_eq.mpr (UInt64.le_antisymm bounds.2 bounds.1))

theorem Request.room_eq_zero {r : Request} {length : Nat} (long : r.maxLength.toNat < length) :
    r.room length = 0 := by
  refine UInt64.toNat_inj.mp ?_
  rw [toNat_room, UInt64.toNat_zero]
  omega

/-- Past the longest length there is only one number left to draw. A node where a word may end draws it,
or it has no links, so no walk goes on from there. -/
theorem Request.ensures_stops_long {r : Request} (lengths : r.minLength.toNat ≤ r.maxLength.toNat + 1)
    (origin : Node) {current : Node} (ends : current.MayEnd) {length : Nat}
    (long : r.maxLength.toNat < length) :
    Ensures (r.stopsAfter origin current length : Draws σ Bool).run
      (Answers (fun stop => stop = true)) := by
  rw [stopsAfter]
  cases flagged : current.terminating with
  | true =>
    have wanted : decide (r.minLength.toNat ≤ length) = true := decide_eq_true (lengths.trans long)
    rw [stopsLong, flagged, wanted, Bool.and_self, if_pos rfl, room_eq_zero long]
    exact ensures_or (ensures_or ensures_isZero_zero)
  | false =>
    have linkless : current.links.isEmpty = true := by
      rw [Node.MayEnd, flagged] at ends
      exact current.links.isEmpty_iff.mpr (ends.resolve_left Bool.false_ne_true)
    rw [stopsLong, flagged, Bool.false_and, if_neg Bool.false_ne_true, pure_bind,
      if_neg Bool.false_ne_true, Node.stops, if_pos linkless]
    exact ensures_draws_pure rfl

theorem Request.ensures_short_or_stops {r : Request}
    (lengths : r.minLength.toNat ≤ r.maxLength.toNat + 1) (origin : Node) {current : Node}
    (ends : current.MayEnd) (length : Nat) :
    Ensures (r.stopsAfter origin current length : Draws σ Bool).run
      (Answers (fun stop => length ≤ r.maxLength.toNat ∨ stop = true)) := by
  by_cases fits : length ≤ r.maxLength.toNat
  · exact ensures_answers _ fun _ => .inl fits
  · refine (ensures_stops_long lengths origin ends (Nat.not_le.mp fits)).mono fun outcome stopped => ?_
    cases outcome with
    | error cause => trivial
    | ok stop => exact .inr stopped

end Stops

/-- What a walk has emitted while it goes on: at least one character on each visit, and no more than are
wanted, unless it still stands on its first node. -/
structure Request.GoesOn (r : Request) (longest : Nat) (trail : List Visit) (text : String) : Prop where
  spoken : trail.length ≤ text.length
  short : text.length ≤ r.maxLength.toNat ∨ trail.length = 1 ∧ text.length ≤ longest

/-- A walk that has followed few links, and whose word, if it made one, is not too long. -/
structure Walk.Bounded (r : Request) (longest : Nat) (walk : Walk) : Prop where
  followed : walk.followed ≤ max 1 r.maxLength.toNat
  word : ∀ text, walk.ending = .word text → text.length ≤ max r.maxLength.toNat longest + longest

section Walks

variable {r : Request} {longest : Nat} {trail : List Visit} {text : String}

theorem Request.GoesOn.links_le (goesOn : r.GoesOn longest trail text) :
    trail.length ≤ max 1 r.maxLength.toNat := by
  obtain ⟨spoken, fits | ⟨first, _⟩⟩ := goesOn
  · exact (spoken.trans fits).trans (Nat.le_max_right _ _)
  · exact first.le.trans (Nat.le_max_left _ _)

theorem Request.GoesOn.length_le (goesOn : r.GoesOn longest trail text) :
    text.length ≤ max r.maxLength.toNat longest := by
  obtain ⟨_, fits | ⟨_, fits⟩⟩ := goesOn
  · exact fits.trans (Nat.le_max_left _ _)
  · exact fits.trans (Nat.le_max_right _ _)

theorem Request.GoesOn.length_append_le (goesOn : r.GoesOn longest trail text) {more : String}
    (short : more.length ≤ longest) :
    (text ++ more).length ≤ max r.maxLength.toNat longest + longest := by
  rw [String.length_append]
  exact Nat.add_le_add goesOn.length_le short

variable {σ : Type} [Source σ] [BoundedSource σ] {g : Graph}

/-- Each link that is followed adds a character, and none is followed once the word is too long. -/
theorem Walk.ensures_bounded_follow (speaks : ∀ id n, g.node? id = some n → n.Speaks longest)
    (lengths : r.minLength.toNat ≤ r.maxLength.toNat + 1) {origin : Node} (budget : Nat) {current : Node}
    {trail : List Visit} {text : String} (sound : current.Sound) (goesOn : r.GoesOn longest trail text) :
    Ensures (follow g r origin budget current trail text : Sampler σ Walk) (Bounded r longest) := by
  have links := goesOn.links_le
  have before := (Nat.sub_le trail.length 1).trans links
  rw [follow]
  refine sound.links.ensures_choose.bind fun outcome _ => ?_
  cases outcome with
  | error cause => exact ensures_pure ⟨before, fun _ made => by cases made⟩
  | ok choice =>
    cases choice with
    | none =>
      refine ensures_pure ⟨before, fun word made => ?_⟩
      cases made
      exact goesOn.length_le.trans (Nat.le_add_right _ _)
    | some target =>
      dsimp only
      cases found : g.node? target with
      | none => exact ensures_pure ⟨before, fun _ made => by cases made⟩
      | some next =>
        cases budget with
        | zero => exact ensures_pure ⟨links, fun _ made => by cases made⟩
        | succ budget =>
          have there := speaks target next found
          refine there.sound.fragments.ensures_choose.bind fun outcome emits => ?_
          cases outcome with
          | error cause => exact ensures_pure ⟨before, fun _ made => by cases made⟩
          | ok fragment =>
            obtain ⟨some, short⟩ := there.length_emitted emits
            refine (r.ensures_short_or_stops lengths origin there.ends _).bind fun outcome stops => ?_
            cases outcome with
            | error cause => exact ensures_pure ⟨links, fun _ made => by cases made⟩
            | ok stop =>
              cases stop with
              | true =>
                refine ensures_pure ⟨links, fun word made => ?_⟩
                cases made
                exact goesOn.length_append_le short
              | false =>
                have fits := stops.resolve_right Bool.false_ne_true
                have spoken : trail.length + 1 ≤ (text ++ fragment.getD "").length := by
                  rw [String.length_append]
                  exact Nat.add_le_add goesOn.spoken some
                exact ensures_bounded_follow speaks lengths budget there.sound ⟨spoken, .inl fits⟩

theorem Node.ensures_bounded (speaks : ∀ id n, g.node? id = some n → n.Speaks longest)
    (lengths : r.minLength.toNat ≤ r.maxLength.toNat + 1) {n : Node} (here : n.Speaks longest) :
    Ensures (n.walk g r : Sampler σ Walk) (Walk.Bounded r longest) := by
  have nothing : 0 ≤ max 1 r.maxLength.toNat := Nat.zero_le _
  rw [walk]
  refine here.sound.fragments.ensures_choose.bind fun outcome emits => ?_
  cases outcome with
  | error cause => exact ensures_pure ⟨nothing, fun _ made => by cases made⟩
  | ok fragment =>
    obtain ⟨some, short⟩ := here.length_emitted emits
    refine ensures_bind_any fun outcome => ?_
    cases outcome with
    | error cause => exact ensures_pure ⟨nothing, fun _ made => by cases made⟩
    | ok stop =>
      cases stop with
      | true =>
        refine ensures_pure ⟨nothing, fun word made => ?_⟩
        cases made
        exact short.trans (Nat.le_add_left _ _)
      | false => exact Walk.ensures_bounded_follow speaks lengths _ here.sound ⟨some, .inr ⟨rfl, short⟩⟩

end Walks

namespace Graph

variable {g : Graph}

theorem EndsAnywhere.speaks (anywhere : g.EndsAnywhere) (wf : g.WellFormed) {n : Node}
    (inside : n ∈ g.nodeList) : n.Speaks g.longestFragment where
  sound := (wf.nodes _ n (wf.node?_self inside)).sound
  ends := (anywhere n inside).1
  filled := (anywhere n inside).2
  short _ member := length_le_longestFragment inside member

/-- Whatever was done to a graph before: if words may end on every node and every node has something to
say, a walk is over soon after its word is as long as is wanted. So with enough steps it makes a word. -/
theorem walk_length_bound (σ : Type) [Source σ] [AnsweringSource σ] (arises : g.Arises)
    (anywhere : g.EndsAnywhere) {r : Request} (lengths : r.minLength.toNat ≤ r.maxLength.toNat + 1)
    {n : Node} (inside : n ∈ g.nodeList) (s : σ) :
    ((n.walk g r).run s).1.followed ≤ max 1 r.maxLength.toNat ∧
      (∀ word, ((n.walk g r).run s).1.result = .ok (some word) →
        word.length ≤ max r.maxLength.toNat g.longestFragment + g.longestFragment) ∧
      (max 1 r.maxLength.toNat ≤ r.maxSteps.toNat →
        ∃ word, ((n.walk g r).run s).1.result = .ok (some word)) := by
  have wf := arises.wellFormed
  obtain ⟨followed, word⟩ := Node.ensures_bounded
    (fun id n found => anywhere.speaks wf (g.mem_nodeList_iff.mpr ⟨id, found⟩)) lengths
    (anywhere.speaks wf inside) s
  refine ⟨followed, fun text made => word text (Walk.result_eq_word made), fun enough => ?_⟩
  refine ((wf.walksWell r inside).made s).resolve_right fun ⟨tooLong, visits⟩ => ?_
  have all : ((n.walk g r).run s).1.followed = r.maxSteps.toNat + 1 := by
    rw [Walk.followed, tooLong, ← visits, Walk.visits, List.length_reverse]
  omega

/-- Two nodes with a short and a long syllable, and a way back from the second to the first. -/
def endless : Graph := ofTable ["S ; _ ; N0", "N0 ; a | shi ; O | N1", "N1 ; o | shi ; O | N0"]

/-- At least five characters and at most four, which is as far as the two lengths may cross. -/
def crossedRequest : Request := .ofLengths 1 5 4

/-- Some walk follows as many links, and makes a word as long, as the bounds allow. -/
theorem walk_length_bound_endless :
    endless.EndsAnywhere ∧ endless.longestFragment = 3 ∧ ∃ n ∈ endless.nodeList,
      (∀ s : Prompted, ((n.walk endless crossedRequest).run s).1.followed ≤ 4 ∧
        ∃ word, ((n.walk endless crossedRequest).run s).1.result = .ok (some word) ∧ word.length ≤ 7) ∧
      ∃ s : Prompted, ((n.walk endless crossedRequest).run s).1.followed = 4 ∧
        ((n.walk endless crossedRequest).run s).1.result = .ok (some "aoaoshi") := by
  have arises : endless.Arises := .table _
  have anywhere : endless.EndsAnywhere := by decide +kernel
  have three : endless.longestFragment = 3 := by decide +kernel
  let prompts : Prompted := ⟨[0, 1, 0, 0, 1, 0, 0, 1, 0, 0, 1, 0, 1]⟩
  have reached : ∃ n ∈ endless.nodeList, ((n.walk endless crossedRequest).run prompts).1.followed = 4 ∧
      ((n.walk endless crossedRequest).run prompts).1.result = .ok (some "aoaoshi") := by decide +kernel
  obtain ⟨n, inside, reached⟩ := reached
  have lengths : crossedRequest.minLength.toNat ≤ crossedRequest.maxLength.toNat + 1 := by decide
  refine ⟨anywhere, three, n, inside, fun s => ?_, prompts, reached⟩
  obtain ⟨followed, bound, made⟩ := walk_length_bound Prompted arises anywhere lengths inside s
  obtain ⟨word, result⟩ := made (by decide)
  have short := bound word result
  rw [three] at short
  exact ⟨followed, word, result, short⟩

end Graph

end PseudoWord
