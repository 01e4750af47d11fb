import PseudoWord.Proofs.LengthBound

namespace PseudoWord

/-- The same request with another limit on the steps of a walk. -/
def Request.withSteps (r : Request) (maxSteps : UInt64) : Request := { r with maxSteps }

section BreaksOff

variable {σ α β : Type} {cut : α → α → Prop} {long : Sampler (Traced σ) α}

/-- A computation beside one that may go on longer. Either both do the same, or the first breaks off: the
outcomes are as stated, and its requests are the first ones of the second. -/
def BreaksOff (cut : α → α → Prop) (short long : Sampler (Traced σ) α) : Prop :=
  ∀ t, short.run t = long.run t ∨
    cut (short.run t).1 (long.run t).1 ∧ (short.run t).2.latest <:+ (long.run t).2.latest

theorem breaksOff_self (m : Sampler (Traced σ) α) : BreaksOff cut m m := fun _ => .inl rfl

/-- What both do first does not tell them apart. -/
theorem breaksOff_bind (m : Sampler (Traced σ) β) {f f' : β → Sampler (Traced σ) α}
    (later : ∀ b, BreaksOff cut (f b) (f' b)) : BreaksOff cut (m >>= f) (m >>= f') :=
  fun t => later (m.run t).1 (m.run t).2

theorem Spends.breaksOff [Source σ] {asks : UInt64 → Prop} {breaks : Draw → Failure → Prop} {limit : Nat}
    {broken : α → Option Failure} {post : α → Prop} {m : Sampler σ α}
    (spends : Spends asks breaks limit broken post m long) {a : α}
    (holds : ∀ b, post b → cut a b) : BreaksOff cut (pure a) long := by
  intro t
  obtain ⟨draws, ⟨_, posts⟩, ran⟩ := spends t
  rw [ran]
  exact .inr ⟨holds _ posts, List.suffix_append _ _⟩

end BreaksOff

/-- A walk that was given up after so many steps, beside one from the same node that may make more. It has
made the first visits of the other one, which visits a further node if it makes a word. -/
structure Walk.CutShort (limit : UInt64) (short long : Walk) : Prop where
  ending : short.ending = .tooLong limit
  steps : short.visits.length = limit.toNat + 1
  visits : short.visits <+: long.visits
  longer : ∀ word, long.ending = .word word → short.visits.length < long.visits.length

theorem Walk.Prolongs.cutShort {short long : Walk} {limit : UInt64} {extra : Nat}
    (ending : short.ending = .tooLong limit) (steps : short.trail.length = limit.toNat + 1)
    (prolongs : long.Prolongs short.trail extra)
    (longer : ∀ word, long.ending = .word word → short.trail.length < long.trail.length) :
    short.CutShort limit long := by
  obtain ⟨later, trail, _⟩ := prolongs
  refine ⟨ending, ?_, List.reverse_prefix.mpr ⟨later, trail.symm⟩, fun word made => ?_⟩
  · rw [visits, List.length_reverse, steps]
  · rw [visits, visits, List.length_reverse, List.length_reverse]
    exact longer word made

theorem Walk.followed_of_word {walk : Walk} {word : String} (made : walk.ending = .word word) :
    walk.followed = walk.visits.length - 1 := by
  rw [followed, made, visits, List.length_reverse]

theorem Walk.CutShort.result {limit : UInt64} {short long : Walk} (cut : short.CutShort limit long) :
    short.result = .ok none := by
  rw [Walk.result, cut.ending]

section Walks

variable {σ : Type} [Source σ] {g : Graph} {r : Request} {fewer more : UInt64} {origin : Node}

theorem Request.stopsAfter_withSteps (maxSteps : UInt64) (current : Node) (length : Nat) :
    (r.withSteps maxSteps).stopsAfter origin current length =
      (r.stopsAfter origin current length : Draws σ Bool) := rfl

/-- At a node that both walks come to they draw the same, and they end there or go on. -/
theorem Walk.breaksOff_arrive {next : Node} {budget larger : Nat} {trail : List Visit} (text : String)
    (onward : ∀ visit text, BreaksOff (CutShort fewer)
      (follow g (r.withSteps fewer) origin budget next (visit :: trail) text : Sampler (Traced σ) Walk)
      (follow g (r.withSteps more) origin larger next (visit :: trail) text)) :
    BreaksOff (CutShort fewer)
      (arrive g (r.withSteps fewer) origin next budget trail text : Sampler (Traced σ) Walk)
      (arrive g (r.withSteps more) origin next larger trail text) := by
  rw [arrive, arrive]
  refine breaksOff_bind _ fun outcome => ?_
  cases outcome with
  | error cause => exact breaksOff_self _
  | ok fragment =>
    dsimp only
    rw [Request.stopsAfter_withSteps, Request.stopsAfter_withSteps]
    refine breaksOff_bind _ fun outcome => ?_
    cases outcome with
    | error cause => exact breaksOff_self _
    | ok stop =>
      cases stop with
      | true => exact breaksOff_self _
      | false => exact onward _ _

/-- Both walks make the same steps as long as the first may make one. It is the first that is given up, at
a link that leads to a node: after the draw for the link and before any draw at the node. -/
theorem Walk.breaksOff_follow (budget extra : Nat) {current : Node} (trail : List Visit) (text : String)
    (steps : trail.length + budget = fewer.toNat + 1) :
    BreaksOff (CutShort fewer)
      (follow g (r.withSteps fewer) origin budget current trail text : Sampler (Traced σ) Walk)
      (follow g (r.withSteps more) origin (budget + extra) current trail text) := by
  rw [follow, follow]
  refine breaksOff_bind _ fun outcome => ?_
  cases outcome with
  | error cause => exact breaksOff_self _
  | ok choice =>
    cases choice with
    | none => exact breaksOff_self _
    | some target =>
      dsimp only
      cases found : g.node? target with
      | none => exact breaksOff_self _
      | some next =>
        have there (high : UInt64) (wanted : next.Wants high) :
            g.WalkWants (r.withSteps more) origin high := .node found wanted
        cases budget with
        | zero =>
          rw [Nat.zero_add]
          cases extra with
          | zero =>
            have wordless (word : String) (made : Ending.tooLong more = .word word) :
                trail.length < trail.length := by cases made
            exact fun _ => .inr ⟨(prolongs_trail _ 0).cutShort rfl steps wordless, List.suffix_rfl⟩
          | succ extra =>
            refine (spends_arrive trail text there fun trail text =>
              spends_follow extra trail text there).breaksOff fun long visited => ?_
            exact visited.1.cutShort rfl steps visited.2
        | succ budget =>
          rw [Nat.succ_add]
          refine breaksOff_arrive text fun visit text => breaksOff_follow budget extra _ text ?_
          rw [List.length_cons]
          omega

theorem Node.breaksOff_walk (order : fewer ≤ more) (n : Node) :
    BreaksOff (Walk.CutShort fewer) (n.walk g (r.withSteps fewer) : Sampler (Traced σ) Walk)
      (n.walk g (r.withSteps more)) := by
  obtain ⟨extra, larger⟩ := Nat.exists_eq_add_of_le (UInt64.le_iff_toNat_le.mp order)
  rw [walk, walk]
  refine breaksOff_bind _ fun outcome => ?_
  cases outcome with
  | error cause => exact breaksOff_self _
  | ok fragment =>
    dsimp only
    refine breaksOff_bind _ fun outcome => ?_
    cases outcome with
    | error cause => exact breaksOff_self _
    | ok stop =>
      cases stop with
      | true => exact breaksOff_self _
      | false =>
        have steps : (r.withSteps more).maxSteps.toNat = fewer.toNat + extra := larger
        rw [steps]
        exact Walk.breaksOff_follow fewer.toNat extra _ _ (Nat.add_comm 1 _)

end Walks

namespace Graph

/-- Of two walks from one node and with one source, of which the second may make more steps, the first
differs only by being given up: it makes a word exactly when the second makes it within the steps of the
first, and then both have gone one way and drawn the same. Otherwise, if they differ at all, the first has
no word, and it has made the first visits and the first draws of the second. -/
theorem step_limit_only_discards (σ : Type) [Source σ] (g : Graph) (n : Node) (r : Request)
    {fewer more : UInt64} (order : fewer ≤ more) (s : σ) {short long : Walk} {after after' : Traced σ}
    (ranShort : (n.walk g (r.withSteps fewer)).run (.start s) = (short, after))
    (ranLong : (n.walk g (r.withSteps more)).run (.start s) = (long, after')) :
    ((n.walk g (r.withSteps fewer)).run s = (short, after.source) ∧
        (n.walk g (r.withSteps more)).run s = (long, after'.source)) ∧
      (∀ word, short.result = .ok (some word) ↔
        long.result = .ok (some word) ∧ long.followed ≤ fewer.toNat) ∧
      (∀ word, short.result = .ok (some word) → (short, after) = (long, after')) ∧
      ((short, after) = (long, after') ∨
        short.result = .ok none ∧ short.CutShort fewer long ∧ after.trace <+: after'.trace) := by
  obtain ⟨runShort, _, few⟩ := Records.of_traced n.spends_walk ranShort
  obtain ⟨runLong, _⟩ := Records.of_traced n.spends_walk ranLong
  have either : (short, after) = (long, after') ∨
      short.CutShort fewer long ∧ after.latest <:+ after'.latest := by
    have cut : BreaksOff (Walk.CutShort fewer)
        (n.walk g (r.withSteps fewer) : Sampler (Traced σ) Walk) _ := n.breaksOff_walk order
    have either := cut (.start s)
    rwa [ranShort, ranLong] at either
  have same {word : String} (made : short.result = .ok (some word)) : (short, after) = (long, after') := by
    refine either.resolve_right fun ⟨cut, _⟩ => ?_
    rw [cut.result] at made
    cases made
  refine ⟨⟨runShort, runLong⟩, fun word => ⟨fun made => ?_, fun ⟨made, within⟩ => ?_⟩,
    fun word made => same made, ?_⟩
  · cases same made
    refine ⟨made, ?_⟩
    rw [Walk.followed_of_word (Walk.result_eq_word made), Walk.visits, List.length_reverse]
    exact Nat.sub_le_of_le_add few
  · rcases either with same | ⟨cut, _⟩
    · cases same
      exact made
    · have ended := Walk.result_eq_word made
      have longer := cut.longer word ended
      rw [cut.steps] at longer
      rw [Walk.followed_of_word ended] at within
      omega
  · refine either.imp_right fun ⟨cut, draws⟩ => ⟨cut.result, cut, ?_⟩
    exact List.reverse_prefix.mpr draws

/-- Twice around the two nodes, and then the long syllable. -/
def roundTrip : Prompted := ⟨[0, 1, 0, 0, 1, 0, 0, 1, 0, 0, 1, 0, 1]⟩

/-- Four links lead to the word. With four of them allowed it is made as with nine, and with three it is
not. -/
theorem step_limit_only_discards_endless :
    ∃ n ∈ endless.nodeList, ∃ (walk : Walk) (after : Traced Prompted),
      (n.walk endless (crossedRequest.withSteps 9)).run (Traced.start roundTrip) = (walk, after) ∧
        walk.result = .ok (some "aoaoshi") ∧ walk.followed = 4 ∧
        (n.walk endless (crossedRequest.withSteps 4)).run (Traced.start roundTrip) = (walk, after) ∧
        ((n.walk endless (crossedRequest.withSteps 3)).run (Traced.start roundTrip)).1.result =
          .ok none := by
  have reached : ∃ n ∈ endless.nodeList,
      ((n.walk endless (crossedRequest.withSteps 9)).run (Traced.start roundTrip)).1.result =
          .ok (some "aoaoshi") ∧
        ((n.walk endless (crossedRequest.withSteps 9)).run (Traced.start roundTrip)).1.followed = 4 := by
    decide +kernel
  obtain ⟨n, inside, made, links⟩ := reached
  rcases nine : (n.walk endless (crossedRequest.withSteps 9)).run (Traced.start roundTrip)
    with ⟨walk, after⟩
  rcases four : (n.walk endless (crossedRequest.withSteps 4)).run (Traced.start roundTrip)
    with ⟨short, early⟩
  rcases three : (n.walk endless (crossedRequest.withSteps 3)).run (Traced.start roundTrip)
    with ⟨cut, before⟩
  rw [nine] at made links
  obtain ⟨_, enough, same, _⟩ := step_limit_only_discards Prompted endless n crossedRequest
    (by decide) roundTrip four nine
  obtain ⟨_, tooFew, _, either⟩ := step_limit_only_discards Prompted endless n crossedRequest
    (by decide) roundTrip three nine
  have within : walk.followed ≤ (4 : UInt64).toNat := links.le
  have beyond : ¬ walk.followed ≤ (3 : UInt64).toNat := by rw [links]; decide
  refine ⟨n, inside, walk, after, nine, made, links, ?_, ?_⟩
  · rw [four]
    exact same "aoaoshi" ((enough "aoaoshi").mpr ⟨made, within⟩)
  · rw [three]
    rcases either with all | ⟨none, _⟩
    · cases all
      exact absurd ((tooFew "aoaoshi").mp made).2 beyond
    · exact none

end Graph

end PseudoWord
