import Mathlib.Data.List.Infix
import PseudoWord.Proofs.AnsweredRounds
import PseudoWord.Proofs.RereadGeneration

namespace PseudoWord

/-- Two requests for the same walks: they may ask for other numbers of words and of tries. -/
structure Request.WalksAlike (a b : Request) : Prop where
  minLength : a.minLength = b.minLength
  maxLength : a.maxLength = b.maxLength
  maxSteps : a.maxSteps = b.maxSteps
  stopBias : a.stopBias = b.stopBias

variable {σ : Type} [Source σ] {g : Graph} {a b : Request}

namespace Request.WalksAlike

theorem stopsAfter_eq (alike : a.WalksAlike b) (origin current : Node) (length : Nat) :
    a.stopsAfter origin current length = (b.stopsAfter origin current length : Draws σ Bool) := by
  have fans : a.biasedFanOut origin current = b.biasedFanOut origin current := by
    rw [biasedFanOut, biasedFanOut, alike.stopBias]
  rw [stopsAfter, stopsAfter, stopsLong, stopsLong, room, room, alike.minLength, alike.maxLength, fans]

theorem follow_eq (alike : a.WalksAlike b) (origin : Node) (budget : Nat) (current : Node)
    (trail : List Visit) (text : String) :
    Walk.follow g a origin budget current trail text =
      (Walk.follow g b origin budget current trail text : Sampler σ Walk) := by
  induction budget generalizing current trail text with
  | zero =>
    rw [Walk.follow, Walk.follow, alike.maxSteps]
  | succ budget ih =>
    rw [Walk.follow, Walk.follow]
    refine bind_congr fun outcome => ?_
    cases outcome with
    | error cause => rfl
    | ok choice =>
      cases choice with
      | none => rfl
      | some target =>
        dsimp only
        cases g.node? target with
        | none => rfl
        | some next =>
          dsimp only
          refine bind_congr fun emitted => ?_
          cases emitted with
          | error cause => rfl
          | ok fragment =>
            dsimp only
            rw [alike.stopsAfter_eq]
            refine bind_congr fun stop => ?_
            cases stop with
            | error cause => rfl
            | ok ends =>
              cases ends with
              | true => rfl
              | false => exact ih next _ _

theorem walk_eq (alike : a.WalksAlike b) (n : Node) :
    n.walk g a = (n.walk g b : Sampler σ Walk) := by
  rw [Node.walk, Node.walk, alike.maxSteps]
  simp only [alike.follow_eq]

theorem drawnAttempt_eq (alike : a.WalksAlike b) (starts : List NodeId) :
    g.drawnAttempt a starts = (g.drawnAttempt b starts : Sampler σ (Except Failure Attempt)) := by
  have attempts (start : NodeId) : g.attempt a start = (g.attempt b start : Sampler σ Attempt) := by
    rw [Graph.attempt, Graph.attempt]
    simp only [alike.walk_eq]
  rw [Graph.drawnAttempt, Graph.drawnAttempt]
  simp only [attempts]

theorem wordsAfter_eq (alike : a.WalksAlike b) (starts : List NodeId) (s : σ) :
    g.wordsAfter a starts s = g.wordsAfter b starts s := by
  have sources (made : Nat) : g.sourceAfter a starts s made = g.sourceAfter b starts s made := by
    induction made with
    | zero => rfl
    | succ made ih => rw [Graph.sourceAfter, Graph.sourceAfter, ih, alike.drawnAttempt_eq]
  have words : g.wordAfter a starts s = g.wordAfter b starts s := by
    funext made
    rw [Graph.wordAfter, Graph.wordAfter, Graph.attemptAfter, Graph.attemptAfter, sources,
      alike.drawnAttempt_eq]
  funext made
  rw [Graph.wordsAfter, Graph.wordsAfter, words]

end Request.WalksAlike

/-- The first entries of two lists, one of which begins with the other: cutting the longer one of them
shorter makes no difference where the other one was long enough. -/
theorem take_prefix_take {α : Type} {few many : List α} {first second : Nat} (order : first ≤ second)
    (reached : few <+: many ∨ many <+: few ∧ first ≤ many.length) :
    few.take first <+: many.take second := by
  have longer : many.take first <+: many.take second := List.take_prefix_take_left order
  rcases reached with onward | ⟨⟨more, rfl⟩, enough⟩
  · exact (List.IsPrefix.take onward first).trans longer
  · rw [List.take_append_of_le_length enough]
    exact longer

namespace Graph

/-- Both requests are answered with the same attempts, of which the one for more makes enough. -/
theorem Answered.take_prefix {starts : List NodeId} {s : σ} {smaller larger : Report} {after after' : σ}
    (few : g.Answered a starts s smaller after) (many : g.Answered b starts s larger after')
    (alike : a.WalksAlike b) (counts : a.count ≤ b.count) (tries : a.maxTries ≤ b.maxTries) :
    smaller.words.take a.count.toNat <+: larger.words.take b.count.toNat := by
  have words := alike.wordsAfter_eq (g := g) starts s
  have counted : g.foundAfter a starts s = g.foundAfter b starts s :=
    funext fun made => congrArg (fun words => (words made).length) words
  have slow (made more : Nat) :
      g.foundAfter b starts s (made + more) ≤ g.foundAfter b starts s made + more :=
    (g.wordsAfter_add b starts s made more).2
  have reached := (counted ▸ few.rounds).enough many.rounds counts tries slow
  rw [← counted, ← few.made, counted, ← many.made] at reached
  rw [few.words, many.words, words]
  refine take_prefix_take (UInt64.le_iff_toNat_le.mp counts) ?_
  rcases reached with onward | enough
  · exact .inl (g.wordsAfter_mono b starts s onward)
  · rcases Nat.le_total smaller.attempts.length larger.attempts.length with onward | back
    · exact .inl (g.wordsAfter_mono b starts s onward)
    · exact .inr ⟨g.wordsAfter_mono b starts s back, enough⟩

/-- Whoever asks for more words, or for more tries, gets the same words first. -/
theorem larger_request_extends (alike : a.WalksAlike b) (counts : a.count ≤ b.count)
    (tries : a.maxTries ≤ b.maxTries) (s : σ) {few many : Generation}
    (first : ((g.generate a).run s).1.result = .ok few)
    (second : ((g.generate b).run s).1.result = .ok many) : few.words <+: many.words := by
  cases prepared : g.starts with
  | none =>
    rw [generate, prepared] at first
    cases first
  | some starts =>
    by_cases filled : starts = []
    · have nothing : few.words = [] := by
        rw [generate, prepared, filled] at first
        cases first
        exact List.take_nil
      rw [nothing]
      exact List.nil_prefix
    · have smaller := answered_generate prepared filled first
      have larger := answered_generate prepared filled second
      rw [smaller.generation_eq first, larger.generation_eq second]
      exact smaller.take_prefix larger alike counts tries

theorem larger_request_extends_rowless :
    ((((ofTable rowlessTable).generate (twoWords.withCount 1)).run sixPrompts).1.result =
        .ok ⟨["a"], 1⟩ ∧
      (((ofTable rowlessTable).generate twoWords).run sixPrompts).1.result = .ok ⟨["a", "b"], 2⟩) ∧
      ["a"] <+: ["a", "b"] := by
  have prepared : (ofTable rowlessTable).isPrepared = true := by decide +kernel
  have one : (((ofTable rowlessTable).generate (twoWords.withCount 1)).run
      sixPrompts).1.attempts.filterMap Attempt.word? = ["a"] := by decide +kernel
  have two : (((ofTable rowlessTable).generate twoWords).run
      sixPrompts).1.attempts.filterMap Attempt.word? = ["a", "b"] := by decide +kernel
  have first : (((ofTable rowlessTable).generate (twoWords.withCount 1)).run sixPrompts).1.result =
      .ok ⟨["a"], 1⟩ := result_of_attempts prepared one (by decide +kernel)
  have second : (((ofTable rowlessTable).generate twoWords).run sixPrompts).1.result =
      .ok ⟨["a", "b"], 2⟩ := result_of_attempts prepared two (by decide +kernel)
  have alike : (twoWords.withCount 1).WalksAlike twoWords := ⟨rfl, rfl, rfl, rfl⟩
  exact ⟨⟨first, second⟩,
    larger_request_extends alike (by decide) (by decide) sixPrompts first second⟩

end Graph

end PseudoWord
