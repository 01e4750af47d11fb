import PseudoWord.Proofs.RoundEnds
import PseudoWord.Proofs.SuccessiveAttempts
import PseudoWord.Proofs.Unfailing

namespace PseudoWord

namespace Round

/-- The attempts of some rounds, of which the latest stands first. -/
def attemptsOf (rounds : List Round) : List Attempt := rounds.reverse.flatMap (·.attempts)

theorem attemptsOf_cons (round : Round) (rounds : List Round) :
    attemptsOf (round :: rounds) = attemptsOf rounds ++ round.attempts := by
  rw [attemptsOf, List.reverse_cons, List.flatMap_append, List.flatMap_singleton]
  rfl

/-- The words found before a round, the attempts that it is to make, and those that it made. -/
def figures (round : Round) : Nat × Nat × Nat := (round.found, round.batch, round.attempts.length)

end Round

variable {σ : Type} [Source σ]

namespace Graph

section Rounds

variable {g : Graph} {r : Request} {starts : List NodeId} {s : σ}

variable (g r starts s)

/-- How many distinct words the first so many attempts make. -/
def foundAfter (made : Nat) : Nat := (g.wordsAfter r starts s made).length

/-- The figures that a round has by its number, when nothing breaks it off. -/
def roundFigures (round : Nat) : Nat × Nat × Nat :=
  let found := g.foundAfter r starts s (r.roundEnd (g.foundAfter r starts s) round)
  (found, r.roundSize found, r.roundSize found)

/-- What is true between two rounds: every attempt so far was made in its turn, each round was as large
as it had to be, and before each of them words were missing. -/
structure Progress (rounds : List Round) (found : DistinctWords) (now : σ) : Prop where
  attempts : g.Successive r starts s (Round.attemptsOf rounds)
  source : now = g.sourceAfter r starts s (Round.attemptsOf rounds).length
  found : found = DistinctWords.empty.insertAll ((Round.attemptsOf rounds).filterMap Attempt.word?)
  ends : (Round.attemptsOf rounds).length = r.roundEnd (g.foundAfter r starts s) rounds.length
  short : ∀ round < rounds.length,
    g.foundAfter r starts s (r.roundEnd (g.foundAfter r starts s) round) < r.count.toNat
  figures : rounds.reverse.map Round.figures =
    (List.range rounds.length).map (g.roundFigures r starts s)

variable {g r starts s}

theorem Progress.toList_eq {rounds : List Round} {found : DistinctWords} {now : σ}
    (progress : g.Progress r starts s rounds found now) :
    found.toList = g.wordsAfter r starts s (Round.attemptsOf rounds).length := by
  rw [progress.found, DistinctWords.toList_insertAll_empty, progress.attempts.words]
  rfl

theorem Progress.size_eq {rounds : List Round} {found : DistinctWords} {now : σ}
    (progress : g.Progress r starts s rounds found now) :
    found.size = g.foundAfter r starts s (r.roundEnd (g.foundAfter r starts s) rounds.length) := by
  rw [← progress.ends, foundAfter, ← progress.toList_eq]
  exact List.length_reverse.symm

/-- A round that nothing broke off. -/
theorem Progress.round {rounds : List Round} {found : DistinctWords} {now after : σ} {batch : Batch}
    (progress : g.Progress r starts s rounds found now) (missing : found.size < r.count.toNat)
    (run : (g.runBatch r starts (r.roundSize found.size) [] found).run now = (batch, after))
    (unbroken : batch.failure = none) :
    g.Progress r starts s (⟨found.size, r.roundSize found.size, batch.attempts.reverse⟩ :: rounds)
      batch.found after := by
  have nothing : Round.attemptsOf rounds ++ ([] : List Attempt).reverse = Round.attemptsOf rounds :=
    List.append_nil _
  have all : g.Successive r starts s (Round.attemptsOf rounds ++ ([] : List Attempt).reverse) := by
    rw [nothing]
    exact progress.attempts
  rw [progress.source, ← nothing] at run
  obtain ⟨successive, source, size⟩ := all.batch run unbroken
  obtain ⟨more, listed, words⟩ := ensures_batch_found starts (r.roundSize found.size) [] found
    (g.sourceAfter r starts s (Round.attemptsOf rounds ++ ([] : List Attempt).reverse).length)
  rw [run] at listed words
  have same : batch.attempts.reverse = more := listed
  refine ⟨?_, ?_, ?_, ?_, ?_, ?_⟩
  · rw [Round.attemptsOf_cons]
    exact successive
  · rw [Round.attemptsOf_cons]
    exact source
  · rw [Round.attemptsOf_cons, words, ← same, List.filterMap_append, DistinctWords.insertAll_append,
      ← progress.found]
  · rw [Round.attemptsOf_cons, List.length_append, progress.ends, List.length_cons, Request.roundEnd,
      ← progress.size_eq, List.length_reverse, size, List.length_nil, Nat.zero_add]
  · intro round below
    rcases Nat.lt_succ_iff_lt_or_eq.mp below with before | rfl
    · exact progress.short round before
    · rw [← progress.size_eq]
      exact missing
  · have figures : Round.figures ⟨found.size, r.roundSize found.size, batch.attempts.reverse⟩ =
        g.roundFigures r starts s rounds.length := by
      rw [Round.figures, roundFigures, ← progress.size_eq, List.length_reverse, size, List.length_nil,
        Nat.zero_add]
    rw [List.reverse_cons, List.map_append, progress.figures, List.length_cons, List.range_succ,
      List.map_append, List.map_singleton, List.map_singleton, figures]

variable (g r starts s)

/-- A report of the rounds that the request calls for, made of the first attempts in their order, and the
source after it. -/
structure Answered (report : Report) (after : σ) : Prop where
  requested : report.requested = r.count
  rounds : r.Rounds (g.foundAfter r starts s) report.rounds.length
  attempts : g.Successive r starts s report.attempts
  made : report.attempts.length = r.roundEnd (g.foundAfter r starts s) report.rounds.length
  words : report.words = g.wordsAfter r starts s report.attempts.length
  figures : report.rounds.map Round.figures =
    (List.range report.rounds.length).map (g.roundFigures r starts s)
  source : after = g.sourceAfter r starts s report.attempts.length

variable {g r starts s}

theorem Progress.answered {rounds : List Round} {found : DistinctWords} {now : σ}
    (progress : g.Progress r starts s rounds found now) (within : rounds.length ≤ r.maxTries.toNat)
    (last : rounds.length < r.maxTries.toNat → r.count.toNat ≤ found.size) :
    g.Answered r starts s ⟨r.count, rounds.reverse, found.toList, none⟩ now where
  requested := rfl
  rounds := by
    rw [progress.size_eq] at last
    rw [List.length_reverse]
    exact ⟨within, progress.short, last⟩
  attempts := progress.attempts
  made := by
    rw [List.length_reverse]
    exact progress.ends
  words := progress.toList_eq
  figures := by
    rw [List.length_reverse]
    exact progress.figures
  source := progress.source

/-- Rounds that nothing broke off answer the request. -/
theorem Progress.rounds {tries : Nat} {rounds : List Round} {found : DistinctWords} {now after : σ}
    {report : Report} (progress : g.Progress r starts s rounds found now)
    (budget : rounds.length + tries = r.maxTries.toNat)
    (run : (g.runRounds r starts tries rounds found).run now = (report, after))
    (unbroken : report.failure = none) : g.Answered r starts s report after := by
  induction tries generalizing rounds found now with
  | zero =>
    cases run
    have ended : rounds.length = r.maxTries.toNat := budget
    exact progress.answered (Nat.le_of_eq ended) fun left => absurd ended (Nat.ne_of_lt left)
  | succ tries ih =>
    rw [runRounds] at run
    split at run
    · rename_i missing
      have size : r.count.toNat - found.size / 2 = r.roundSize found.size := rfl
      rw [size, StateT.run_bind] at run
      cases batchRun : (g.runBatch r starts (r.roundSize found.size) [] found).run now with
      | mk batch next =>
        rw [batchRun] at run
        dsimp only [bind] at run
        cases ending : batch.failure with
        | some cause =>
          rw [ending] at run
          cases run
          cases unbroken
        | none =>
          rw [ending] at run
          refine ih (progress.round missing batchRun ending) ?_ run
          rw [List.length_cons, ← budget]
          omega
    · rename_i enough
      cases run
      exact progress.answered (by omega) fun _ => Nat.not_lt.mp enough

theorem progress_start : g.Progress r starts s [] .empty s :=
  ⟨.start, rfl, rfl, rfl, fun _ below => absurd below (Nat.not_lt_zero _), rfl⟩

/-- A generation that succeeds answers the request with the attempts that are drawn one after the
other. -/
theorem answered_generate (prepared : g.starts = some starts) (filled : starts ≠ [])
    {generation : Generation} (succeeded : ((g.generate r).run s).1.result = .ok generation) :
    g.Answered r starts s ((g.generate r).run s).1 ((g.generate r).run s).2 := by
  have rounds : g.generate r = (g.runRounds r starts r.maxTries.toNat [] .empty : Sampler σ Report) := by
    rw [generate, prepared]
    cases starts with
    | nil => exact absurd rfl filled
    | cons => rfl
  have unbroken : ((g.generate r).run s).1.failure = none := by
    rw [Report.result] at succeeded
    split at succeeded
    · cases succeeded
    · assumption
  rw [rounds] at unbroken ⊢
  exact progress_start.rounds (Nat.zero_add _) rfl unbroken

theorem Answered.generation_eq {report : Report} {after : σ}
    (answered : g.Answered r starts s report after) {generation : Generation}
    (succeeded : report.result = .ok generation) :
    generation = ⟨report.words.take r.count.toNat, r.count⟩ := by
  rw [Report.result] at succeeded
  split at succeeded
  · cases succeeded
  · cases succeeded
    rw [answered.requested]

/-- What a prepared graph answers with when its attempts make these words. -/
theorem result_of_attempts [ContractSource σ] (prepared : g.isPrepared = true)
    {words answer : List String}
    (made : ((g.generate r).run s).1.attempts.filterMap Attempt.word? = words)
    (first : words.eraseDups.take r.count.toNat = answer) :
    ((g.generate r).run s).1.result = .ok ⟨answer, r.count⟩ := by
  rw [ensures_generate_result prepared r s, g.ensures_words s, made,
    DistinctWords.toList_insertAll_empty, first]

end Rounds

end Graph

end PseudoWord
