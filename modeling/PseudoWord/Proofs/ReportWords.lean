import PseudoWord.Proofs.Contract
import PseudoWord.Report

namespace PseudoWord

theorem DistinctWords.insertAll_append (found : DistinctWords) (words more : List String) :
    found.insertAll (words ++ more) = (found.insertAll words).insertAll more :=
  List.foldl_append

section Words

variable {σ : Type} [Source σ] {g : Graph} {r : Request} (starts : List NodeId)

/-- What a batch adds to the words are the words of its attempts, in order. -/
theorem Graph.ensures_batch_found (left : Nat) (attempts : List Attempt) (found : DistinctWords) :
    Ensures (g.runBatch r starts left attempts found : Sampler σ Batch)
      (fun batch => ∃ made, batch.attempts.reverse = attempts.reverse ++ made ∧
        batch.found = found.insertAll (made.filterMap Attempt.word?)) := by
  induction left generalizing attempts found with
  | zero => exact ensures_pure ⟨[], (List.append_nil _).symm, rfl⟩
  | succ left ih =>
    rw [runBatch]
    refine ensures_bind_any fun outcome => ?_
    cases outcome with
    | error cause => exact ensures_pure ⟨[], (List.append_nil _).symm, rfl⟩
    | ok start =>
      refine ensures_bind_any fun attempt => ?_
      have onward (next : DistinctWords)
          (adds : next = found.insertAll ([attempt].filterMap Attempt.word?)) :
          Ensures (g.runBatch r starts left (attempt :: attempts) next : Sampler σ Batch)
            (fun batch => ∃ made, batch.attempts.reverse = attempts.reverse ++ made ∧
              batch.found = found.insertAll (made.filterMap Attempt.word?)) := by
        refine (ih (attempt :: attempts) next).mono ?_
        rintro batch ⟨made, listed, words⟩
        refine ⟨attempt :: made, by simpa using listed, ?_⟩
        rw [words, adds, ← DistinctWords.insertAll_append, ← List.filterMap_append]
        rfl
      cases attempt with
      | idle => exact onward found rfl
      | walked id walk =>
        dsimp only
        cases result : walk.result with
        | error cause =>
          refine ensures_pure ⟨[.walked id walk], List.reverse_cons, ?_⟩
          simp [Attempt.word?, result, Except.toOption, DistinctWords.insertAll]
        | ok made =>
          cases made with
          | none => exact onward found (by simp [Attempt.word?, result, Except.toOption,
              DistinctWords.insertAll])
          | some word => exact onward _ (by simp [Attempt.word?, result, Except.toOption,
              DistinctWords.insertAll])

theorem Graph.ensures_rounds_words (tries : Nat) (rounds : List Round) (found : DistinctWords) :
    Ensures (g.runRounds r starts tries rounds found : Sampler σ Report)
      (fun report => ∃ made, report.attempts = rounds.reverse.flatMap (·.attempts) ++ made ∧
        report.words = (found.insertAll (made.filterMap Attempt.word?)).toList) := by
  induction tries generalizing rounds found with
  | zero => exact ensures_pure ⟨[], (List.append_nil _).symm, rfl⟩
  | succ tries ih =>
    rw [runRounds]
    split
    · refine (g.ensures_batch_found starts _ [] found).bind ?_
      rintro batch ⟨made, listed, words⟩
      have attempts : batch.attempts.reverse = made := listed
      dsimp only
      split
      · refine ensures_pure ⟨made, ?_, congrArg DistinctWords.toList words⟩
        simp [Report.attempts, attempts]
      · refine (ih _ batch.found).mono ?_
        rintro report ⟨more, whole, all⟩
        refine ⟨made ++ more, ?_, ?_⟩
        · simpa [attempts] using whole
        · rw [all, words, ← DistinctWords.insertAll_append, ← List.filterMap_append]
    · exact ensures_pure ⟨[], (List.append_nil _).symm, rfl⟩

/-- The words of a report are the distinct words of its attempts, in the order of their first
occurrences. -/
theorem Graph.ensures_words : Ensures (g.generate r : Sampler σ Report) (fun report =>
    report.words = (DistinctWords.empty.insertAll (report.attempts.filterMap Attempt.word?)).toList) := by
  rw [generate]
  split
  · exact ensures_pure rfl
  · exact ensures_pure rfl
  · refine (g.ensures_rounds_words _ _ [] .empty).mono ?_
    rintro report ⟨made, attempts, words⟩
    have all : report.attempts = made := attempts
    rw [words, all]

end Words

section Walks

variable (σ : Type) [Source σ] (g : Graph) (r : Request) (starts : List NodeId)

/-- Whatever the source answers, no other node than a start node is drawn. -/
theorem Graph.ensures_drawStart :
    Ensures (drawStart starts : Draws σ NodeId).run (Answers (· ∈ starts)) := by
  rw [drawStart]
  have drawn := ensures_answers (σ := σ) (Draws.range 0 (starts.length.toUInt64 - 1)) fun _ => trivial
  refine drawn.draws_bind (fun _ _ => trivial) fun index _ => ?_
  cases picked : starts[index.toNat]? with
  | none => exact fun _ => trivial
  | some start => exact ensures_draws_pure (List.mem_of_getElem? picked)

/-- Every walk among these attempts goes from one of the start nodes, as some state of the source has
it go. -/
def Graph.Walked (attempts : List Attempt) : Prop :=
  ∀ start walk, .walked start walk ∈ attempts → start ∈ starts ∧
    ∃ n, g.node? start = some n ∧ ∃ s : σ, ((n.walk g r).run s).1 = walk

variable {σ g r starts}

theorem Graph.Walked.cons_idle {attempts : List Attempt} (before : Walked σ g r starts attempts) :
    Walked σ g r starts (.idle :: attempts) := by
  intro start walk member
  rcases List.mem_cons.mp member with same | earlier
  · cases same
  · exact before start walk earlier

theorem Graph.Walked.cons_attempt {attempts : List Attempt} (before : Walked σ g r starts attempts)
    {start : NodeId} (listed : start ∈ starts) :
    Ensures (g.attempt r start : Sampler σ Attempt)
      (fun attempt => Walked σ g r starts (attempt :: attempts)) := by
  rw [Graph.attempt]
  cases found : g.node? start with
  | none => exact ensures_pure before.cons_idle
  | some n =>
    intro s other walk member
    rcases List.mem_cons.mp member with same | earlier
    · cases same
      exact ⟨listed, n, found, s, rfl⟩
    · exact before other walk earlier

theorem Graph.Walked.batch (left : Nat) {attempts : List Attempt} (found : DistinctWords)
    (before : Walked σ g r starts attempts) :
    Ensures (g.runBatch r starts left attempts found : Sampler σ Batch)
      (fun batch => Walked σ g r starts batch.attempts) := by
  induction left generalizing attempts found with
  | zero => exact ensures_pure before
  | succ left ih =>
    rw [runBatch]
    refine (Graph.ensures_drawStart σ starts).bind fun outcome listed => ?_
    cases outcome with
    | error cause => exact ensures_pure before
    | ok start =>
      refine (before.cons_attempt listed).bind fun attempt after => ?_
      cases attempt with
      | idle => exact ih found after
      | walked id walk =>
        dsimp only
        cases walk.result with
        | error cause => exact ensures_pure after
        | ok made =>
          cases made with
          | none => exact ih found after
          | some word => exact ih (found.insert word) after

theorem Graph.Walked.append {earlier later : List Attempt} (first : Walked σ g r starts earlier)
    (second : Walked σ g r starts later) : Walked σ g r starts (earlier ++ later) := by
  intro start walk member
  rcases List.mem_append.mp member with old | new
  · exact first start walk old
  · exact second start walk new

theorem Graph.Walked.rounds (tries : Nat) {rounds : List Round} (found : DistinctWords)
    (before : Walked σ g r starts (rounds.reverse.flatMap (·.attempts))) :
    Ensures (g.runRounds r starts tries rounds found : Sampler σ Report)
      (fun report => Walked σ g r starts report.attempts) := by
  have none : Walked σ g r starts [] := fun _ _ member => absurd member List.not_mem_nil
  induction tries generalizing rounds found with
  | zero => exact ensures_pure before
  | succ tries ih =>
    rw [runRounds]
    split
    · refine (none.batch _ found).bind fun batch made => ?_
      have after : Walked σ g r starts ((⟨found.size, r.count.toNat - found.size / 2,
          batch.attempts.reverse⟩ :: rounds).reverse.flatMap (·.attempts)) := by
        rw [List.reverse_cons, List.flatMap_append, List.flatMap_singleton]
        exact before.append fun start walk member => made start walk (List.mem_reverse.mp member)
      dsimp only
      cases batch.failure with
      | some cause => exact ensures_pure after
      | none => exact ih batch.found after
    · exact ensures_pure before

theorem Graph.ensures_walked : Ensures (g.generate r : Sampler σ Report)
    (fun report => Walked σ g r (g.starts.getD []) report.attempts) := by
  have none (ids : List NodeId) : Walked σ g r ids [] := fun _ _ member => absurd member List.not_mem_nil
  rw [generate]
  split
  · exact ensures_pure (none _)
  · exact ensures_pure (none _)
  · rename_i starts _ prepared
    rw [prepared]
    exact (none starts).rounds _ .empty

end Walks

end PseudoWord
