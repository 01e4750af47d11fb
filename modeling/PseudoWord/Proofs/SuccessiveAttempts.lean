import PseudoWord.Proofs.MergedReports

namespace PseudoWord

/-- The word of an attempt, nothing for one that was discarded, or the failure that broke it off. -/
def Attempt.result : Attempt → Except Failure (Option String)
  | .walked _ walk => walk.result
  | .idle => .ok none

theorem Attempt.word?_eq (attempt : Attempt) : attempt.word? = attempt.result.toOption.join := by
  cases attempt <;> rfl

variable {σ : Type} [Source σ]

namespace Graph

/-- An attempt from a start node that one draw picks, or the failure of that draw. -/
def drawnAttempt (g : Graph) (r : Request) (starts : List NodeId) :
    Sampler σ (Except Failure Attempt) := do
  match ← (drawStart starts).run with
  | .error cause => return .error cause
  | .ok start => return .ok (← g.attempt r start)

section Successive

variable (g : Graph) (r : Request) (starts : List NodeId) (s : σ)

/-- The source after so many successive attempts. -/
def sourceAfter : Nat → σ
  | 0 => s
  | made + 1 => ((g.drawnAttempt r starts).run (sourceAfter made)).2

/-- The attempt that follows on so many others. -/
def attemptAfter (made : Nat) : Except Failure Attempt :=
  ((g.drawnAttempt r starts).run (g.sourceAfter r starts s made)).1

/-- The word of the attempt that follows on so many others, if it makes one. -/
def wordAfter (made : Nat) : Option String :=
  ((g.attemptAfter r starts s made).bind Attempt.result).toOption.join

/-- The distinct words of the first so many attempts, in the order of their first occurrences. -/
def wordsAfter (made : Nat) : List String :=
  ((List.range made).filterMap (g.wordAfter r starts s)).eraseDups

theorem wordsAfter_succ (made : Nat) :
    g.wordsAfter r starts s (made + 1) = g.wordsAfter r starts s made ∨
      ∃ word, g.wordsAfter r starts s (made + 1) = g.wordsAfter r starts s made ++ [word] := by
  rw [wordsAfter, wordsAfter, List.range_succ, List.filterMap_append]
  cases last : g.wordAfter r starts s made with
  | none =>
    rw [List.filterMap_cons_none last, List.filterMap_nil, List.append_nil]
    exact .inl rfl
  | some word =>
    rw [List.filterMap_cons_some last, List.filterMap_nil, DistinctWords.eraseDups_append_singleton]
    split
    · exact .inl rfl
    · exact .inr ⟨word, rfl⟩

/-- Further attempts add words at the end, at most one each. -/
theorem wordsAfter_add (made more : Nat) :
    g.wordsAfter r starts s made <+: g.wordsAfter r starts s (made + more) ∧
      (g.wordsAfter r starts s (made + more)).length ≤ (g.wordsAfter r starts s made).length + more := by
  induction more with
  | zero => exact ⟨List.prefix_refl _, Nat.le_refl _⟩
  | succ more ih =>
    rw [← Nat.add_assoc made]
    rcases g.wordsAfter_succ r starts s (made + more) with same | ⟨word, longer⟩
    · rw [same]
      exact ⟨ih.1, Nat.le_succ_of_le ih.2⟩
    · rw [longer, List.length_append]
      exact ⟨ih.1.trans (List.prefix_append _ _), Nat.succ_le_succ ih.2⟩

theorem wordsAfter_mono {first later : Nat} (order : first ≤ later) :
    g.wordsAfter r starts s first <+: g.wordsAfter r starts s later := by
  obtain ⟨more, rfl⟩ := Nat.exists_eq_add_of_le order
  exact (g.wordsAfter_add r starts s first more).1

/-- The first so many attempts, in order; none of them was broken off. -/
inductive Successive : List Attempt → Prop
  | start : Successive []
  | next {attempts : List Attempt} {attempt : Attempt} {made : Option String} :
      Successive attempts → g.attemptAfter r starts s attempts.length = .ok attempt →
      attempt.result = .ok made → Successive (attempts ++ [attempt])

variable {g r starts s}

theorem Successive.result_ok {attempts : List Attempt} (all : g.Successive r starts s attempts)
    {made : Nat} (earlier : made < attempts.length) :
    ∃ word, (g.attemptAfter r starts s made).bind Attempt.result = .ok word := by
  induction all with
  | start => exact absurd earlier (Nat.not_lt_zero made)
  | @next attempts attempt word _ follows answered ih =>
    rw [List.length_append, List.length_singleton] at earlier
    rcases Nat.lt_succ_iff_lt_or_eq.mp earlier with before | rfl
    · exact ih before
    · exact ⟨word, by rw [follows]; exact answered⟩

theorem Successive.words {attempts : List Attempt} (all : g.Successive r starts s attempts) :
    attempts.filterMap Attempt.word? =
      (List.range attempts.length).filterMap (g.wordAfter r starts s) := by
  induction all with
  | start => rfl
  | @next attempts attempt word _ follows _ ih =>
    have last : attempt.word? = g.wordAfter r starts s attempts.length := by
      rw [wordAfter, follows, Attempt.word?_eq]
      rfl
    rw [List.length_append, List.length_singleton, List.range_succ, List.filterMap_append, ih,
      List.filterMap_append]
    congr 1
    rw [List.filterMap_cons, List.filterMap_cons, last]
    rfl

theorem runBatch_succ (left : Nat) (attempts : List Attempt) (found : DistinctWords) :
    g.runBatch r starts (left + 1) attempts found =
      (g.drawnAttempt r starts : Sampler σ (Except Failure Attempt)) >>= fun outcome =>
        match outcome with
        | .error cause => pure ⟨attempts, found, some cause⟩
        | .ok attempt =>
          match attempt.result with
          | .error cause => pure ⟨attempt :: attempts, found, some cause⟩
          | .ok made => g.runBatch r starts left (attempt :: attempts) (found.insertAll made.toList) := by
  rw [runBatch, drawnAttempt, bind_assoc]
  refine bind_congr fun outcome => ?_
  cases outcome with
  | error cause => rfl
  | ok start =>
    dsimp only
    rw [bind_assoc]
    refine bind_congr fun attempt => ?_
    cases attempt with
    | idle => rfl
    | walked start walk =>
      change _ = match walk.result with | .error cause => _ | .ok made => _
      dsimp only
      cases walk.result with
      | error cause => rfl
      | ok made => cases made <;> rfl

/-- A batch that nothing broke off makes the next attempts in order, as many as it is to make. -/
theorem Successive.batch {left : Nat} {before attempts : List Attempt} {found : DistinctWords}
    {batch : Batch} {after : σ} (all : g.Successive r starts s (before ++ attempts.reverse))
    (run : (g.runBatch r starts left attempts found).run
      (g.sourceAfter r starts s (before ++ attempts.reverse).length) = (batch, after))
    (unbroken : batch.failure = none) :
    g.Successive r starts s (before ++ batch.attempts.reverse) ∧
      after = g.sourceAfter r starts s (before ++ batch.attempts.reverse).length ∧
      batch.attempts.length = attempts.length + left := by
  induction left generalizing attempts found with
  | zero =>
    cases run
    exact ⟨all, rfl, rfl⟩
  | succ left ih =>
    rw [runBatch_succ, StateT.run_bind] at run
    have outcome : (g.drawnAttempt r starts).run
        (g.sourceAfter r starts s (before ++ attempts.reverse).length) =
          (g.attemptAfter r starts s (before ++ attempts.reverse).length,
            g.sourceAfter r starts s ((before ++ attempts.reverse).length + 1)) := rfl
    rw [outcome] at run
    cases follows : g.attemptAfter r starts s (before ++ attempts.reverse).length with
    | error cause =>
      rw [follows] at run
      cases run
      cases unbroken
    | ok attempt =>
      rw [follows] at run
      dsimp only [bind] at run
      cases answered : attempt.result with
      | error cause =>
        rw [answered] at run
        cases run
        cases unbroken
      | ok made =>
        rw [answered] at run
        have longer : before ++ (attempt :: attempts).reverse =
            before ++ attempts.reverse ++ [attempt] := by
          rw [List.reverse_cons, List.append_assoc]
        have further : g.Successive r starts s (before ++ (attempt :: attempts).reverse) :=
          longer ▸ all.next follows answered
        have one : (before ++ (attempt :: attempts).reverse).length =
            (before ++ attempts.reverse).length + 1 := by rw [longer, List.length_append]; rfl
        obtain ⟨successive, last, size⟩ := ih further (one ▸ run)
        rw [List.length_cons, Nat.add_assoc, Nat.add_comm 1] at size
        exact ⟨successive, last, size⟩

end Successive

end Graph

end PseudoWord
