import PseudoWord.Proofs.AnsweredRounds
import PseudoWord.Proofs.CountedWalks
import PseudoWord.Proofs.RereadGeneration

namespace PseudoWord

namespace Graph

variable {σ : Type} [Source σ] {g : Graph} {r : Request} {starts : List NodeId} {s : σ}

section Picked

theorem ensures_drawn_picked (known : ∀ id ∈ starts, ∃ n, g.node? id = some n) :
    Ensures (g.drawnAttempt r starts : Sampler σ (Except Failure Attempt))
      (fun outcome => outcome ≠ .ok .idle) := by
  rw [drawnAttempt]
  refine (ensures_drawStart σ starts).bind fun outcome listed => ?_
  cases outcome with
  | error cause =>
    refine ensures_pure fun same => ?_
    cases same
  | ok start =>
    obtain ⟨n, found⟩ := known start listed
    have walked : Ensures (g.attempt r start : Sampler σ Attempt) (· ≠ .idle) := by
      rw [attempt, found]
      refine ensures_bind_any fun walk => ensures_pure fun same => ?_
      cases same
    refine walked.bind fun attempt walks => ensures_pure ?_
    exact fun idle => walks (Except.ok.inj idle)

/-- Where the graph holds all start nodes, every attempt is a walk. -/
theorem Successive.picked (known : ∀ id ∈ starts, ∃ n, g.node? id = some n)
    {attempts : List Attempt} (all : g.Successive r starts s attempts) : Attempt.idle ∉ attempts := by
  induction all with
  | start => exact List.not_mem_nil
  | @next attempts attempt _ _ follows _ ih =>
    intro member
    rcases List.mem_append.mp member with earlier | last
    · exact ih earlier
    · rw [← List.mem_singleton.mp last] at follows
      exact ensures_drawn_picked known _ follows

theorem Reachable.picked_generate (reach : Reachable g)
    (prepared : g.starts = some starts) (filled : starts ≠ []) {generation : Generation}
    (succeeded : ((g.generate r).run s).1.result = .ok generation) :
    Attempt.idle ∉ ((g.generate r).run s).1.attempts := by
  refine (answered_generate prepared filled succeeded).attempts.picked fun id initial => ?_
  obtain ⟨n, found, _⟩ := (reach.wellFormed.mem_starts_iff prepared).mp initial
  exact ⟨n, found⟩

end Picked

/-- Three words in two rounds, of a language that has only two. -/
def twoRounds : Request := ⟨3, 0, 5, 2, 10, .origin⟩

end Graph

end PseudoWord
