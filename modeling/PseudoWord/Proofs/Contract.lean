import PseudoWord.Sampler

namespace PseudoWord

/-- A source whose answers lie between the bounds that they were asked for. -/
class BoundedSource (σ : Type) [Source σ] : Prop where
  inside : ∀ {low high : UInt64} {s : σ} {value : UInt64},
    (Source.draw low high s).1 = .ok value → low ≤ value ∧ value ≤ high

/-- A source that keeps the whole contract: it answers inside the bounds whenever there is such an
answer, and it fails on an empty range. -/
class ContractSource (σ : Type) [Source σ] : Prop extends BoundedSource σ where
  answered : ∀ {low high : UInt64} (s : σ), low ≤ high → ∃ value, (Source.draw low high s).1 = .ok value
  refused : ∀ {low high : UInt64} (s : σ), high < low →
    (Source.draw low high s).1 = .error (.invalidRange low high)

/-- A source that answers inside the bounds whenever there is such an answer. How it fails on an empty
range is left open. -/
class AnsweringSource (σ : Type) [Source σ] : Prop extends BoundedSource σ where
  answered : ∀ {low high : UInt64} (s : σ), low ≤ high → ∃ value, (Source.draw low high s).1 = .ok value

instance {σ : Type} [Source σ] [ContractSource σ] : AnsweringSource σ := ⟨ContractSource.answered⟩

section Ensures

variable {σ α β : Type}

/-- Whatever state the source is in, the outcome is as stated. -/
def Ensures (m : Sampler σ α) (post : α → Prop) : Prop := ∀ s, post (m.run s).1

theorem ensures_pure {post : α → Prop} {a : α} (holds : post a) :
    Ensures (pure a : Sampler σ α) post := fun _ => holds

theorem Ensures.bind {m : Sampler σ α} {f : α → Sampler σ β} {mid : α → Prop} {post : β → Prop}
    (first : Ensures m mid) (later : ∀ a, mid a → Ensures (f a) post) : Ensures (m >>= f) post :=
  fun s => later _ (first s) (m.run s).2

theorem ensures_bind_any {m : Sampler σ α} {f : α → Sampler σ β} {post : β → Prop}
    (later : ∀ a, Ensures (f a) post) : Ensures (m >>= f) post := fun s => later _ (m.run s).2

theorem Ensures.mono {m : Sampler σ α} {mid post : α → Prop} (first : Ensures m mid)
    (weaker : ∀ a, mid a → post a) : Ensures m post := fun s => weaker _ (first s)

theorem ensures_draws_pure {post : Except Failure α → Prop} {a : α} (holds : post (.ok a)) :
    Ensures (pure a : Draws σ α).run post := fun _ => holds

/-- Draws that may fail, but whose answer is as stated. -/
def Answers (post : α → Prop) : Except Failure α → Prop
  | .ok a => post a
  | .error _ => True

theorem ensures_answers {post : α → Prop} (d : Draws σ α) (always : ∀ a, post a) :
    Ensures d.run (Answers post) := by
  intro s
  cases (d.run.run s).1 with
  | error cause => trivial
  | ok a => exact always a

theorem ensures_range [Source σ] [BoundedSource σ] (low high : UInt64) :
    Ensures (Draws.range low high : Draws σ UInt64).run
      (Answers (fun value => low ≤ value ∧ value ≤ high)) := by
  intro s
  change Answers _ (Source.draw low high s).1
  cases answer : (Source.draw low high s).1 with
  | error cause => trivial
  | ok value => exact BoundedSource.inside answer

/-- A failure ends the draws; otherwise they go on with the answer. -/
theorem Ensures.draws_bind {d : Draws σ α} {f : α → Draws σ β} {mid : Except Failure α → Prop}
    {post : Except Failure β → Prop} (first : Ensures d.run mid)
    (failed : ∀ cause, mid (.error cause) → post (.error cause))
    (later : ∀ a, mid (.ok a) → Ensures (f a).run post) : Ensures (d >>= f).run post := by
  rw [ExceptT.run_bind]
  refine first.bind fun answer holds => ?_
  cases answer with
  | error cause => exact ensures_pure (failed cause holds)
  | ok a => exact later a holds

end Ensures

end PseudoWord
