import PseudoWord.Choice
import PseudoWord.Source.Basic

namespace PseudoWord

section Records

variable {σ α β : Type}

/-- A computation beside the same computation on a source that records its requests. Both have one
outcome and leave the source in one state, and the requests come on top of the record; outcome and
requests are as stated. -/
def Records (m : Sampler σ α) (traced : Sampler (Traced σ) α) (post : α → List Draw → Prop) : Prop :=
  ∀ t : Traced σ, ∃ draws, post (m.run t.source).1 draws ∧
    traced.run t = ((m.run t.source).1, ⟨(m.run t.source).2, draws.reverse ++ t.latest⟩)

theorem records_pure {post : α → List Draw → Prop} {a : α} (holds : post a []) :
    Records (pure a : Sampler σ α) (pure a) post := fun _ => ⟨[], holds, rfl⟩

theorem Records.bind {m : Sampler σ α} {traced : Sampler (Traced σ) α} {f : α → Sampler σ β}
    {tracedThen : α → Sampler (Traced σ) β} {mid : α → List Draw → Prop} {post : β → List Draw → Prop}
    (first : Records m traced mid)
    (later : ∀ a earlier, mid a earlier →
      Records (f a) (tracedThen a) (fun b draws => post b (earlier ++ draws))) :
    Records (m >>= f) (traced >>= tracedThen) post := by
  intro t
  obtain ⟨earlier, holds, ran⟩ := first t
  obtain ⟨draws, posts, ranOn⟩ :=
    later _ earlier holds ⟨(m.run t.source).2, earlier.reverse ++ t.latest⟩
  refine ⟨earlier ++ draws, posts, ?_⟩
  rw [StateT.run_bind, ran, List.reverse_append, List.append_assoc]
  exact ranOn

theorem Records.mono {m : Sampler σ α} {traced : Sampler (Traced σ) α}
    {mid post : α → List Draw → Prop} (records : Records m traced mid)
    (weaker : ∀ a draws, mid a draws → post a draws) : Records m traced post := by
  intro t
  obtain ⟨draws, holds, ran⟩ := records t
  exact ⟨draws, weaker _ draws holds, ran⟩

/-- From an empty record on, the trace is what was requested. -/
theorem Records.trace {m : Sampler σ α} {traced : Sampler (Traced σ) α} {post : α → List Draw → Prop}
    (records : Records m traced post) (s : σ) :
    (traced.run (.start s)).1 = (m.run s).1 ∧ (traced.run (.start s)).2.source = (m.run s).2 ∧
      post (m.run s).1 (traced.run (.start s)).2.trace := by
  obtain ⟨draws, holds, ran⟩ := records (.start s)
  rw [ran]
  refine ⟨rfl, rfl, ?_⟩
  rw [Traced.trace, Traced.start, List.append_nil, List.reverse_reverse]
  exact holds

theorem Records.of_traced {m : Sampler σ α} {traced : Sampler (Traced σ) α}
    {post : α → List Draw → Prop} (records : Records m traced post) {s : σ} {a : α} {after : Traced σ}
    (ran : traced.run (.start s) = (a, after)) : m.run s = (a, after.source) ∧ post a after.trace := by
  obtain ⟨same, source, holds⟩ := records.trace s
  rw [ran] at same source holds
  rw [← same] at holds
  exact ⟨Prod.ext same.symm source.symm, holds⟩

end Records

/-- The failure of an outcome, if it is one. -/
def failureOf {α : Type} : Except Failure α → Option Failure
  | .error cause => some cause
  | .ok _ => none

theorem failureOf_eq_some_iff {α : Type} {outcome : Except Failure α} {cause : Failure} :
    failureOf outcome = some cause ↔ outcome = .error cause := by
  cases outcome with
  | ok a => exact iff_of_false nofun nofun
  | error other => rw [failureOf, Option.some.injEq, Except.error.injEq]

theorem failureOf_eq_none_iff {α : Type} {outcome : Except Failure α} :
    failureOf outcome = none ↔ ∃ a, outcome = .ok a := by
  cases outcome with
  | ok a => exact iff_of_true rfl ⟨a, rfl⟩
  | error cause => exact iff_of_false nofun fun ⟨_, impossible⟩ => by cases impossible

/-- The source may answer a request with this. -/
def Draw.Gets (σ : Type) [Source σ] (draw : Draw) (answer : Except Failure UInt64) : Prop :=
  ∃ s : σ, (Source.draw draw.low draw.high s).1 = answer

/-- The source may fail a request with this cause. -/
def Draw.Fails (σ : Type) [Source σ] (draw : Draw) (cause : Failure) : Prop := draw.Gets σ (.error cause)

/-- Requests that start at zero and ask for nothing but what is stated, no more of them than a limit,
each with the answer of the source. A failure came of the last one, in a way that is stated too. -/
structure Recorded (σ : Type) [Source σ] (asks : UInt64 → Prop) (breaks : Draw → Failure → Prop)
    (limit : Nat) (failure : Option Failure) (draws : List Draw) : Prop where
  few : draws.length ≤ limit
  asked : ∀ draw ∈ draws, draw.low = 0 ∧ asks draw.high ∧
    ∃ answer, draw.Gets σ answer ∧ draw.value = answer.toOption
  failed : ∀ cause, failure = some cause → ∃ draw, draws.getLast? = some draw ∧ breaks draw cause

section Recorded

variable {σ α β : Type} [Source σ] {asks wider : UInt64 → Prop} {breaks looser : Draw → Failure → Prop}
  {limit more : Nat} {failure : Option Failure} {earlier draws : List Draw}

theorem recorded_nil : Recorded σ asks breaks limit none [] :=
  ⟨Nat.zero_le _, fun _ member => absurd member List.not_mem_nil, fun _ impossible => by cases impossible⟩

theorem recorded_singleton {draw : Draw} {answer : Except Failure UInt64} (low : draw.low = 0)
    (asked : asks draw.high) (gets : draw.Gets σ answer) (value : draw.value = answer.toOption)
    (failed : ∀ cause, failure = some cause → breaks draw cause) :
    Recorded σ asks breaks 1 failure [draw] := by
  refine ⟨Nat.le_refl 1, fun other member => ?_, fun cause broken => ⟨draw, rfl, failed cause broken⟩⟩
  cases List.mem_singleton.mp member
  exact ⟨low, asked, answer, gets, value⟩

theorem Recorded.append (first : Recorded σ asks breaks limit none earlier)
    (later : Recorded σ asks breaks more failure draws) :
    Recorded σ asks breaks (limit + more) failure (earlier ++ draws) := by
  refine ⟨?_, fun draw member => ?_, fun cause broken => ?_⟩
  · rw [List.length_append]
    exact Nat.add_le_add first.few later.few
  · rcases List.mem_append.mp member with old | new
    · exact first.asked draw old
    · exact later.asked draw new
  · obtain ⟨draw, last, why⟩ := later.failed cause broken
    exact ⟨draw, by rw [List.getLast?_append, last, Option.some_or], why⟩

theorem Recorded.mono (recorded : Recorded σ asks breaks limit failure draws)
    (weaker : ∀ high, asks high → wider high)
    (broken : ∀ draw cause, breaks draw cause → looser draw cause) (fits : limit ≤ more) :
    Recorded σ wider looser more failure draws := by
  refine ⟨Nat.le_trans recorded.few fits, fun draw member => ?_, fun cause failed => ?_⟩
  · obtain ⟨low, asked, answer⟩ := recorded.asked draw member
    exact ⟨low, weaker _ asked, answer⟩
  · obtain ⟨draw, last, why⟩ := recorded.failed cause failed
    exact ⟨draw, last, broken draw cause why⟩

/-- A computation whose requests are recorded like this, where `broken` tells the failure of an outcome;
the outcome is as stated. -/
def Spends (asks : UInt64 → Prop) (breaks : Draw → Failure → Prop) (limit : Nat)
    (broken : α → Option Failure) (post : α → Prop) (m : Sampler σ α)
    (traced : Sampler (Traced σ) α) : Prop :=
  Records m traced fun a draws => Recorded σ asks breaks limit (broken a) draws ∧ post a

variable {broken : β → Option Failure} {post : β → Prop} {m : Sampler σ β}
  {traced : Sampler (Traced σ) β}

theorem spends_pure {b : β} (unbroken : broken b = none) (holds : post b) :
    Spends asks breaks limit broken post (pure b : Sampler σ β) (pure b) :=
  records_pure ⟨unbroken ▸ recorded_nil, holds⟩

theorem Spends.mono (spends : Spends asks breaks limit broken post m traced)
    (weaker : ∀ high, asks high → wider high)
    (why : ∀ draw cause, breaks draw cause → looser draw cause) (fits : limit ≤ more) :
    Spends wider looser more broken post m traced :=
  Records.mono spends fun _ _ holds => ⟨holds.1.mono weaker why fits, holds.2⟩

theorem Spends.imp {other : β → Prop} (spends : Spends asks breaks limit broken post m traced)
    (weaker : ∀ b, post b → other b) : Spends asks breaks limit broken other m traced :=
  Records.mono spends fun b _ holds => ⟨holds.1, weaker b holds.2⟩

/-- What comes after a computation that broke off is nothing; otherwise the requests add up. -/
theorem Spends.bind {first : Sampler σ α} {tracedFirst : Sampler (Traced σ) α} {f : α → Sampler σ β}
    {tracedThen : α → Sampler (Traced σ) β} {brokenFirst : α → Option Failure} {mid : α → Prop}
    (spends : Spends asks breaks limit brokenFirst mid first tracedFirst)
    (stopped : ∀ a cause, brokenFirst a = some cause → mid a →
      ∃ b, f a = pure b ∧ tracedThen a = pure b ∧ broken b = some cause ∧ post b)
    (later : ∀ a, brokenFirst a = none → mid a →
      Spends asks breaks more broken post (f a) (tracedThen a)) :
    Spends asks breaks (limit + more) broken post (first >>= f) (tracedFirst >>= tracedThen) := by
  refine Records.bind spends fun a earlier holds => ?_
  obtain ⟨recorded, holds⟩ := holds
  cases ended : brokenFirst a with
  | none =>
    rw [ended] at recorded
    exact Records.mono (later a ended holds) fun b draws after => ⟨recorded.append after.1, after.2⟩
  | some cause =>
    obtain ⟨b, stops, tracedStops, same, posts⟩ := stopped a cause ended holds
    rw [stops, tracedStops]
    refine records_pure ⟨?_, posts⟩
    rw [List.append_nil, same, ← ended]
    exact recorded.mono (fun _ asked => asked) (fun _ _ why => why) (Nat.le_add_right _ _)

theorem Spends.map {first : Sampler σ α} {tracedFirst : Sampler (Traced σ) α} {f : α → β}
    {brokenFirst : α → Option Failure} {mid : α → Prop}
    (spends : Spends asks breaks limit brokenFirst mid first tracedFirst)
    (same : ∀ a, broken (f a) = brokenFirst a) (holds : ∀ a, mid a → post (f a)) :
    Spends asks breaks limit broken post (first >>= fun a => pure (f a))
      (tracedFirst >>= fun a => pure (f a)) := by
  refine Records.bind spends fun a earlier recorded => records_pure ⟨?_, holds a recorded.2⟩
  rw [List.append_nil, same]
  exact recorded.1

end Recorded

section Draws

variable {σ α β : Type} [Source σ] {asks : UInt64 → Prop} {breaks : Draw → Failure → Prop}
  {limit more : Nat}

/-- After draws comes either the outcome that tells their failure, or what follows their answer. -/
theorem Spends.draws_bind {d : Draws σ α} {traced : Draws (Traced σ) α} {f : Except Failure α → Sampler σ β}
    {tracedThen : Except Failure α → Sampler (Traced σ) β} {broken : β → Option Failure}
    {mid : Except Failure α → Prop} {post : β → Prop}
    (first : Spends asks breaks limit failureOf mid d.run traced.run)
    (stopped : ∀ cause, ∃ b, f (.error cause) = pure b ∧ tracedThen (.error cause) = pure b ∧
      broken b = some cause ∧ post b)
    (later : ∀ a, Spends asks breaks more broken post (f (.ok a)) (tracedThen (.ok a))) :
    Spends asks breaks (limit + more) broken post (d.run >>= f) (traced.run >>= tracedThen) := by
  refine Spends.bind first (fun outcome cause broke _ => ?_) fun outcome unbroken _ => ?_
  · cases failureOf_eq_some_iff.mp broke
    exact stopped cause
  · obtain ⟨a, rfl⟩ := failureOf_eq_none_iff.mp unbroken
    exact later a

/-- Draws that ask for no more than this, whatever they answer. They fail as the source fails. -/
def Asks (asks : UInt64 → Prop) (limit : Nat) (d : Draws σ α) (traced : Draws (Traced σ) α) : Prop :=
  Spends asks (Draw.Fails σ) limit failureOf (fun _ => True) d.run traced.run

theorem asks_pure (a : α) : Asks asks limit (pure a : Draws σ α) (pure a) := spends_pure rfl trivial

theorem Asks.bind {d : Draws σ α} {traced : Draws (Traced σ) α} {f : α → Draws σ β}
    {tracedThen : α → Draws (Traced σ) β} (first : Asks asks limit d traced)
    (later : ∀ a, Asks asks more (f a) (tracedThen a)) :
    Asks asks (limit + more) (d >>= f) (traced >>= tracedThen) := by
  rw [Asks, ExceptT.run_bind, ExceptT.run_bind]
  exact Spends.draws_bind first (fun cause => ⟨_, rfl, rfl, rfl, trivial⟩) later

theorem Asks.bind_pure {d : Draws σ α} {traced : Draws (Traced σ) α} (f : α → β)
    (first : Asks asks limit d traced) :
    Asks asks limit (d >>= fun a => pure (f a)) (traced >>= fun a => pure (f a)) := by
  have last (a : α) : Asks asks 0 (pure (f a) : Draws σ β) (pure (f a)) := asks_pure _
  exact first.bind last

/-- One request, whose answer is the outcome. -/
theorem records_range (high : UInt64) :
    Records (Draws.range 0 high : Draws σ UInt64).run (Draws.range 0 high).run fun outcome draws =>
      ∃ draw : Draw, draws = [draw] ∧ draw.low = 0 ∧ draw.high = high ∧
        draw.Gets σ outcome ∧ draw.value = outcome.toOption :=
  fun t => ⟨_, ⟨⟨0, high, _⟩, rfl, rfl, rfl, ⟨t.source, rfl⟩, rfl⟩, rfl⟩

theorem asks_range {high : UInt64} (asked : asks high) :
    Asks asks 1 (Draws.range 0 high : Draws σ UInt64) (Draws.range 0 high) := by
  rw [Asks, Spends]
  refine (records_range high).mono fun outcome draws holds => ⟨?_, trivial⟩
  obtain ⟨draw, rfl, low, rfl, gets, value⟩ := holds
  refine recorded_singleton low asked gets value fun cause broke => ?_
  rwa [failureOf_eq_some_iff.mp broke] at gets

theorem asks_isZero {high : UInt64} (asked : asks high) :
    Asks asks 1 (Draws.isZero high : Draws σ Bool) (Draws.isZero high) :=
  (asks_range asked).bind_pure _

theorem WeightedSet.asks_choose {s : WeightedSet α} (asked : s.isEmpty = false → asks (s.total - 1)) :
    Asks asks 1 (s.choose : Draws σ (Option α)) s.choose := by
  rw [choose, choose]
  split
  · exact asks_pure none
  · rename_i filled
    exact (asks_range (asked (Bool.eq_false_iff.mpr filled))).bind_pure _

end Draws

end PseudoWord
