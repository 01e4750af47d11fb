import PseudoWord.Proofs.Contract
import PseudoWord.Report

namespace PseudoWord

section Succeeds

variable {σ α β : Type}

/-- Draws that never fail. -/
def Succeeds (d : Draws σ α) : Prop := Ensures d.run (fun outcome => ∃ a, outcome = .ok a)

theorem succeeds_pure (a : α) : Succeeds (pure a : Draws σ α) := fun _ => ⟨a, rfl⟩

theorem Succeeds.bind {d : Draws σ α} {f : α → Draws σ β} (first : Succeeds d)
    (later : ∀ a, Succeeds (f a)) : Succeeds (d >>= f) := by
  refine Ensures.draws_bind first (fun cause impossible => ?_) (fun a _ => later a)
  obtain ⟨a, impossible⟩ := impossible
  cases impossible

/-- What follows draws that never fail is about their answer alone. -/
theorem Succeeds.ensures {d : Draws σ α} {f : Except Failure α → Sampler σ β} {post : β → Prop}
    (first : Succeeds d) (later : ∀ a, Ensures (f (.ok a)) post) : Ensures (d.run >>= f) post := by
  refine Ensures.bind first fun outcome succeeded => ?_
  obtain ⟨a, rfl⟩ := succeeded
  exact later a

variable [Source σ] [AnsweringSource σ]

/-- A request that starts at zero is never for an empty range, so it is answered inside its bounds. -/
theorem ensures_inside (high : UInt64) : Ensures (Draws.range 0 high : Draws σ UInt64).run
    (fun outcome => ∃ value ≤ high, outcome = .ok value) := by
  intro s
  obtain ⟨value, answer⟩ := AnsweringSource.answered s (UInt64.zero_le (a := high))
  exact ⟨value, (BoundedSource.inside answer).2, answer⟩

theorem succeeds_range (high : UInt64) : Succeeds (Draws.range 0 high : Draws σ UInt64) :=
  (ensures_inside high).mono fun _ ⟨value, _, answer⟩ => ⟨value, answer⟩

theorem succeeds_isZero (high : UInt64) : Succeeds (Draws.isZero high : Draws σ Bool) :=
  (succeeds_range high).bind (fun _ => succeeds_pure _)

theorem WeightedSet.succeeds_choose (s : WeightedSet α) : Succeeds (s.choose : Draws σ (Option α)) := by
  rw [choose]
  split
  · exact succeeds_pure none
  · exact (succeeds_range _).bind (fun _ => succeeds_pure _)

theorem Node.succeeds_stops (n : Node) : Succeeds (n.stops : Draws σ Bool) := by
  rw [stops]
  split
  · exact succeeds_pure true
  · split
    · exact succeeds_isZero _
    · exact succeeds_pure false

theorem Request.succeeds_stopsAfter (r : Request) (origin current : Node) (length : Nat) :
    Succeeds (r.stopsAfter origin current length : Draws σ Bool) := by
  have long : Succeeds (r.stopsLong origin current length : Draws σ Bool) := by
    rw [stopsLong]
    split
    · refine (succeeds_isZero _).bind fun near => ?_
      split
      · exact succeeds_pure true
      · exact succeeds_isZero _
    · exact succeeds_pure false
  rw [stopsAfter]
  refine long.bind fun stop => ?_
  split
  · exact succeeds_pure true
  · exact current.succeeds_stops

end Succeeds

/-- A walk that no failure broke off. -/
def Walk.Unbroken (walk : Walk) : Prop := ∃ made, walk.result = .ok made

section Generation

variable {σ : Type} [Source σ] [AnsweringSource σ] {g : Graph} {r : Request}

theorem Walk.ensures_unbroken_follow (origin : Node) (budget : Nat) (current : Node)
    (trail : List Visit) (text : String) :
    Ensures (follow g r origin budget current trail text : Sampler σ Walk) Unbroken := by
  rw [follow]
  refine current.links.succeeds_choose.ensures fun choice => ?_
  cases choice with
  | none => exact ensures_pure ⟨_, rfl⟩
  | some target =>
    dsimp only
    cases g.node? target with
    | none => exact ensures_pure ⟨_, rfl⟩
    | some next =>
      cases budget with
      | zero => exact ensures_pure ⟨_, rfl⟩
      | succ budget =>
        refine next.fragments.succeeds_choose.ensures fun fragment => ?_
        refine (r.succeeds_stopsAfter origin next _).ensures fun stop => ?_
        cases stop with
        | true => exact ensures_pure ⟨_, rfl⟩
        | false => exact ensures_unbroken_follow origin budget next _ _

theorem Node.ensures_unbroken (n : Node) :
    Ensures (n.walk g r : Sampler σ Walk) Walk.Unbroken := by
  rw [walk]
  refine n.fragments.succeeds_choose.ensures fun fragment => ?_
  refine n.succeeds_stops.ensures fun stop => ?_
  cases stop with
  | true => exact ensures_pure ⟨_, rfl⟩
  | false => exact Walk.ensures_unbroken_follow n _ n _ _

theorem Graph.ensures_unbroken_attempt (start : NodeId) :
    Ensures (g.attempt r start : Sampler σ Attempt)
      (fun attempt => ∀ id walk, attempt = .walked id walk → walk.Unbroken) := by
  rw [attempt]
  cases g.node? start with
  | none =>
    refine ensures_pure fun _ _ impossible => ?_
    cases impossible
  | some n =>
    refine n.ensures_unbroken.bind fun walk unbroken => ensures_pure ?_
    rintro _ _ ⟨⟩
    exact unbroken

end Generation

theorem DistinctWords.prefix_insert (found : DistinctWords) (word : String) :
    found.toList <+: (found.insert word).toList := by
  rw [toList_insert]
  split
  · exact List.prefix_refl _
  · exact List.prefix_append _ _

section Reports

variable {σ : Type} [Source σ] [AnsweringSource σ] {g : Graph} {r : Request} {starts : List NodeId}

/-- A place that is drawn between the bounds is one of the places in the list. -/
theorem toNat_lt_of_drawn {α : Type} {starts : List α} (filled : starts ≠ []) {index : UInt64}
    (upper : index ≤ starts.length.toUInt64 - 1) : index.toNat < starts.length := by
  have some := List.length_pos_iff.mpr filled
  have size : starts.length.toUInt64.toNat = starts.length % 2 ^ 64 := UInt64.toNat_ofNat'
  rw [UInt64.le_iff_toNat_le, UInt64.toNat_sub, size, UInt64.toNat_one] at upper
  omega

theorem Graph.succeeds_drawStart (filled : starts ≠ []) :
    Succeeds (drawStart starts : Draws σ NodeId) := by
  rw [drawStart]
  refine (ensures_inside _).draws_bind (fun _ ⟨_, _, impossible⟩ => ?_) fun index ⟨_, upper, same⟩ => ?_
  · cases impossible
  · cases same
    rw [List.getElem?_eq_getElem (toNat_lt_of_drawn filled upper)]
    exact succeeds_pure _

/-- A batch fails at nothing, and the words that were found before it stay in front. -/
theorem Graph.ensures_batch (filled : starts ≠ []) (left : Nat) (attempts : List Attempt)
    (found : DistinctWords) :
    Ensures (g.runBatch r starts left attempts found : Sampler σ Batch)
      (fun batch => batch.failure = none ∧ found.toList <+: batch.found.toList) := by
  induction left generalizing attempts found with
  | zero => exact ensures_pure ⟨rfl, List.prefix_refl _⟩
  | succ left ih =>
    rw [runBatch]
    refine (succeeds_drawStart filled).ensures fun start => ?_
    refine (g.ensures_unbroken_attempt start).bind fun attempt unbroken => ?_
    cases attempt with
    | idle => exact ih _ _
    | walked id walk =>
      obtain ⟨made, result⟩ := unbroken id walk rfl
      simp only [result]
      cases made with
      | none => exact ih _ _
      | some word =>
        exact (ih _ _).mono fun batch holds => ⟨holds.1, (found.prefix_insert word).trans holds.2⟩

theorem Graph.ensures_rounds (filled : starts ≠ []) (tries : Nat) (rounds : List Round)
    (found : DistinctWords) :
    Ensures (g.runRounds r starts tries rounds found : Sampler σ Report)
      (fun report => report.result = .ok ⟨report.words.take r.count.toNat, r.count⟩ ∧
        found.toList <+: report.words) := by
  induction tries generalizing rounds found with
  | zero => exact ensures_pure ⟨rfl, List.prefix_refl _⟩
  | succ tries ih =>
    rw [runRounds]
    split
    · refine (g.ensures_batch filled _ _ found).bind fun batch holds => ?_
      simp only [holds.1]
      exact (ih _ batch.found).mono fun report later => ⟨later.1, holds.2.trans later.2⟩
    · exact ensures_pure ⟨rfl, List.prefix_refl _⟩

/-- A prepared graph answers every request. -/
theorem Graph.ensures_generate_result (prepared : g.isPrepared = true) (r : Request) :
    Ensures (g.generate r : Sampler σ Report)
      (fun report => report.result = .ok ⟨report.words.take r.count.toNat, r.count⟩) := by
  obtain ⟨starts, listed⟩ := Option.isSome_iff_exists.mp prepared
  rw [generate, listed]
  cases starts with
  | nil => exact ensures_pure rfl
  | cons first rest =>
    exact (ensures_rounds (List.cons_ne_nil first rest) _ _ _).mono fun _ holds => holds.1

end Reports

end PseudoWord
