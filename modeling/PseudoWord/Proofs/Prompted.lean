import PseudoWord.Choice
import PseudoWord.Proofs.Contract
import PseudoWord.Proofs.RunningTotals

namespace PseudoWord

/-- A source that is prompted: it answers with the next prompt where that is allowed, and with the
lower bound where it is not or where no prompt is left. -/
structure Prompted where
  pending : List UInt64

instance : Source Prompted where
  draw low high s :=
    if high < low then (.error (.invalidRange low high), s)
    else match s.pending with
      | [] => (.ok low, s)
      | prompt :: rest => (.ok (if low ≤ prompt ∧ prompt ≤ high then prompt else low), ⟨rest⟩)

theorem Prompted.draw_cons {low high prompt : UInt64} (lower : low ≤ prompt) (upper : prompt ≤ high)
    (rest : List UInt64) :
    Source.draw low high (Prompted.mk (prompt :: rest)) = (.ok prompt, ⟨rest⟩) := by
  have order : ¬ high < low := UInt64.not_lt.mpr (UInt64.le_trans lower upper)
  simp only [Source.draw, if_neg order, if_pos (And.intro lower upper)]

instance : ContractSource Prompted where
  inside := by
    intro low high s value answer
    by_cases empty : high < low
    · simp [Source.draw, empty] at answer
    · have order := UInt64.not_lt.mp empty
      obtain ⟨pending⟩ := s
      cases pending with
      | nil =>
        simp only [Source.draw, if_neg empty] at answer
        cases answer
        exact ⟨UInt64.le_refl _, order⟩
      | cons prompt rest =>
        simp only [Source.draw, if_neg empty] at answer
        cases answer
        split
        · rename_i allowed
          exact allowed
        · exact ⟨UInt64.le_refl _, order⟩
  answered := by
    intro low high s order
    have filled := UInt64.not_lt.mpr order
    obtain ⟨pending⟩ := s
    cases pending with
    | nil => exact ⟨low, by simp only [Source.draw, if_neg filled]⟩
    | cons prompt rest =>
      refine ⟨if low ≤ prompt ∧ prompt ≤ high then prompt else low, ?_⟩
      simp only [Source.draw, if_neg filled]
  refused s empty := by simp only [Source.draw, if_pos empty]

section Plays

variable {α β : Type}

/-- A computation gives an outcome and uses up these prompts, no more and no fewer. -/
def Plays (m : Sampler Prompted α) (prompts : List UInt64) (outcome : α) : Prop :=
  ∀ later, m.run ⟨prompts ++ later⟩ = (outcome, ⟨later⟩)

theorem Plays.bind {m : Sampler Prompted α} {f : α → Sampler Prompted β} {earlier next : List UInt64}
    {a : α} {b : β} (first : Plays m earlier a) (second : Plays (f a) next b) :
    Plays (m >>= f) (earlier ++ next) b := by
  intro later
  rw [StateT.run_bind, List.append_assoc, first]
  exact second later

theorem Plays.unique {m : Sampler Prompted α} {prompts more : List UInt64} {a b : α}
    (one : Plays m prompts a) (other : Plays m (prompts ++ more) b) : more = [] := by
  have first := one more
  have second := other []
  rw [List.append_nil, first] at second
  exact congrArg (fun outcome => outcome.2.pending) second

end Plays

/-- Some prompts make a computation give an outcome, and it uses up no more than these. -/
def Yields {α : Type} (m : Sampler Prompted α) (outcome : α) : Prop :=
  ∃ prompts, ∀ later, m.run ⟨prompts ++ later⟩ = (outcome, ⟨later⟩)

section Yields

variable {α β : Type}

theorem yields_pure (a : α) : Yields (pure a) a := ⟨[], fun _ => rfl⟩

theorem Yields.bind {m : Sampler Prompted α} {f : α → Sampler Prompted β} {a : α} {b : β}
    (first : Yields m a) (second : Yields (f a) b) : Yields (m >>= f) b := by
  obtain ⟨earlier, plays⟩ := first
  obtain ⟨next, later⟩ := second
  exact ⟨earlier ++ next, Plays.bind plays later⟩

theorem yields_draws_pure (a : α) : Yields (pure a : Draws Prompted α).run (.ok a) := yields_pure _

theorem Yields.draws_bind {d : Draws Prompted α} {f : α → Draws Prompted β} {a : α}
    {outcome : Except Failure β} (first : Yields d.run (.ok a)) (second : Yields (f a).run outcome) :
    Yields (d >>= f).run outcome := by
  rw [ExceptT.run_bind]
  exact first.bind second

theorem yields_range {low high value : UInt64} (lower : low ≤ value) (upper : value ≤ high) :
    Yields (Draws.range low high).run (.ok value) :=
  ⟨[value], fun later => Prompted.draw_cons lower upper later⟩

theorem yields_isZero (high : UInt64) : Yields (Draws.isZero high).run (.ok true) :=
  (yields_range (UInt64.le_refl 0) UInt64.zero_le).draws_bind (yields_draws_pure true)

/-- A number from more than one can be other than zero. -/
theorem yields_isNonzero {high : UInt64} (positive : 0 < high) :
    Yields (Draws.isZero high).run (.ok false) := by
  have one : 1 ≤ high := UInt64.le_iff_toNat_le.mpr (UInt64.lt_iff_toNat_lt.mp positive)
  exact (yields_range UInt64.zero_le one).draws_bind (yields_draws_pure false)

/-- Every item of a sound set can be chosen. -/
theorem WeightedSet.Sound.yields_choose {s : WeightedSet α} (sound : s.Sound) {item : α}
    (member : item ∈ s.values) : Yields (s.choose (σ := Prompted)).run (.ok (some item)) := by
  obtain ⟨draw, below, picked⟩ := sound.sample_eq_some member
  have filled : ¬ s.isEmpty = true := fun empty =>
    absurd ((s.isEmpty_iff.mp empty) ▸ member) List.not_mem_nil
  have upper : draw ≤ s.total - 1 := by
    have below := UInt64.lt_iff_toNat_lt.mp below
    have largest := sound.toNat_total_pred (Bool.eq_false_iff.mpr filled)
    rw [UInt64.le_iff_toNat_le]
    omega
  rw [choose, if_neg filled]
  refine (yields_range UInt64.zero_le upper).draws_bind ?_
  rw [picked]
  exact yields_draws_pure _

theorem WeightedSet.yields_choose_none {s : WeightedSet α} (empty : s.values = []) :
    Yields (s.choose (σ := Prompted)).run (.ok none) := by
  rw [choose, if_pos (s.isEmpty_iff.mpr empty)]
  exact yields_draws_pure none

end Yields

end PseudoWord
