import PseudoWord.Proofs.Prompted
import PseudoWord.Proofs.ShortPath
import PseudoWord.Walk

namespace PseudoWord

theorem Node.toNat_fanOut_succ (n : Node) : (n.fanOut + 1).toNat = n.fanOut.toNat + 1 := by
  have bound : n.fanOut.toNat ≤ UInt64.size - 2 := by
    have less : min n.links.size (UInt64.size - 2) < UInt64.size := by
      have size : 2 < UInt64.size := by decide
      omega
    rw [fanOut, Nat.toUInt64, UInt64.toNat_ofNat_of_lt' less]
    exact Nat.min_le_right _ _
  have size : UInt64.size = 2 ^ 64 := rfl
  rw [UInt64.toNat_add, UInt64.toNat_one, Nat.mod_eq_of_lt (by omega)]

theorem Node.fanOut_succ_pos (n : Node) : 0 < n.fanOut + 1 := by
  rw [UInt64.lt_iff_toNat_lt, n.toNat_fanOut_succ]
  exact Nat.succ_pos _

theorem Request.toNat_room (r : Request) (length : Nat) :
    (r.room length).toNat = min (r.maxLength.toNat + 1) (UInt64.size - 1) - length := by
  have size : 1 < UInt64.size := by decide
  exact UInt64.toNat_ofNat_of_lt' (by omega)

/-- Up to the longest length that is wanted, and short of the largest number, there is room left. -/
theorem Request.room_pos {r : Request} {length : Nat} (fits : length ≤ r.maxLength.toNat)
    (small : length < UInt64.size - 1) : 0 < r.room length := by
  rw [UInt64.lt_iff_toNat_lt, toNat_room, UInt64.toNat_zero]
  omega

section Stops

variable {n current : Node} {r : Request}

theorem Node.yields_stops (ends : n.MayEnd) :
    Yields (n.stops (σ := Prompted)).run (.ok true) := by
  rw [stops]
  split
  · exact yields_draws_pure true
  · rename_i linked
    have flagged : n.terminating = true :=
      ends.resolve_right fun linkless => linked (n.links.isEmpty_iff.mpr linkless)
    rw [if_pos flagged]
    exact yields_isZero _

theorem Node.yields_goesOn (linked : n.links.isEmpty = false) :
    Yields (n.stops (σ := Prompted)).run (.ok false) := by
  rw [stops, if_neg (Bool.eq_false_iff.mp linked)]
  split
  · exact yields_isNonzero n.fanOut_succ_pos
  · exact yields_draws_pure false

/-- A walk can end wherever a word may end, whatever its length. -/
theorem Request.yields_stops (origin : Node) (length : Nat) (ends : current.MayEnd) :
    Yields (r.stopsAfter (σ := Prompted) origin current length).run (.ok true) := by
  rw [stopsAfter, stopsLong]
  split
  · refine Yields.draws_bind (a := true) ?_ (yields_draws_pure true)
    exact (yields_isZero (r.room length)).draws_bind (yields_draws_pure true)
  · exact (yields_draws_pure false).draws_bind (Node.yields_stops ends)

/-- A walk can go on wherever there is a link, as long as its word is not too long. -/
theorem Request.yields_goesOn (origin : Node) {length : Nat} (linked : current.links.isEmpty = false)
    (fits : length ≤ r.maxLength.toNat) (small : length < UInt64.size - 1) :
    Yields (r.stopsAfter (σ := Prompted) origin current length).run (.ok false) := by
  have bias : 0 < r.biasedFanOut origin current + 1 := by
    rw [biasedFanOut]
    cases r.stopBias with
    | origin => exact origin.fanOut_succ_pos
    | current => exact current.fanOut_succ_pos
  rw [stopsAfter, stopsLong]
  split
  · refine Yields.draws_bind (a := false) ?_ (Node.yields_goesOn linked)
    exact (yields_isNonzero (room_pos fits small)).draws_bind (yields_isNonzero bias)
  · exact (yields_draws_pure false).draws_bind (Node.yields_goesOn linked)

/-- A visit can emit whatever it may take off the front of a word. -/
theorem Node.yields_emit {word rest : List Char} (sound : n.Sound) (takes : n.Takes word rest) :
    ∃ choice, Yields (n.emit (σ := Prompted)).run (.ok choice) ∧
      word = (choice.getD "").toList ++ rest := by
  cases takes with
  | nothing silent => exact ⟨none, WeightedSet.yields_choose_none silent, rfl⟩
  | @fragment fragment rest member =>
    exact ⟨some fragment, sound.fragments.yields_choose member, rfl⟩

end Stops

theorem WeightedSet.isEmpty_eq_false_of_mem {α : Type} {s : WeightedSet α} {item : α}
    (member : item ∈ s.values) : s.isEmpty = false := by
  refine Bool.eq_false_iff.mpr fun empty => ?_
  rw [s.isEmpty_iff.mp empty] at member
  exact absurd member List.not_mem_nil

section Walks

variable {g : Graph} {r : Request} {word : String}

/-- A walk that stands at the end of the first link of an accepting path can follow the path. -/
theorem Walk.yields_follow (nodes : ∀ id n, g.node? id = some n → n.Sound) (origin : Node)
    (fits : word.length ≤ r.maxLength.toNat) (small : word.length < UInt64.size - 1)
    {steps budget : Nat} {current next : Node} (trail : List Visit) {text : String}
    {left : List Char} {target : NodeId} (sound : current.Sound)
    (linked : target ∈ current.links.values) (found : g.node? target = some next)
    (path : g.AcceptsIn steps next left) (whole : word.toList = text.toList ++ left)
    (enough : steps < budget) :
    ∃ walk, Yields (follow g r origin budget current trail text) walk ∧ walk.ending = .word word := by
  induction steps generalizing budget current next trail text left target with
  | zero =>
    obtain ⟨budget, rfl⟩ := Nat.exists_eq_succ_of_ne_zero (Nat.pos_iff_ne_zero.mp enough)
    cases path with
    | stop takes ends =>
      obtain ⟨choice, emits, consumed⟩ := Node.yields_emit (nodes target next found) takes
      have full : text ++ choice.getD "" = word := by
        rw [← String.toList_inj, String.toList_append, whole, consumed, List.append_nil]
      refine ⟨⟨origin.id, ⟨next.id, choice⟩ :: trail, .word (text ++ choice.getD "")⟩, ?_,
        congrArg Ending.word full⟩
      rw [follow]
      refine (sound.links.yields_choose linked).bind ?_
      simp only [found]
      refine emits.bind ?_
      exact (r.yields_stops origin _ ends).bind (yields_pure _)
  | succ steps ih =>
    obtain ⟨budget, rfl⟩ := Nat.exists_eq_succ_of_ne_zero (Nat.ne_zero_of_lt enough)
    cases path with
    | @follow _ _ after _ rest further takes onward atFurther later =>
      have nextSound := nodes target next found
      obtain ⟨choice, emits, consumed⟩ := Node.yields_emit nextSound takes
      have split : word.toList = (text ++ choice.getD "").toList ++ rest := by
        rw [whole, consumed, String.toList_append, List.append_assoc]
      have short : (text ++ choice.getD "").length ≤ word.length := by
        rw [← String.length_toList, ← String.length_toList, split, List.length_append]
        exact Nat.le_add_right _ _
      have less := Nat.lt_of_succ_lt_succ enough
      obtain ⟨walk, walks, ending⟩ :=
        ih (⟨next.id, choice⟩ :: trail) nextSound onward atFurther later split less
      refine ⟨walk, ?_, ending⟩
      rw [follow]
      refine (sound.links.yields_choose linked).bind ?_
      simp only [found]
      refine emits.bind ?_
      refine (r.yields_goesOn origin (WeightedSet.isEmpty_eq_false_of_mem onward)
        (short.trans fits) (Nat.lt_of_le_of_lt short small)).bind ?_
      exact walks

/-- A walk can make every word that its first node accepts on a path within the cap on steps. -/
theorem Node.yields_walk (nodes : ∀ id n, g.node? id = some n → n.Sound)
    (fits : word.length ≤ r.maxLength.toNat) (small : word.length < UInt64.size - 1) {steps : Nat}
    {n : Node} (sound : n.Sound) (path : g.AcceptsIn steps n word.toList)
    (enough : steps ≤ r.maxSteps.toNat) :
    ∃ walk, Yields (n.walk g r) walk ∧ walk.ending = .word word := by
  cases path with
  | stop takes ends =>
    obtain ⟨choice, emits, consumed⟩ := Node.yields_emit sound takes
    have full : choice.getD "" = word := by
      rw [← String.toList_inj, consumed, List.append_nil]
    refine ⟨⟨n.id, [⟨n.id, choice⟩], .word (choice.getD "")⟩, ?_, congrArg Ending.word full⟩
    rw [walk]
    refine emits.bind ?_
    exact (Node.yields_stops ends).bind (yields_pure _)
  | @follow steps _ next _ rest target takes linked found later =>
    obtain ⟨choice, emits, consumed⟩ := Node.yields_emit sound takes
    obtain ⟨walk, walks, ending⟩ := Walk.yields_follow nodes n fits small
      [⟨n.id, choice⟩] sound linked found later consumed enough
    refine ⟨walk, ?_, ending⟩
    rw [Node.walk]
    refine emits.bind ?_
    refine (Node.yields_goesOn (WeightedSet.isEmpty_eq_false_of_mem linked)).bind ?_
    exact walks

end Walks

end PseudoWord
