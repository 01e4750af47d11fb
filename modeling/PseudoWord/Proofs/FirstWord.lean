import PseudoWord.Proofs.Unfailing
import PseudoWord.Proofs.WalkComplete

namespace PseudoWord

/-- Some prompts give an outcome as stated. -/
def Possible {α : Type} (m : Sampler Prompted α) (post : α → Prop) : Prop :=
  ∃ prompts, post (m.run ⟨prompts⟩).1

theorem Yields.possible {α β : Type} {m : Sampler Prompted α} {f : α → Sampler Prompted β} {a : α}
    {post : β → Prop} (first : Yields m a) (later : Possible (f a) post) : Possible (m >>= f) post := by
  obtain ⟨earlier, runs⟩ := first
  obtain ⟨prompts, holds⟩ := later
  refine ⟨earlier ++ prompts, ?_⟩
  rw [StateT.run_bind, runs]
  exact holds

theorem Ensures.possible {α : Type} {m : Sampler Prompted α} {post : α → Prop}
    (always : Ensures m post) : Possible m post := ⟨[], always _⟩

theorem Possible.bind {α β : Type} {m : Sampler Prompted α} {f : α → Sampler Prompted β}
    {mid : α → Prop} {post : β → Prop} (first : Possible m mid)
    (later : ∀ a, mid a → Ensures (f a) post) : Possible (m >>= f) post := by
  obtain ⟨prompts, holds⟩ := first
  exact ⟨prompts, later _ holds _⟩

theorem DistinctWords.toList_insert_empty (word : String) :
    (DistinctWords.empty.insert word).toList = [word] := by
  have fresh : DistinctWords.empty.seen.contains word = false := Std.HashSet.contains_empty
  rw [toList_insert, if_neg (Bool.eq_false_iff.mp fresh)]
  rfl

namespace Graph

variable {g : Graph} {r : Request} {word : String}

/-- The largest place of a start node is one less than their number, also when there are as many start
nodes as there are ids. -/
theorem toNat_starts_pred {α : Type} {starts : List α} (filled : starts ≠ [])
    (few : starts.length ≤ UInt64.size) : (starts.length.toUInt64 - 1).toNat + 1 = starts.length := by
  have some := List.length_pos_iff.mpr filled
  have size : UInt64.size = 2 ^ 64 := rfl
  have count : starts.length.toUInt64.toNat = starts.length % 2 ^ 64 := UInt64.toNat_ofNat'
  rw [UInt64.toNat_sub, count, UInt64.toNat_one]
  omega

/-- Every start node can be drawn. -/
theorem yields_drawStart {starts : List NodeId} {id : NodeId} (listed : id ∈ starts)
    (few : starts.length ≤ UInt64.size) : Yields (drawStart starts).run (.ok id) := by
  obtain ⟨place, inside, atPlace⟩ := List.getElem_of_mem listed
  have index : place.toUInt64.toNat = place :=
    UInt64.toNat_ofNat_of_lt' (Nat.lt_of_lt_of_le inside few)
  have upper : place.toUInt64 ≤ starts.length.toUInt64 - 1 := by
    have largest := toNat_starts_pred (List.ne_nil_of_mem listed) few
    rw [UInt64.le_iff_toNat_le, index]
    omega
  rw [drawStart]
  refine (yields_range UInt64.zero_le upper).draws_bind ?_
  rw [index, List.getElem?_eq_getElem inside, atPlace]
  exact yields_draws_pure id

theorem initializingIds_length_le (g : Graph) : g.initializingIds.length ≤ UInt64.size := by
  have few := List.length_filter_le (·.initializing) g.nodeList
  have size := g.nodes.size_le
  rw [KeyMap.size] at size
  rw [nodeList, KeyMap.values, List.length_map] at few
  rw [initializingIds, List.length_map]
  exact few.trans size

/-- A batch can begin with a word that a walk from one of the start nodes can make. -/
theorem possible_batch {starts : List NodeId} {id : NodeId} {n : Node} {walk : Walk} (left : Nat)
    (few : starts.length ≤ UInt64.size) (listed : id ∈ starts) (found : g.node? id = some n)
    (walks : Yields (n.walk g r) walk) (ending : walk.ending = .word word) :
    Possible (g.runBatch r starts (left + 1) [] .empty)
      (fun batch => batch.failure = none ∧ [word] <+: batch.found.toList) := by
  have attempted : Yields (g.attempt r id) (.walked id walk) := by
    rw [attempt, found]
    exact walks.bind (yields_pure _)
  have made : walk.result = .ok (some word) := by rw [Walk.result, ending]
  have first := DistinctWords.toList_insert_empty word
  rw [runBatch]
  refine (yields_drawStart listed few).possible (attempted.possible ?_)
  simp only [made]
  exact (first ▸ g.ensures_batch (List.ne_nil_of_mem listed) left _ _).possible

theorem possible_rounds {starts : List NodeId} {id : NodeId} {n : Node} {walk : Walk}
    (count : 1 ≤ r.count) (tries : Nat) (few : starts.length ≤ UInt64.size) (listed : id ∈ starts)
    (found : g.node? id = some n) (walks : Yields (n.walk g r) walk)
    (ending : walk.ending = .word word) :
    Possible (g.runRounds r starts (tries + 1) [] .empty)
      (fun report => report.result = .ok ⟨report.words.take r.count.toNat, r.count⟩ ∧
        [word] <+: report.words) := by
  have positive : 0 < r.count.toNat := UInt64.le_iff_toNat_le.mp count
  obtain ⟨left, size⟩ := Nat.exists_eq_succ_of_ne_zero (Nat.pos_iff_ne_zero.mp positive)
  have none : DistinctWords.empty.size = 0 := rfl
  rw [runRounds, none, if_pos positive, Nat.zero_div, Nat.sub_zero, size]
  refine (possible_batch left few listed found walks ending).bind fun batch holds => ?_
  simp only [holds.1]
  refine (g.ensures_rounds (List.ne_nil_of_mem listed) tries _ batch.found).mono fun report later => ?_
  exact ⟨size ▸ later.1, holds.2.trans later.2⟩

/-- Some prompts make a valid word the first one: a word is asked for, this one is not longer than
wanted, and the walks may follow enough links. -/
theorem Reachable.possible_generate (reach : Reachable g) (valid : g.isValid word = .ok true)
    (count : 1 ≤ r.count) (tries : 1 ≤ r.maxTries) (fits : word.length ≤ r.maxLength.toNat)
    (small : word.length < UInt64.size - 1)
    (enough : g.size * (word.utf8ByteSize + 1) ≤ r.maxSteps.toNat) :
    Possible (g.generate r) (fun report => ∃ generation, report.result = .ok generation ∧
      generation.words.head? = some word) := by
  have wf := reach.wellFormed
  have nodes (id : NodeId) (n : Node) (found : g.node? id = some n) : n.Sound :=
    (wf.nodes id n found).sound
  obtain ⟨starts, prepared, id, listed, n, found, made⟩ := isValid_iff.mp valid
  obtain ⟨steps, path, short⟩ := (Node.accepts_of_canMake made).exists_short found
  have bytes := length_le_utf8ByteSize word.toList
  rw [String.ofList_toList] at bytes
  have links : steps ≤ r.maxSteps.toNat := by
    have points := Nat.mul_le_mul_left g.size (Nat.succ_le_succ bytes)
    exact (short.trans_le (points.trans enough)).le
  obtain ⟨walk, walks, ending⟩ := Node.yields_walk nodes fits small (nodes id n found) path links
  have few : starts.length ≤ UInt64.size := wf.starts starts prepared ▸ g.initializingIds_length_le
  obtain ⟨more, atTries⟩ := Nat.exists_eq_succ_of_ne_zero
    (Nat.pos_iff_ne_zero.mp (UInt64.le_iff_toNat_le.mp tries))
  have generated : g.generate r = g.runRounds (σ := Prompted) r starts (more + 1) [] .empty := by
    rw [generate, prepared, atTries]
    cases starts with
    | nil => exact absurd listed List.not_mem_nil
    | cons => rfl
  obtain ⟨prompts, answered, later, words⟩ := possible_rounds count more few listed found walks ending
  have positive : r.count.toNat ≠ 0 := Nat.pos_iff_ne_zero.mp (UInt64.le_iff_toNat_le.mp count)
  have first : (([word] ++ later).take r.count.toNat).head? = some word := by
    rw [List.head?_take, if_neg positive]
    rfl
  rw [generated]
  exact ⟨prompts, _, answered, words ▸ first⟩

/-- A valid word can be the first one that is generated, from a source that keeps the contract. -/
theorem valid_word_generated (reach : Reachable g) (valid : g.isValid word = .ok true)
    (count : 1 ≤ r.count) (tries : 1 ≤ r.maxTries) (fits : word.length ≤ r.maxLength.toNat)
    (small : word.length < UInt64.size - 1)
    (enough : g.size * (word.utf8ByteSize + 1) ≤ r.maxSteps.toNat) :
    ∃ (σ : Type) (_ : Source σ) (_ : ContractSource σ) (s : σ) (generation : Generation),
      ((g.generate r).run s).1.result = .ok generation ∧ generation.words.head? = some word := by
  obtain ⟨prompts, generation, answered, first⟩ :=
    reach.possible_generate valid count tries fits small enough
  exact ⟨Prompted, inferInstance, inferInstance, ⟨prompts⟩, generation, answered, first⟩

theorem valid_word_generated_kan :
    (ofTable Demo.sampleTable).isValid "kan" = .ok true ∧
      ∃ (σ : Type) (_ : Source σ) (_ : ContractSource σ) (s : σ) (generation : Generation),
        (((ofTable Demo.sampleTable).generate Demo.request).run s).1.result = .ok generation ∧
          generation.words.head? = some "kan" :=
  ⟨Demo.valid_kan, valid_word_generated (.table _) Demo.valid_kan (by decide) (by decide) (by decide)
    (by decide) (by decide +kernel)⟩

end Graph

end PseudoWord
