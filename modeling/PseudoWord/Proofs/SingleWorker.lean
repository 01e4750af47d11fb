import PseudoWord.Proofs.AnySchedule

namespace PseudoWord

namespace Request

/-- A request is answered by one worker where there is one processor, or no second word is wanted. -/
theorem workers_eq_one_iff (r : Request) {cpus : Nat} :
    r.workers cpus = 1 ↔ cpus ≤ 1 ∨ r.count ≤ 1 := by
  rw [workers, UInt64.le_iff_toNat_le, UInt64.toNat_one]
  omega

/-- One worker alone has the whole request as its share. -/
theorem share_one (r : Request) : r.share 1 = r := by
  have count : r.count.toNat.toUInt64 = r.count := UInt64.ofNat_toNat
  rw [share, Nat.add_sub_cancel, Nat.div_one, count]
  rfl

end Request

namespace Graph

section Reports

variable {σ : Type} [Source σ] {g : Graph} {r : Request}

theorem ensures_rounds_requested (starts : List NodeId) (tries : Nat) (rounds : List Round)
    (found : DistinctWords) :
    Ensures (g.runRounds r starts tries rounds found : Sampler σ Report)
      (fun report => report.requested = r.count) := by
  induction tries generalizing rounds found with
  | zero => exact ensures_pure rfl
  | succ tries ih =>
    rw [runRounds]
    split
    · refine ensures_bind_any fun batch => ?_
      cases batch.failure with
      | some cause => exact ensures_pure rfl
      | none => exact ih _ _
    · exact ensures_pure rfl

theorem ensures_requested :
    Ensures (g.generate r : Sampler σ Report) (fun report => report.requested = r.count) := by
  rw [generate]
  split
  · exact ensures_pure rfl
  · exact ensures_pure rfl
  · exact ensures_rounds_requested _ _ _ _

theorem ensures_words_nodup :
    Ensures (g.generate r : Sampler σ Report) (fun report => report.words.Nodup) := by
  refine g.ensures_words.mono fun report words => ?_
  rw [words, DistinctWords.toList_insertAll_empty]
  exact DistinctWords.nodup_eraseDups _

end Reports

variable (g : Graph) {r : Request} (seed : UInt64)

theorem workAll_of_single {cpus : Nat} (single : r.workers cpus = 1) :
    g.workAll r seed cpus = [⟨0, ((g.generate r).run (Seeded.ofSeed seed)).1⟩] := by
  have first : seed + Nat.toUInt64 0 = seed := UInt64.add_zero seed
  rw [workAll, single, r.share_one, List.range_one, List.map_singleton, work, first]

theorem collect_single (number : Nat) :
    Arrival.collect r.count [⟨number, ((g.generate r).run (Seeded.ofSeed seed)).1⟩] =
      ((g.generate r).run (Seeded.ofSeed seed)).1.result := by
  have requested := ensures_requested (g := g) (r := r) (Seeded.ofSeed seed)
  have distinct := ensures_words_nodup (g := g) (r := r) (Seeded.ofSeed seed)
  rw [Arrival.collect_of_perm (.refl _) (List.pairwise_singleton _ _), ← requested]
  exact Report.merge_singleton distinct

/-- With one processor, or when no second word is wanted, the only worker does what is done without
workers: the same words come out in the same order, or the same failure, and the same walks are
counted. -/
theorem single_worker_sequential (g : Graph) (r : Request) (seed : UInt64) {cpus : Nat}
    (alone : cpus = 1 ∨ r.count ≤ 1) :
    let report := ((g.generate r).run (Seeded.ofSeed seed)).1
    g.generateParallel r seed cpus = report.result ∧
      (g.isPrepared = true →
        g.generateParallel r seed cpus = .ok ⟨report.words.take r.count.toNat, r.count⟩) ∧
      g.countArrivals (g.workAll r seed cpus) = g.countRuns report ∧
      ∀ steps s, Crew.Run (r.share (r.workers cpus)) (.start g r seed cpus) steps s → s.workers = [] →
        Arrival.collect r.count s.arrived = report.result ∧ s.graph = g.countRuns report := by
  have single : r.workers cpus = 1 := r.workers_eq_one_iff.mpr (alone.imp_left Nat.le_of_eq)
  have all := g.workAll_of_single seed single
  have same : g.generateParallel r seed cpus = ((g.generate r).run (Seeded.ofSeed seed)).1.result := by
    rw [generateParallel, all]
    exact g.collect_single seed 0
  refine ⟨same, fun prepared => same.trans (ensures_generate_result prepared r _), by rw [all]; rfl,
    fun steps s run finished => ?_⟩
  obtain ⟨promised, graph⟩ := run.keeps (Crew.keeps_start g r seed cpus)
  rw [finished, List.map_nil, List.append_nil, all, List.perm_singleton] at promised
  rw [promised]
  refine ⟨g.collect_single seed 0, ?_⟩
  rw [graph, Crew.counted, finished, promised, List.flatMap_nil, List.append_nil, List.flatMap_singleton]
  rfl

/-- One word of one to four characters. -/
def oneWord : Request := threeWords.withCount 1

/-- Three words for one processor, and one word for eight of them. -/
theorem single_worker_sequential_oneWord :
    threeWords.workers 1 = 1 ∧ oneWord.workers 8 = 1 ∧ (ofTable Demo.sampleTable).isPrepared = true ∧
      (ofTable Demo.sampleTable).generateParallel threeWords 5 1 =
        (((ofTable Demo.sampleTable).generate threeWords).run (Seeded.ofSeed 5)).1.result ∧
      (∃ words, (ofTable Demo.sampleTable).generateParallel oneWord 5 8 = .ok ⟨words, 1⟩) ∧
      ∃ steps s, Crew.Run (oneWord.share (oneWord.workers 8))
          (.start (ofTable Demo.sampleTable) oneWord 5 8) steps s ∧
        s.workers = [] ∧
        Arrival.collect 1 s.arrived =
          (((ofTable Demo.sampleTable).generate oneWord).run (Seeded.ofSeed 5)).1.result ∧
        s.graph = (ofTable Demo.sampleTable).countRuns
          (((ofTable Demo.sampleTable).generate oneWord).run (Seeded.ofSeed 5)).1 := by
  have prepared : (ofTable Demo.sampleTable).isPrepared = true := rfl
  obtain ⟨three, _⟩ := single_worker_sequential (ofTable Demo.sampleTable) threeWords 5 (.inl rfl)
  have few : 8 = 1 ∨ oneWord.count ≤ 1 := .inr (by decide)
  obtain ⟨_, words, _, runs⟩ :=
    single_worker_sequential (ofTable Demo.sampleTable) oneWord 5 few
  have nothing : Crew.Run (oneWord.share (oneWord.workers 8))
      (.start (ofTable Demo.sampleTable) oneWord 5 8) 0 _ := .start
  obtain ⟨steps, s, run, finished⟩ := nothing.exists_finished
  obtain ⟨collected, counted⟩ := runs steps s run finished
  exact ⟨rfl, rfl, prepared, three, ⟨_, words prepared⟩, steps, s, run, finished, collected, counted⟩

end Graph

end PseudoWord
