import PseudoWord.Parallel
import PseudoWord.Proofs.FirstWord
import PseudoWord.Proofs.ReportWords
import PseudoWord.Proofs.SeededBounds
import PseudoWord.Proofs.WalkSound

namespace PseudoWord

theorem DistinctWords.mem_toList_insert {found : DistinctWords} {word other : String}
    (member : other ∈ (found.insert word).toList) : other ∈ found.toList ∨ other = word := by
  rw [toList_insert] at member
  split at member
  · exact .inl member
  · simpa using member

theorem DistinctWords.mem_toList_insertAll {found : DistinctWords} {words : List String}
    {other : String} (member : other ∈ (found.insertAll words).toList) :
    other ∈ found.toList ∨ other ∈ words := by
  induction words generalizing found with
  | nil => exact .inl member
  | cons word rest ih =>
    rcases ih member with old | later
    · rcases mem_toList_insert old with older | same
      · exact .inl older
      · exact .inr (same ▸ List.mem_cons_self)
    · exact .inr (List.mem_cons_of_mem word later)

theorem Walk.result_eq_word {walk : Walk} {word : String} (made : walk.result = .ok (some word)) :
    walk.ending = .word word := by
  rw [result] at made
  split at made
  · rename_i ended
    cases made
    exact ended
  all_goals cases made

section Generation

variable {σ : Type} [Source σ] {g : Graph} {r : Request} {starts : List NodeId}
  {good : String → Prop}

/-- Of the walks from some start nodes, those that make a word make a good one. -/
def Graph.WalksMake (σ : Type) [Source σ] (g : Graph) (r : Request) (starts : List NodeId)
    (good : String → Prop) : Prop :=
  ∀ id ∈ starts, ∀ n, g.node? id = some n →
    Ensures (n.walk g r : Sampler σ Walk) (fun walk => ∀ word, walk.result = .ok (some word) → good word)

theorem Graph.WalksMake.attempt (walks : g.WalksMake σ r starts good) {start : NodeId}
    (listed : start ∈ starts) :
    Ensures (g.attempt r start : Sampler σ Attempt) (fun attempt => ∀ id walk word,
      attempt = .walked id walk → walk.result = .ok (some word) → good word) := by
  rw [Graph.attempt]
  cases found : g.node? start with
  | none =>
    refine ensures_pure fun _ _ _ impossible => ?_
    cases impossible
  | some n =>
    refine (walks start listed n found).bind fun walk holds => ensures_pure ?_
    rintro _ _ word ⟨⟩ made
    exact holds word made

theorem Graph.WalksMake.batch (walks : g.WalksMake σ r starts good) (left : Nat)
    (attempts : List Attempt) {found : DistinctWords} (before : ∀ word ∈ found.toList, good word) :
    Ensures (g.runBatch r starts left attempts found : Sampler σ Batch)
      (fun batch => ∀ word ∈ batch.found.toList, good word) := by
  induction left generalizing attempts found with
  | zero => exact ensures_pure before
  | succ left ih =>
    rw [runBatch]
    refine (ensures_drawStart σ starts).bind fun outcome listed => ?_
    cases outcome with
    | error cause => exact ensures_pure before
    | ok start =>
      refine (walks.attempt listed).bind fun attempt holds => ?_
      cases attempt with
      | idle => exact ih _ before
      | walked id walk =>
        dsimp only
        cases result : walk.result with
        | error cause => exact ensures_pure before
        | ok made =>
          cases made with
          | none => exact ih _ before
          | some word =>
            refine ih _ fun other member => ?_
            rcases DistinctWords.mem_toList_insert member with old | same
            · exact before other old
            · exact same ▸ holds id walk word rfl result

theorem Graph.WalksMake.rounds (walks : g.WalksMake σ r starts good) (tries : Nat)
    (rounds : List Round) {found : DistinctWords} (before : ∀ word ∈ found.toList, good word) :
    Ensures (g.runRounds r starts tries rounds found : Sampler σ Report)
      (fun report => ∀ word ∈ report.words, good word) := by
  induction tries generalizing rounds found with
  | zero => exact ensures_pure before
  | succ tries ih =>
    rw [runRounds]
    split
    · refine (walks.batch _ _ before).bind fun batch holds => ?_
      dsimp only
      cases batch.failure with
      | some cause => exact ensures_pure holds
      | none => exact ih _ holds
    · exact ensures_pure before

theorem Graph.WalksMake.generate (atStarts : ∀ ids, g.starts = some ids → g.WalksMake σ r ids good) :
    Ensures (g.generate r : Sampler σ Report) (fun report => ∀ word ∈ report.words, good word) := by
  have nothing : ∀ word ∈ ([] : List String), good word := fun _ member => absurd member List.not_mem_nil
  rw [Graph.generate.eq_def]
  cases prepared : g.starts with
  | none => exact ensures_pure nothing
  | some starts =>
    cases starts with
    | nil => exact ensures_pure nothing
    | cons first rest => exact (atStarts _ prepared).rounds _ _ nothing

end Generation

theorem Report.mem_words_of_result {report : Report} {generation : Generation} {word : String}
    (succeeded : report.result = .ok generation) (member : word ∈ generation.words) :
    word ∈ report.words := by
  rw [result] at succeeded
  split at succeeded
  · cases succeeded
  · cases succeeded
    exact List.mem_of_mem_take member

theorem Report.exists_of_mapM {parts : List Report} {generations : List Generation}
    (succeeded : parts.mapM Report.result = .ok generations) {generation : Generation}
    (member : generation ∈ generations) : ∃ part ∈ parts, part.result = .ok generation := by
  induction parts generalizing generations with
  | nil =>
    cases succeeded
    exact absurd member List.not_mem_nil
  | cons part rest ih =>
    rw [List.mapM_cons] at succeeded
    cases first : part.result with
    | error cause =>
      rw [first] at succeeded
      cases succeeded
    | ok head =>
      cases later : rest.mapM Report.result with
      | error cause =>
        rw [first, later] at succeeded
        cases succeeded
      | ok tail =>
        rw [first, later] at succeeded
        cases succeeded
        rcases List.mem_cons.mp member with same | inTail
        · exact ⟨part, List.mem_cons_self, same ▸ first⟩
        · obtain ⟨other, inRest, result⟩ := ih later inTail
          exact ⟨other, List.mem_cons_of_mem part inRest, result⟩

/-- The workers' words together are words of single workers. -/
theorem Report.mem_words_of_merge {requested : UInt64} {parts : List Report} {generation : Generation}
    {word : String} (succeeded : merge requested parts = .ok generation)
    (member : word ∈ generation.words) : ∃ part ∈ parts, word ∈ part.words := by
  rw [merge] at succeeded
  cases answered : parts.mapM Report.result with
  | error cause =>
    rw [answered] at succeeded
    cases succeeded
  | ok generations =>
    rw [answered] at succeeded
    cases succeeded
    have inAll := List.mem_of_mem_take member
    have known (found : DistinctWords) (more : List Generation)
        (inMore : word ∈ (more.foldl (fun found part => found.insertAll part.words) found).toList) :
        word ∈ found.toList ∨ ∃ part ∈ more, word ∈ part.words := by
      induction more generalizing found with
      | nil => exact .inl inMore
      | cons part rest ih =>
        rcases ih _ inMore with old | ⟨later, inRest, here⟩
        · rcases DistinctWords.mem_toList_insertAll old with older | here
          · exact .inl older
          · exact .inr ⟨part, List.mem_cons_self, here⟩
        · exact .inr ⟨later, List.mem_cons_of_mem part inRest, here⟩
    rcases known _ generations inAll with impossible | ⟨part, inParts, here⟩
    · exact absurd impossible List.not_mem_nil
    · obtain ⟨report, inReports, result⟩ := exists_of_mapM answered inParts
      exact ⟨report, inReports, mem_words_of_result result here⟩

namespace Graph

/-- A word that a walk from a start node makes is valid. -/
theorem Reachable.walksMake_valid {σ : Type} [Source σ] [BoundedSource σ] {g : Graph}
    (reach : Reachable g) (r : Request) (ids : List NodeId) (prepared : g.starts = some ids) :
    g.WalksMake σ r ids (fun word => g.isValid word = .ok true) := by
  have wf := reach.wellFormed
  intro id listed n found
  have admits := wf.nodes id n found
  have own : g.node? n.id = some n := admits.id.symm ▸ found
  refine (Node.ensures_walk (fun id n found => (wf.nodes id n found).sound) admits.sound).mono ?_
  intro walk makes word result
  have accepted : g.Accepts n word.toList := by
    simpa only [Walk.MakesWordOf, Walk.result_eq_word result] using makes
  have made := (Node.canMake_iff own word).mpr accepted
  exact isValid_iff.mpr ⟨ids, prepared, id, listed, n, found, made⟩

/-- Every word that is generated is valid on the same graph, whether one caller draws from any source
that answers inside its bounds or several workers draw from seeded sources. -/
theorem generated_words_valid {σ : Type} [Source σ] [BoundedSource σ] {g : Graph} (reach : Reachable g)
    (r : Request) :
    (∀ (s : σ) generation, ((g.generate r).run s).1.result = .ok generation →
        ∀ word ∈ generation.words, g.isValid word = .ok true) ∧
      ∀ seed cpus generation, g.generateParallel r seed cpus = .ok generation →
        ∀ word ∈ generation.words, g.isValid word = .ok true := by
  refine ⟨fun s generation succeeded word member => ?_, fun seed cpus generation succeeded word member => ?_⟩
  · have valid := WalksMake.generate (reach.walksMake_valid (σ := σ) r)
    exact valid s word (Report.mem_words_of_result succeeded member)
  · obtain ⟨part, inParts, here⟩ := Report.mem_words_of_merge succeeded member
    obtain ⟨arrival, arrived, rfl⟩ := List.mem_map.mp inParts
    obtain ⟨worker, _, rfl⟩ := List.mem_map.mp (List.mem_mergeSort.mp arrived)
    have valid := WalksMake.generate
      (reach.walksMake_valid (σ := Seeded) (r.share (r.workers cpus)))
    exact valid _ word here

theorem generated_words_valid_kan :
    ∃ (s : Prompted) (generation : Generation),
      (((ofTable Demo.sampleTable).generate Demo.request).run s).1.result = .ok generation ∧
        "kan" ∈ generation.words ∧ (ofTable Demo.sampleTable).isValid "kan" = .ok true := by
  obtain ⟨prompts, generation, answered, first⟩ := Reachable.possible_generate (r := Demo.request)
    (.table Demo.sampleTable) Demo.valid_kan (by decide) (by decide) (by decide) (by decide)
    (by decide +kernel)
  have member := List.mem_of_mem_head? first
  exact ⟨⟨prompts⟩, generation, answered, member,
    (generated_words_valid (.table _) Demo.request).1 _ generation answered "kan" member⟩

end Graph

end PseudoWord
