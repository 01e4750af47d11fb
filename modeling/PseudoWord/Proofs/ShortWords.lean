import PseudoWord.Proofs.GeneratedWords
import PseudoWord.Proofs.ReportWords

namespace PseudoWord

section Leaves

variable {σ α β : Type}

/-- Whatever state the source is in, the outcome and the state that the source is left in are as
stated. -/
def Leaves (m : Sampler σ α) (post : α → σ → Prop) : Prop := ∀ s, post (m.run s).1 (m.run s).2

theorem leaves_pure {post : α → σ → Prop} {a : α} (holds : ∀ s, post a s) :
    Leaves (pure a : Sampler σ α) post := holds

theorem Leaves.bind {m : Sampler σ α} {f : α → Sampler σ β} {mid : α → σ → Prop}
    {post : β → σ → Prop} (first : Leaves m mid)
    (later : ∀ a s, mid a s → post ((f a).run s).1 ((f a).run s).2) : Leaves (m >>= f) post :=
  fun s => later _ _ (first s)

theorem Ensures.leaves_bind {m : Sampler σ α} {f : α → Sampler σ β} {mid : α → Prop}
    {post : β → σ → Prop} (first : Ensures m mid) (later : ∀ a, mid a → Leaves (f a) post) :
    Leaves (m >>= f) post := fun s => later _ (first s) (m.run s).2

end Leaves

section Stops

variable {σ : Type} [Source σ]

/-- What stops a walk on a node whatever the length of its word: the node has no links, or it is
flagged as terminating and its own stop draw, the last one of the walk, gave zero. -/
inductive Node.StopsAnyLength (n : Node) (after : σ) : Prop
  | linkless : n.links.isEmpty = true → StopsAnyLength n after
  | drawn {before : σ} : n.terminating = true →
      Source.draw 0 (n.fanOut + 1) before = (.ok 0, after) → StopsAnyLength n after

theorem Node.leaves_stops (n : Node) : Leaves (n.stops : Draws σ Bool).run
    (fun outcome after => outcome = .ok true → n.StopsAnyLength after) := by
  rw [stops]
  split
  · rename_i linkless
    exact leaves_pure fun _ _ => .linkless linkless
  · split
    · rename_i flagged
      have drawn : Leaves (Draws.range 0 (n.fanOut + 1) : Draws σ UInt64).run
          (fun outcome after => ∃ before : σ,
            Source.draw 0 (n.fanOut + 1) before = (outcome, after)) := fun s => ⟨s, rfl⟩
      rw [Draws.isZero, ExceptT.run_bind]
      refine drawn.bind fun outcome after atDraw stopped => ?_
      obtain ⟨before, atDraw⟩ := atDraw
      cases outcome with
      | error cause => cases stopped
      | ok value =>
        have zero : value = 0 := eq_of_beq (Except.ok.inj stopped)
        exact .drawn flagged (zero ▸ atDraw)
    · exact leaves_pure fun _ impossible => by cases impossible

/-- Below the shortest wanted length only the test of the node itself is left. -/
theorem Request.stopsAfter_of_short {r : Request} {length : Nat} (short : length < r.minLength.toNat)
    (origin current : Node) :
    (r.stopsAfter origin current length : Draws σ Bool) = current.stops := by
  have early : decide (r.minLength.toNat ≤ length) = false := decide_eq_false (Nat.not_le.mpr short)
  rw [stopsAfter, stopsLong, early, Bool.and_false, if_neg Bool.false_ne_true, pure_bind]
  rfl

theorem Request.leaves_stopsAfter (r : Request) (origin current : Node) (length : Nat) :
    Leaves (r.stopsAfter origin current length : Draws σ Bool).run (fun outcome after =>
      outcome = .ok true → length < r.minLength.toNat → current.StopsAnyLength after) := by
  intro s stopped short
  rw [stopsAfter_of_short short] at stopped ⊢
  exact current.leaves_stops s stopped

end Stops

/-- The node that a walk came to last. -/
def Walk.last? (g : Graph) (walk : Walk) : Option Node :=
  walk.trail.head?.bind (fun visit => g.node? visit.node)

/-- If the walk made a word that is shorter than wanted, it ended on a node of the graph that stops a
walk of any length. -/
def Walk.StopsShort {σ : Type} [Source σ] (g : Graph) (r : Request) (walk : Walk) (after : σ) : Prop :=
  ∀ word, walk.result = .ok (some word) → word.length < r.minLength.toNat →
    ∃ last, walk.last? g = some last ∧ last.StopsAnyLength after

section Walks

variable {σ : Type} [Source σ] [BoundedSource σ] {g : Graph} {r : Request}

theorem Walk.leaves_follow (wf : g.WellFormed) {origin : Node} (budget : Nat) {current : Node}
    {visit : Visit} (earlier : List Visit) (text : String) (here : g.node? visit.node = some current) :
    Leaves (follow g r origin budget current (visit :: earlier) text : Sampler σ Walk)
      (StopsShort g r) := by
  have sound := (wf.nodes _ _ here).sound
  rw [follow]
  refine sound.links.ensures_choose.leaves_bind fun outcome chosen => ?_
  cases outcome with
  | error cause => exact leaves_pure fun _ _ impossible => by cases impossible
  | ok choice =>
    cases choice with
    | none =>
      have linkless : current.links.values = [] := by simpa [Answers] using chosen
      exact leaves_pure fun _ _ _ _ =>
        ⟨current, here, .linkless (current.links.isEmpty_iff.mpr linkless)⟩
    | some target =>
      dsimp only
      cases found : g.node? target with
      | none => exact leaves_pure fun _ _ impossible => by cases impossible
      | some next =>
        cases budget with
        | zero => exact leaves_pure fun _ _ impossible => by cases impossible
        | succ budget =>
          have own : g.node? next.id = some next := (wf.nodes _ _ found).id.symm ▸ found
          have nextSound := (wf.nodes _ _ found).sound
          refine nextSound.fragments.ensures_choose.leaves_bind fun outcome _ => ?_
          cases outcome with
          | error cause => exact leaves_pure fun _ _ impossible => by cases impossible
          | ok fragment =>
            refine (r.leaves_stopsAfter origin next _).bind fun outcome after stops => ?_
            cases outcome with
            | error cause =>
              intro _ impossible
              cases impossible
            | ok stop =>
              cases stop with
              | true =>
                rintro _ ⟨⟩ short
                exact ⟨next, own, stops rfl short⟩
              | false => exact leaves_follow wf budget _ _ own after

theorem Node.leaves_walk (wf : g.WellFormed) {n : Node} (own : g.node? n.id = some n) :
    Leaves (n.walk g r : Sampler σ Walk) (Walk.StopsShort g r) := by
  rw [walk]
  refine (wf.nodes _ _ own).sound.fragments.ensures_choose.leaves_bind fun outcome _ => ?_
  cases outcome with
  | error cause => exact leaves_pure fun _ _ impossible => by cases impossible
  | ok fragment =>
    refine n.leaves_stops.bind fun outcome after stops => ?_
    cases outcome with
    | error cause =>
      intro _ impossible
      cases impossible
    | ok stop =>
      cases stop with
      | true =>
        rintro _ ⟨⟩ _
        exact ⟨n, own, stops rfl⟩
      | false => exact Walk.leaves_follow wf _ _ _ own after

end Walks

namespace Graph

variable {σ : Type} [Source σ] {g : Graph} {r : Request}

/-- Every word of a report is the word of one of its walks. -/
theorem ensures_walked_words : Ensures (g.generate r : Sampler σ Report) (fun report =>
    ∀ word ∈ report.words, ∃ start walk, .walked start walk ∈ report.attempts ∧
      walk.result = .ok (some word)) := by
  refine g.ensures_words.mono fun report words word member => ?_
  rw [words] at member
  rcases DistinctWords.mem_toList_insertAll member with impossible | made
  · exact absurd impossible List.not_mem_nil
  · obtain ⟨attempt, listed, own⟩ := List.mem_filterMap.mp made
    cases attempt with
    | idle => cases own
    | walked start walk =>
      refine ⟨start, walk, listed, ?_⟩
      rw [Attempt.word?] at own
      cases result : walk.result with
      | error cause =>
        rw [result] at own
        cases own
      | ok choice =>
        rw [result] at own
        exact congrArg Except.ok own

/-- One of the walks of a report made this word, from a start node, and it was stopped by the draw of a
node that is flagged as terminating. -/
def StoppedByDraw (σ : Type) [Source σ] (g : Graph) (r : Request) (report : Report) (word : String) :
    Prop :=
  ∃ start walk, .walked start walk ∈ report.attempts ∧ walk.result = .ok (some word) ∧
    start ∈ g.initializingIds ∧ ∃ n, g.node? start = some n ∧
      ∃ (s before after : σ) (last : Node), (n.walk g r).run s = (walk, after) ∧
        walk.last? g = some last ∧ last.terminating = true ∧
          Source.draw 0 (last.fanOut + 1) before = (.ok 0, after)

theorem WellFormed.mem_initializingIds (wf : g.WellFormed) {id : NodeId}
    (member : id ∈ g.starts.getD []) : id ∈ g.initializingIds := by
  cases prepared : g.starts with
  | none =>
    rw [prepared] at member
    exact absurd member List.not_mem_nil
  | some ids =>
    rw [prepared] at member
    exact wf.starts ids prepared ▸ member

theorem WellFormed.ensures_stoppedByDraw [BoundedSource σ] (wf : g.WellFormed)
    (linked : ∀ n ∈ g.nodeList, n.links.isEmpty = false) :
    Ensures (g.generate r : Sampler σ Report) (fun report =>
      ∀ word ∈ report.words, word.length < r.minLength.toNat → g.StoppedByDraw σ r report word) := by
  intro s word member short
  obtain ⟨start, walk, listed, made⟩ := ensures_walked_words s word member
  obtain ⟨initial, n, found, departure, rfl⟩ := ensures_walked s start walk listed
  have own : g.node? n.id = some n := (wf.nodes start n found).id.symm ▸ found
  obtain ⟨last, atEnd, stops⟩ := Node.leaves_walk wf own departure word made short
  cases stops with
  | linkless none =>
    obtain ⟨visit, _, atVisit⟩ := Option.bind_eq_some_iff.mp atEnd
    have some := linked last (g.mem_nodeList_iff.mpr ⟨_, atVisit⟩)
    exact absurd (none.symm.trans some) Bool.noConfusion
  | drawn flagged drawn =>
    exact ⟨start, _, listed, made, wf.mem_initializingIds initial, n, found, departure, _, _, last, rfl,
      atEnd, flagged, drawn⟩

/-- As long as a word is shorter than wanted, nothing but the node itself stops its walk. So a short
word comes from a walk that ended on a node without links, or on a node that is flagged as terminating
and whose own stop draw gave zero; where every node has a link, always from the second. -/
theorem short_words_stopped [BoundedSource σ] (reach : g.Reachable) (r : Request) :
    (∀ origin current length, length < r.minLength.toNat →
        (r.stopsAfter origin current length : Draws σ Bool) = current.stops) ∧
      (∀ id n, g.node? id = some n → ∀ (s : σ),
        ((n.walk g r).run s).1.StopsShort g r ((n.walk g r).run s).2) ∧
      ((∀ n ∈ g.nodeList, n.links.isEmpty = false) →
        (∀ (s : σ) generation, ((g.generate r).run s).1.result = .ok generation →
          ∀ word ∈ generation.words, word.length < r.minLength.toNat →
            g.StoppedByDraw σ r ((g.generate r).run s).1 word) ∧
        ∀ seed cpus generation, g.generateParallel r seed cpus = .ok generation →
          ∀ word ∈ generation.words, word.length < r.minLength.toNat →
            ∃ arrival ∈ g.workAll r seed cpus,
              g.StoppedByDraw Seeded (r.share (r.workers cpus)) arrival.report word) := by
  have wf := reach.wellFormed
  refine ⟨fun origin current length short => Request.stopsAfter_of_short short origin current,
    fun id n found => ?_, fun linked => ⟨?_, ?_⟩⟩
  · have own : g.node? n.id = some n := (wf.nodes id n found).id.symm ▸ found
    exact Node.leaves_walk wf own
  · intro s generation succeeded word member short
    exact wf.ensures_stoppedByDraw linked s word (Report.mem_words_of_result succeeded member) short
  · intro seed cpus generation succeeded word member short
    obtain ⟨part, inParts, here⟩ := Report.mem_words_of_merge succeeded member
    obtain ⟨arrival, arrived, rfl⟩ := List.mem_map.mp inParts
    have working := List.mem_mergeSort.mp arrived
    obtain ⟨worker, _, rfl⟩ := List.mem_map.mp working
    exact ⟨_, working, wf.ensures_stoppedByDraw linked _ word here short⟩

/-- A prepared graph of one node that leads back to itself, and where words start and may end. -/
def loop : Graph :=
  ((((empty.createNode ["a"]).2.addLink ⟨0⟩ ⟨0⟩ 1).graph.setProperties ⟨0⟩ true true).graph).prepare

theorem reachable_loop : loop.Reachable :=
  .next .prepare (.next (.setProperties ⟨0⟩ true true) (.next (.addLink ⟨0⟩ ⟨0⟩ 1)
    (.next (.createNode ["a"]) (.named ""))))

theorem linked_loop : ∀ n ∈ loop.nodeList, n.links.isEmpty = false := by decide +kernel

theorem isValid_loop : loop.isValid "a" = .ok true := by
  have starts : loop.starts = some [⟨0⟩] := by decide +kernel
  have start : ∃ n, loop.node? ⟨0⟩ = some n ∧ n.id = ⟨0⟩ ∧ "a" ∈ n.fragments.values ∧
      n.MayEnd := by decide +kernel
  obtain ⟨n, found, own, emits, ends⟩ := start
  have made := (Node.canMake_iff (own.symm ▸ found) "a").mpr (.stop (.fragment [] emits) ends)
  exact isValid_iff.mpr ⟨_, starts, ⟨0⟩, List.mem_cons_self, n, found, made⟩

theorem short_words_stopped_loop :
    loop.Reachable ∧ (∀ n ∈ loop.nodeList, n.links.isEmpty = false) ∧
      ∃ (s : Prompted) (generation : Generation),
        ((loop.generate (.ofLengths 1 3 3)).run s).1.result = .ok generation ∧
          "a" ∈ generation.words ∧ "a".length < (Request.ofLengths 1 3 3).minLength.toNat ∧
            loop.StoppedByDraw Prompted (.ofLengths 1 3 3)
              ((loop.generate (.ofLengths 1 3 3)).run s).1 "a" := by
  obtain ⟨prompts, generation, answered, first⟩ :=
    reachable_loop.possible_generate (r := .ofLengths 1 3 3) isValid_loop (by decide) (by decide)
      (by decide) (by decide) (by decide +kernel)
  have member := List.mem_of_mem_head? first
  obtain ⟨_, _, words⟩ := short_words_stopped (σ := Prompted) reachable_loop (.ofLengths 1 3 3)
  exact ⟨reachable_loop, linked_loop, ⟨prompts⟩, generation, answered, member, by decide,
    (words linked_loop).1 _ generation answered "a" member (by decide)⟩

/-- A walk that ends with a word of one character where three are wanted, on a node with a link. -/
theorem short_word_with_link : loop.Reachable ∧ (∀ n ∈ loop.nodeList, n.links.isEmpty = false) ∧
    ∃ n walk last, loop.node? ⟨0⟩ = some n ∧
      ((n.walk loop (.ofLengths 1 3 3)).run (Prompted.mk [])).1 = walk ∧
        walk.result = .ok (some "a") ∧ "a".length < (Request.ofLengths 1 3 3).minLength.toNat ∧
          walk.last? loop = some last ∧ last.links.isEmpty = false := by
  refine ⟨reachable_loop, linked_loop, (loop.node? ⟨0⟩).get (by decide +kernel),
    ⟨⟨0⟩, [⟨⟨0⟩, some "a"⟩], .word "a"⟩, (loop.node? ⟨0⟩).get (by decide +kernel), ?_⟩
  decide +kernel

end Graph

end PseudoWord
