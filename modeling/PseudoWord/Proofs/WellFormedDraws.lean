import PseudoWord.Proofs.AnySchedule
import PseudoWord.Proofs.BoundedWork
import PseudoWord.Proofs.FirstWord
import PseudoWord.Proofs.FreeId
import PseudoWord.Proofs.WalkSound

namespace PseudoWord

/-- A draw from zero on that was answered inside its bounds. -/
def Draw.Answered (draw : Draw) : Prop :=
  draw.low = 0 ∧ ∃ value, draw.value = some value ∧ value ≤ draw.high

/-- A computation on a source that records its requests comes out as it does on the source itself, and
all it draws is answered and is asked for as stated. -/
def DrawsWell {σ α : Type} (asks : UInt64 → Prop) (m : Sampler σ α) (traced : Sampler (Traced σ) α) :
    Prop :=
  ∀ s, (traced.run (.start s)).1 = (m.run s).1 ∧
    ∀ draw ∈ (traced.run (.start s)).2.trace, draw.Answered ∧ asks draw.high

/-- The keys climb from above zero, so that each is larger than the one before it. -/
theorem WeightedSet.Sound.ascending {α : Type} {s : WeightedSet α} (sound : s.Sound) :
    (0 :: s.entries.keys).Pairwise (· < ·) := by
  refine List.pairwise_cons.mpr ⟨fun key member => ?_, s.entries.keys_sorted⟩
  obtain ⟨entry, listed, rfl⟩ := List.mem_map.mp member
  exact (Climbs.bounds sound listed).1

/-- No number that is asked for has wrapped around: each bound is what it would be without a largest
number, and so are the weights between the keys. The room is nothing for a word that is too long. -/
structure Graph.Unwrapped (g : Graph) (r : Request) : Prop where
  starts : ∀ starts, g.starts = some starts → starts ≠ [] →
    (starts.length.toUInt64 - 1).toNat + 1 = starts.length
  fragments : ∀ n ∈ g.nodeList, n.fragments.isEmpty = false →
    (n.fragments.total - 1).toNat + 1 = n.fragments.total.toNat
  links : ∀ n ∈ g.nodeList, n.links.isEmpty = false →
    (n.links.total - 1).toNat + 1 = n.links.total.toNat
  keys : ∀ n ∈ g.nodeList, (0 :: n.fragments.entries.keys).Pairwise (· < ·) ∧
    (0 :: n.links.entries.keys).Pairwise (· < ·)
  stops : ∀ n : Node, (n.fanOut + 1).toNat = n.fanOut.toNat + 1
  room : ∀ length,
    (r.room length).toNat = min (r.maxLength.toNat + 1) (UInt64.size - 1) - length

theorem Graph.WellFormed.unwrapped {g : Graph} (wf : g.WellFormed) (r : Request) : g.Unwrapped r := by
  have sound (n : Node) (inside : n ∈ g.nodeList) := (wf.nodes _ n (wf.node?_self inside)).sound
  refine ⟨fun starts prepared filled => ?_, fun n inside => (sound n inside).fragments.toNat_total_pred,
    fun n inside => (sound n inside).links.toNat_total_pred,
    fun n inside => ⟨(sound n inside).fragments.ascending, (sound n inside).links.ascending⟩,
    Node.toNat_fanOut_succ, r.toNat_room⟩
  have few : starts.length ≤ UInt64.size := wf.starts starts prepared ▸ g.initializingIds_length_le
  exact toNat_starts_pred filled few

section Answers

variable {σ : Type} [Source σ] [AnsweringSource σ]

theorem Spends.drawsWell {α : Type} {asks : UInt64 → Prop} {breaks : Draw → Failure → Prop} {limit : Nat}
    {broken : α → Option Failure} {post : α → Prop} {m : Sampler σ α} {traced : Sampler (Traced σ) α}
    (spends : Spends asks breaks limit broken post m traced) : DrawsWell asks m traced := by
  intro s
  obtain ⟨same, _, recorded, _⟩ := Records.trace spends s
  refine ⟨same, fun draw member => ?_⟩
  obtain ⟨low, asked, _, ⟨state, rfl⟩, answer⟩ := recorded.asked draw member
  have some : ∃ value, (Source.draw 0 draw.high state).1 = .ok value :=
    AnsweringSource.answered state UInt64.zero_le
  obtain ⟨value, answered⟩ := some
  rw [low, answered] at answer
  exact ⟨⟨low, value, answer, (BoundedSource.inside answered).2⟩, asked⟩

/-- A draw on a sound set that is not empty yields one of its items. -/
theorem WeightedSet.Sound.ensures_item {α : Type} {s : WeightedSet α} (sound : s.Sound)
    (filled : s.isEmpty = false) :
    Ensures (s.choose : Draws σ (Option α)).run
      (fun outcome => ∃ item ∈ s.values, outcome = .ok (some item)) := by
  intro state
  have chosen := sound.ensures_choose (σ := σ) state
  obtain ⟨choice, answered⟩ := s.succeeds_choose (σ := σ) state
  rw [answered] at chosen ⊢
  rcases chosen with ⟨_, empty⟩ | ⟨item, member, same⟩
  · exact absurd (s.isEmpty_iff.mpr empty) (Bool.eq_false_iff.mp filled)
  · exact ⟨item, member, same ▸ rfl⟩

end Answers

/-- The number of attempts of a round and half the words that were found before it make up the number of
words that is wanted, of which some were still missing. -/
def Round.Fits (r : Request) (round : Round) : Prop :=
  round.found < r.count.toNat ∧ round.batch + round.found / 2 = r.count.toNat

namespace Graph

variable {σ : Type} [Source σ] {g : Graph} {r : Request}

theorem ensures_rounds_fit (starts : List NodeId) (tries : Nat) {rounds : List Round}
    (found : DistinctWords) (fit : ∀ round ∈ rounds, round.Fits r) :
    Ensures (g.runRounds r starts tries rounds found : Sampler σ Report)
      (fun report => ∀ round ∈ report.rounds, round.Fits r) := by
  have turned (rounds : List Round) (fit : ∀ round ∈ rounds, round.Fits r) :
      ∀ round ∈ rounds.reverse, round.Fits r := fun round member => fit round (List.mem_reverse.mp member)
  induction tries generalizing rounds found with
  | zero => exact ensures_pure (turned rounds fit)
  | succ tries ih =>
    rw [runRounds]
    split
    · rename_i missing
      refine ensures_bind_any fun batch => ?_
      have fits (attempts : List Attempt) :
          ∀ round ∈ ⟨found.size, r.count.toNat - found.size / 2, attempts⟩ :: rounds, round.Fits r := by
        intro round member
        rcases List.mem_cons.mp member with rfl | old
        · exact ⟨missing, Nat.sub_add_cancel ((Nat.div_le_self _ 2).trans missing.le)⟩
        · exact fit round old
      cases batch.failure with
      | some cause => exact ensures_pure (turned _ (fits _))
      | none => exact ih _ (fits _)
    · exact ensures_pure (turned rounds fit)

theorem ensures_generate_fit :
    Ensures (g.generate r : Sampler σ Report) (fun report => ∀ round ∈ report.rounds, round.Fits r) := by
  have nothing : ∀ round ∈ ([] : List Round), round.Fits r := fun _ member => absurd member List.not_mem_nil
  rw [generate]
  split
  · exact ensures_pure nothing
  · exact ensures_pure nothing
  · exact ensures_rounds_fit _ _ _ nothing

/-- What generation does with any source of this kind: it draws well, its rounds have the size that they
are to have, and it fails at nothing. -/
structure GeneratesWell (σ : Type) [Source σ] (g : Graph) (r : Request) : Prop where
  draws : DrawsWell (g.Wants r (g.starts.getD [])) (g.generate r : Sampler σ Report) (g.generate r)
  rounds : ∀ s : σ, ∀ round ∈ ((g.generate r).run s).1.rounds, round.Fits r
  answered : ∀ s : σ, ∃ generation, ((g.generate r).run s).1.result = .ok generation

/-- What happens at a node with any source of this kind: all that is asked for is drawn well, a set that
is not empty yields an item, and a walk gives a word, or it is too long after all its steps. -/
structure WalksWell (σ : Type) [Source σ] (g : Graph) (r : Request) (n : Node) : Prop where
  emit : DrawsWell n.Wants (n.emit : Draws σ (Option String)).run n.emit.run
  chooseLink : DrawsWell n.Wants (n.chooseLink : Draws σ (Option NodeId)).run n.chooseLink.run
  stops : DrawsWell n.Wants (n.stops : Draws σ Bool).run n.stops.run
  walk : DrawsWell (g.WalkWants r n) (n.walk g r : Sampler σ Walk) (n.walk g r)
  fragment : n.fragments.isEmpty = false → ∀ s : σ,
    ∃ fragment ∈ n.fragments.values, (n.emit.run.run s).1 = .ok (some fragment)
  link : n.links.isEmpty = false → ∀ s : σ,
    ∃ target ∈ n.links.values, (n.chooseLink.run.run s).1 = .ok (some target)
  known : ∀ (s : σ) (id : NodeId), ((n.walk g r).run s).1.ending ≠ .unknownNode id
  made : ∀ s : σ, (∃ word, ((n.walk g r).run s).1.result = .ok (some word)) ∨
    ((n.walk g r).run s).1.ending = .tooLong r.maxSteps ∧
      ((n.walk g r).run s).1.visits.length = r.maxSteps.toNat + 1

theorem generatesWell [AnsweringSource σ] (prepared : g.isPrepared = true) (r : Request) :
    g.GeneratesWell σ r := by
  obtain ⟨starts, listed⟩ := Option.isSome_iff_exists.mp prepared
  have draws := (spends_generate (σ := σ) (r := r) listed).drawsWell
  refine ⟨?_, ensures_generate_fit, fun s => ⟨_, ensures_generate_result prepared r s⟩⟩
  rw [listed]
  exact draws

theorem Path.last_mem {origin last : Node} {trail : List Visit} {text : String}
    (path : g.Path origin last trail text) (inside : origin ∈ g.nodeList) : last ∈ g.nodeList := by
  cases path with
  | start => exact inside
  | step _ _ found => exact g.mem_nodeList_iff.mpr ⟨_, found⟩

/-- On a well-formed graph links lead to nodes, and the nodes that a walk comes to are of the graph. -/
theorem WellFormed.ending_ne_unknownNode (wf : g.WellFormed) {n : Node} (inside : n ∈ g.nodeList)
    {walk : Walk} (isPath : walk.IsPath g r n) (id : NodeId) : walk.ending ≠ .unknownNode id := by
  intro unknown
  have ends := isPath.ends
  rw [unknown] at ends
  cases ends with
  | unknownNode path linked missing =>
    have admits := wf.nodes _ _ (wf.node?_self (path.last_mem inside))
    obtain ⟨next, found⟩ := admits.links id linked
    exact Option.some_ne_none next (found.symm.trans missing)

theorem WellFormed.walksWell [AnsweringSource σ] (wf : g.WellFormed) (r : Request) {n : Node}
    (inside : n ∈ g.nodeList) : g.WalksWell σ r n := by
  have sound := (wf.nodes _ n (wf.node?_self inside)).sound
  have isPath := Node.ensures_isPath (σ := σ) (g := g) (r := r)
    (fun id m found => (wf.nodes id m found).sound) sound
  have known (s : σ) := wf.ending_ne_unknownNode inside (isPath s)
  refine ⟨(n.asks_emit fun _ wants => wants).drawsWell, (n.asks_chooseLink fun _ wants => wants).drawsWell,
    (n.asks_stops fun _ wants => wants).drawsWell, n.spends_walk.drawsWell,
    fun filled s => sound.fragments.ensures_item filled s,
    fun linked s => sound.links.ensures_item linked s, known, fun s => ?_⟩
  have unbroken := n.ensures_unbroken (g := g) (r := r) s
  have ends := (isPath s).ends
  cases ended : ((n.walk g r).run s).1.ending with
  | word text => exact .inl ⟨text, by rw [Walk.result, ended]⟩
  | unknownNode id => exact absurd ended (known s id)
  | tooLong maxSteps =>
    rw [ended] at ends
    cases ends with
    | tooLong steps => exact .inr ⟨rfl, by rw [Walk.visits, List.length_reverse, steps]⟩
  | failed cause =>
    obtain ⟨made, result⟩ := unbroken
    rw [Walk.result, ended] at result
    cases result

/-- On a prepared graph that operations have left, and with a source that answers whenever it can, every
draw of a generation, of the share of a worker and of a visit or walk is asked for from zero to one of the
bounds that never wrap, and is answered with a number between. So nothing fails, and the only walks
without a word are those that are too long. -/
theorem draws_well_formed (σ : Type) [Source σ] [AnsweringSource σ] {g : Graph} (reach : Reachable g)
    (prepared : g.isPrepared = true) (r : Request) :
    g.Unwrapped r ∧ g.GeneratesWell σ r ∧
      (∀ seed cpus, (∃ generation, g.generateParallel r seed cpus = .ok generation) ∧
        g.GeneratesWell Seeded (r.share (r.workers cpus))) ∧
      ∀ n ∈ g.nodeList, g.WalksWell σ r n := by
  have wf := reach.wellFormed
  refine ⟨wf.unwrapped r, generatesWell prepared r, fun seed cpus => ⟨?_, generatesWell prepared _⟩,
    fun n inside => wf.walksWell r inside⟩
  exact ⟨_, generateParallel_eq fun worker _ => ensures_generate_result prepared _ _⟩

/-- Three words without a largest length. -/
def wideRequest : Request := ⟨3, 1, 18446744073709551615, 2, 5, .current⟩

theorem draws_well_formed_wide :
    (ofTable Demo.sampleTable).Unwrapped wideRequest ∧
      (ofTable Demo.sampleTable).GeneratesWell Prompted wideRequest ∧
      (∃ generation, (ofTable Demo.sampleTable).generateParallel wideRequest 7 2 = .ok generation) ∧
      ∃ n ∈ (ofTable Demo.sampleTable).nodeList,
        (ofTable Demo.sampleTable).WalksWell Prompted wideRequest n ∧
          ((n.walk (ofTable Demo.sampleTable) wideRequest).run
              (Traced.start (Prompted.mk [3, 1, 2, 1, 1]))).2.trace.map (·.high) =
            [5, 3, 2, 2, 18446744073709551612, 2] := by
  obtain ⟨unwrapped, generates, parallel, walks⟩ :=
    draws_well_formed Prompted (.table Demo.sampleTable) rfl wideRequest
  have drawn : ∃ n ∈ (ofTable Demo.sampleTable).nodeList,
      ((n.walk (ofTable Demo.sampleTable) wideRequest).run
          (Traced.start (Prompted.mk [3, 1, 2, 1, 1]))).2.trace.map (·.high) =
        [5, 3, 2, 2, 18446744073709551612, 2] := by decide +kernel
  obtain ⟨n, inside, drawn⟩ := drawn
  exact ⟨unwrapped, generates, (parallel 7 2).1, n, inside, walks n inside, drawn⟩

end Graph

end PseudoWord
