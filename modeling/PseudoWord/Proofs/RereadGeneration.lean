import PseudoWord.Proofs.ReportWords
import PseudoWord.Proofs.SameWalks
import PseudoWord.Proofs.TableRoundTrip
import PseudoWord.Proofs.WalkComplete

namespace PseudoWord

theorem Node.bearing_reread_iff (n : Node) :
    n.bearing = n.reread.bearing ↔ (n.links.isEmpty = true → n.terminating = true) := by
  rw [bearing, bearing, identity_reread, Prod.mk.injEq]
  simp only [true_and, reread, isTerminating]
  cases n.terminating <;> cases n.links.isEmpty <;> decide

/-- A walk that follows one link and ends there, from what it draws on the way. -/
theorem Node.plays_walk {g : Graph} {r : Request} {n next : Node} {target : NodeId} {budget : Nat}
    {first second : Option String} {atStart onward along atEnd atStop : List UInt64}
    (room : r.maxSteps.toNat = budget + 1) (found : g.node? target = some next)
    (emits : Plays n.emit.run atStart (.ok first)) (goesOn : Plays n.stops.run onward (.ok false))
    (follows : Plays n.chooseLink.run along (.ok (some target)))
    (arrives : Plays next.emit.run atEnd (.ok second))
    (ends : Plays (r.stopsAfter n next (first.getD "" ++ second.getD "").length).run atStop (.ok true)) :
    Plays (n.walk g r) (atStart ++ onward ++ along ++ atEnd ++ atStop)
      ⟨n.id, [⟨next.id, second⟩, ⟨n.id, first⟩], .word (first.getD "" ++ second.getD "")⟩ := by
  rw [← List.append_nil atStop]
  simp only [List.append_assoc]
  rw [walk]
  refine emits.bind (goesOn.bind ?_)
  simp only [room]
  rw [Walk.follow]
  refine follows.bind ?_
  simp only [found]
  exact arrives.bind (ends.bind (fun _ => rfl))

theorem Node.Sound.exists_yields_emit {n : Node} (sound : n.Sound) :
    ∃ choice, Yields (n.emit (σ := Prompted)).run (.ok choice) := by
  cases listed : n.fragments.values with
  | nil => exact ⟨none, WeightedSet.yields_choose_none listed⟩
  | cons fragment rest =>
    exact ⟨some fragment, sound.fragments.yields_choose (listed ▸ List.mem_cons_self)⟩

theorem Request.plays_stops_unmarked (r : Request) (origin : Node) {current : Node}
    (linkless : current.links.isEmpty = true) (unmarked : current.terminating = false) (length : Nat) :
    Plays (r.stopsAfter (σ := Prompted) origin current length).run [] (.ok true) := by
  intro later
  rw [stopsAfter, stopsLong, Node.stops, unmarked, linkless]
  rfl

theorem Request.plays_stops_marked {r : Request} (origin : Node) {current : Node} {length : Nat}
    (marked : current.terminating = true) (long : r.minLength.toNat ≤ length) :
    Plays (r.stopsAfter (σ := Prompted) origin current length).run [0] (.ok true) := by
  intro later
  rw [stopsAfter, stopsLong, marked, decide_eq_true long]
  rfl

namespace Graph

variable {g : Graph}

/-- Every node that a link leads to, and from which nothing leads on, is flagged as terminating. -/
def MarksEnds (g : Graph) : Prop :=
  ∀ n ∈ g.nodeList, ∀ target ∈ n.links.values, ∀ next ∈ g.node? target,
    next.links.isEmpty = true → next.terminating = true

instance (g : Graph) : Decidable g.MarksEnds :=
  inferInstanceAs (Decidable (∀ n ∈ g.nodeList, ∀ target ∈ n.links.values, ∀ next ∈ g.node? target,
    next.links.isEmpty = true → next.terminating = true))

/-- The graph of the table of a graph. -/
def reread (g : Graph) : Graph := ofTable g.table

theorem WellFormed.node?_reread (wf : g.WellFormed) (id : NodeId) :
    g.reread.node? id = (g.node? id).map Node.reread := wf.node?_ofTable_table id

theorem WellFormed.replays_reread (wf : g.WellFormed) (marks : g.MarksEnds) : g.Replays g.reread := by
  intro n inside target linked
  rw [wf.node?_reread]
  cases found : g.node? target with
  | none => rfl
  | some next =>
    exact congrArg some (next.bearing_reread_iff.mpr (marks n inside target linked next found))

/-- In a table every node says itself where a word may end. -/
theorem WellFormed.marksEnds_reread (wf : g.WellFormed) : g.reread.MarksEnds := by
  intro n inside target linked next found linkless
  rw [wf.node?_reread] at found
  obtain ⟨old, _, rfl⟩ := Option.map_eq_some_iff.mp found
  exact Bool.or_eq_true_iff.mpr (.inr linkless)

theorem starts_ofTable (lines : List String) :
    (ofTable lines).starts = some (ofTable lines).initializingIds := rfl

theorem same_prepare (g : Graph) : g.prepare.Same g := rfl

theorem replays_prepare {g h : Graph} : g.prepare.Replays h ↔ g.Replays h := Iff.rfl

theorem WellFormed.same_reread (wf : g.WellFormed) : g.reread.Same g := wf.same_ofTable_table

theorem WellFormed.generate_reread {σ : Type} [Source σ] (wf : g.WellFormed) (marks : g.MarksEnds)
    (r : Request) : g.prepare.generate r = (g.reread.generate r : Sampler σ Report) := by
  have same : g.prepare.Same g.reread := (same_prepare g).trans wf.same_reread.symm
  have starts : g.prepare.starts = g.reread.starts := by
    rw [reread, starts_ofTable, wf.same_ofTable_table.initializingIds_eq]
    rfl
  exact generate_congr same (replays_prepare.mpr (wf.replays_reread marks)) starts r

/-- A request whose walks may stop at any length and follow one link. -/
def oneLink : Request := ⟨0, 0, 0, 0, 1, .origin⟩

/-- Where an end is not marked, a walk that comes there draws less than after the table was read
back: then only it asks whether to stop. -/
theorem WellFormed.marksEnds_of_walks (wf : g.WellFormed)
    (alike : ∀ n ∈ g.nodeList,
      n.walk g oneLink = (n.reread.walk g.reread oneLink : Sampler Prompted Walk)) : g.MarksEnds := by
  intro n inside target linked next found linkless
  have sound := (wf.nodes n.id n (wf.node?_self inside)).sound
  have nextSound := (wf.nodes target next found).sound
  by_contra unmarked
  have flag : next.terminating = false := Bool.eq_false_iff.mpr unmarked
  obtain ⟨first, atStart, emits⟩ := sound.exists_yields_emit
  obtain ⟨second, atEnd, arrives⟩ := nextSound.exists_yields_emit
  obtain ⟨onward, goesOn⟩ := Node.yields_goesOn (WeightedSet.isEmpty_eq_false_of_mem linked)
  obtain ⟨along, follows⟩ := sound.links.yields_choose linked
  have before := Node.plays_walk (r := oneLink) rfl found emits goesOn follows arrives
    (oneLink.plays_stops_unmarked n linkless flag _)
  have foundAgain : g.reread.node? target = some next.reread := by
    rw [wf.node?_reread, found, Option.map_some]
  have goesOnAgain : Plays (n.reread.stops (σ := Prompted)).run onward (.ok false) := by
    rw [Node.stops_eq_of_identity n.identity_reread]
    exact goesOn
  have emitsAgain : Plays n.reread.emit.run atStart (.ok first) := emits
  have arrivesAgain : Plays next.reread.emit.run atEnd (.ok second) := arrives
  have marked : next.reread.terminating = true := Bool.or_eq_true_iff.mpr (.inr linkless)
  have after := Node.plays_walk (r := oneLink) rfl foundAgain emitsAgain goesOnAgain follows
    arrivesAgain (Request.plays_stops_marked n.reread marked (Nat.zero_le _))
  rw [← alike n inside] at after
  rw [List.append_nil] at before
  exact absurd (before.unique after) (List.cons_ne_nil 0 [])

theorem prepare_ofTable (lines : List String) : (ofTable lines).prepare = ofTable lines := rfl

/-- Read back from its own table, a graph that marks its ends answers every request alike, and after
the same draws. A node to which a link leads and from which nothing leads on comes back flagged: if it
was not flagged before, walks to it ask more of the source. From the second time on nothing changes. -/
theorem reread_generation (reach : Reachable g) :
    (g.MarksEnds → ∀ (σ : Type) [Source σ] (r : Request),
        g.prepare.generate r = (g.reread.generate r : Sampler σ Report)) ∧
      (g.MarksEnds ↔ ∀ (σ : Type) [Source σ] (r : Request),
        ∀ n ∈ g.nodeList, ∀ m ∈ g.reread.node? n.id,
          n.walk g r = (m.walk g.reread r : Sampler σ Walk)) ∧
      ∀ (σ : Type) [Source σ] (r : Request),
        g.reread.generate r = (g.reread.reread.generate r : Sampler σ Report) := by
  have wf := reach.wellFormed
  have again : g.reread.WellFormed := .ofTable g.table
  have own {n : Node} (inside : n ∈ g.nodeList) : g.reread.node? n.id = some n.reread := by
    rw [wf.node?_reread, wf.node?_self inside, Option.map_some]
  refine ⟨fun marks σ _ r => wf.generate_reread marks r, ⟨?_, fun alike => ?_⟩, fun σ _ r => ?_⟩
  · intro marks σ _ r n inside m found
    have back : n.reread = m := Option.some.inj ((own inside).symm.trans found)
    exact back ▸ Node.walk_congr (wf.replays_reread marks) n.identity_reread.symm inside
  · exact wf.marksEnds_of_walks fun n inside => alike Prompted oneLink n inside n.reread (own inside)
  · have same := again.generate_reread (σ := σ) wf.marksEnds_reread r
    rwa [reread, prepare_ofTable] at same

theorem reread_generation_sample :
    (ofTable Demo.sampleTable).MarksEnds ∧
      (ofTable Demo.sampleTable).prepare.generate Demo.request =
        ((ofTable Demo.sampleTable).reread.generate Demo.request : Sampler Seeded Report) := by
  have marks : (ofTable Demo.sampleTable).MarksEnds := by decide +kernel
  exact ⟨marks, (reread_generation (.table Demo.sampleTable)).1 marks Seeded Demo.request⟩

/-- A table in which a link leads to a node without a row of its own. -/
def rowlessTable : List String := ["S ; _ ; N0", "N0 ; a | b ; N1"]

/-- Two words of any length up to five, in one round. -/
def twoWords : Request := ⟨2, 0, 5, 1, 10, .origin⟩

/-- Six answers: for the start node, the fragment and the link of two walks. -/
def sixPrompts : Prompted := ⟨[0, 0, 0, 0, 1, 0]⟩

theorem words_of_attempts {σ : Type} [Source σ] {r : Request} {s : σ} {words : List String}
    (made : ((g.generate r).run s).1.attempts.filterMap Attempt.word? = words) :
    ((g.generate r).run s).1.words = (DistinctWords.empty.insertAll words).toList := by
  rw [g.ensures_words s, made]

/-- The two graphs are the same language, but a source gives them different words: at the end of its
first walk the second graph asks whether to stop, so its second walk gets other answers. -/
theorem reread_changes_words :
    (ofTable rowlessTable).reread.Same (ofTable rowlessTable) ∧
      (((ofTable rowlessTable).prepare.generate twoWords).run sixPrompts).1.words = ["a", "b"] ∧
      (((ofTable rowlessTable).reread.generate twoWords).run sixPrompts).1.words = ["a"] := by
  refine ⟨(WellFormed.ofTable rowlessTable).same_reread, ?_, ?_⟩
  · have made : (((ofTable rowlessTable).prepare.generate twoWords).run
        sixPrompts).1.attempts.filterMap Attempt.word? = ["a", "b"] := by decide +kernel
    rw [words_of_attempts made]
    simp [DistinctWords.insertAll, DistinctWords.insert, DistinctWords.empty, DistinctWords.toList]
  · have made : (((ofTable rowlessTable).reread.generate twoWords).run
        sixPrompts).1.attempts.filterMap Attempt.word? = ["a", "a"] := by decide +kernel
    rw [words_of_attempts made]
    simp [DistinctWords.insertAll, DistinctWords.insert, DistinctWords.empty, DistinctWords.toList]

end Graph

end PseudoWord
