import PseudoWord.Proofs.SearchExact

namespace PseudoWord

/-- Two nodes that say the same under a renaming of ids, whatever their weights and the order of
their fragments and links. -/
def Node.Alike (rename : NodeId → NodeId) (n m : Node) : Prop :=
  m.id = rename n.id ∧ m.initializing = n.initializing ∧ (m.MayEnd ↔ n.MayEnd) ∧
    (n.fragments.values ⊆ m.fragments.values ∧ m.fragments.values ⊆ n.fragments.values) ∧
    n.links.values.map rename ⊆ m.links.values ∧ m.links.values ⊆ n.links.values.map rename

instance (rename : NodeId → NodeId) (n m : Node) : Decidable (n.Alike rename m) :=
  inferInstanceAs (Decidable (_ ∧ _ ∧ (_ ↔ _) ∧ (_ ∧ _) ∧ _ ∧ _))

/-- Two graphs whose nodes correspond under a renaming. -/
def Graph.Alike (rename : NodeId → NodeId) (g h : Graph) : Prop :=
  (∀ n ∈ g.nodeList, ∃ m ∈ h.nodeList, n.Alike rename m) ∧
    ∀ m ∈ h.nodeList, ∃ n ∈ g.nodeList, n.Alike rename m

instance (rename : NodeId → NodeId) (g h : Graph) : Decidable (g.Alike rename h) :=
  inferInstanceAs (Decidable (_ ∧ _))

theorem Node.Alike.takes_iff {rename : NodeId → NodeId} {n m : Node} (alike : n.Alike rename m)
    {word rest : List Char} : m.Takes word rest ↔ n.Takes word rest := by
  obtain ⟨_, _, _, ⟨more, fewer⟩, _⟩ := alike
  constructor
  · exact .mono (fun silent => List.subset_nil.mp (silent ▸ more)) fewer
  · exact .mono (fun silent => List.subset_nil.mp (silent ▸ fewer)) more

namespace Graph

section Alike

variable {g h : Graph} {rename : NodeId → NodeId} {n m : Node} {word : List Char}

theorem WellFormed.mem_nodeList (wf : g.WellFormed) {id : NodeId} (found : g.node? id = some n) :
    n ∈ g.nodeList ∧ n.id = id := ⟨g.mem_nodeList_iff.mpr ⟨id, found⟩, (wf.nodes id n found).id⟩

/-- The node under the new id says the same as the one under the old id. -/
theorem Alike.node? (alike : g.Alike rename h) (wf : g.WellFormed) (wfh : h.WellFormed) {id : NodeId}
    (found : g.node? id = some n) : ∃ m, h.node? (rename id) = some m ∧ n.Alike rename m := by
  obtain ⟨member, own⟩ := wf.mem_nodeList found
  obtain ⟨m, listed, same⟩ := alike.1 n member
  have renamed : m.id = rename id := same.1.trans (congrArg rename own)
  exact ⟨m, renamed ▸ wfh.node?_self listed, same⟩

theorem Alike.accepts (alike : g.Alike rename h) (wf : g.WellFormed) (wfh : h.WellFormed)
    (accepted : g.Accepts n word) (same : n.Alike rename m) : h.Accepts m word := by
  have simulation : g.Simulation h (·.Alike rename ·) := by
    refine ⟨fun same _ _ => same.takes_iff.mpr, fun same ends => same.2.2.1.mpr ends, ?_⟩
    intro n m same target linked next found
    have further : rename target ∈ m.links.values := same.2.2.2.2.1 (List.mem_map_of_mem linked)
    exact ⟨rename target, further, alike.node? wf wfh found⟩
  exact simulation.accepts accepted same

theorem Alike.accepts_back (alike : g.Alike rename h) (wf : g.WellFormed) (wfh : h.WellFormed)
    (accepted : h.Accepts m word) {id : NodeId} (atId : g.node? id = some n)
    (same : n.Alike rename m) : g.Accepts n word := by
  have simulation : h.Simulation g (fun m n => (∃ id, g.node? id = some n) ∧ n.Alike rename m) := by
    refine ⟨fun ⟨_, same⟩ _ _ => same.takes_iff.mp, fun ⟨_, same⟩ ends => same.2.2.1.mp ends, ?_⟩
    rintro m n ⟨⟨id, atId⟩, same⟩ target linked next found
    obtain ⟨source, fromSource, rfl⟩ := List.mem_map.mp (same.2.2.2.2.2 linked)
    obtain ⟨before, atSource⟩ := (wf.nodes id n atId).links source fromSource
    obtain ⟨next', renamed, later⟩ := alike.node? wf wfh atSource
    have equal : next' = next := Option.some.inj (renamed.symm.trans found)
    exact ⟨source, fromSource, before, atSource, ⟨source, atSource⟩, equal ▸ later⟩
  exact simulation.accepts accepted ⟨⟨id, atId⟩, same⟩

end Alike

/-- Whether a word is valid, as a matter of the language alone. -/
theorem WellFormed.isValid_iff_accepts {g : Graph} (wf : g.WellFormed) {starts : List NodeId}
    (prepared : g.starts = some starts) (word : String) :
    g.isValid word = .ok true ↔
      ∃ n ∈ g.nodeList, n.initializing = true ∧ g.Accepts n word.toList := by
  have listed (id : NodeId) : id ∈ starts ↔ ∃ n ∈ g.nodeList, n.initializing = true ∧ n.id = id := by
    rw [wf.starts starts prepared, mem_initializingIds_iff]
  rw [isValid_iff]
  constructor
  · rintro ⟨_, same, id, member, n, found, made⟩
    cases prepared.symm.trans same
    obtain ⟨other, inside, flagged, own⟩ := (listed id).mp member
    have equal : other = n := Option.some.inj ((own ▸ wf.node?_self inside).symm.trans found)
    subst equal
    exact ⟨other, inside, flagged, Node.accepts_of_canMake made⟩
  · rintro ⟨n, inside, flagged, accepted⟩
    have own := wf.node?_self inside
    have made := (Node.canMake_iff own word).mpr accepted
    exact ⟨starts, prepared, n.id, (listed n.id).mpr ⟨n, inside, flagged, rfl⟩, n, own, made⟩

theorem Reachable.exists_isValid {g : Graph} (reach : Reachable g) (prepared : g.isPrepared = true)
    (word : String) : ∃ valid, g.isValid word = .ok valid ∧
      (valid = true ↔ ∃ n ∈ g.nodeList, n.initializing = true ∧ g.Accepts n word.toList) := by
  obtain ⟨starts, remembered⟩ := Option.isSome_iff_exists.mp prepared
  have exact := reach.wellFormed.isValid_iff_accepts remembered word
  cases answer : g.isValid word with
  | error cause =>
    rw [isValid, initializers, remembered] at answer
    cases answer
  | ok valid =>
    rw [answer, Except.ok.injEq] at exact
    exact ⟨valid, rfl, exact⟩

theorem Alike.exists_initializing {g h : Graph} {rename : NodeId → NodeId} (alike : g.Alike rename h)
    (wf : g.WellFormed) (wfh : h.WellFormed) (word : List Char) :
    (∃ n ∈ g.nodeList, n.initializing = true ∧ g.Accepts n word) ↔
      ∃ m ∈ h.nodeList, m.initializing = true ∧ h.Accepts m word := by
  constructor
  · rintro ⟨n, inside, flagged, accepted⟩
    obtain ⟨m, listed, same⟩ := alike.1 n inside
    exact ⟨m, listed, same.2.1.trans flagged, alike.accepts wf wfh accepted same⟩
  · rintro ⟨m, listed, flagged, accepted⟩
    obtain ⟨n, inside, same⟩ := alike.2 m listed
    have own := wf.node?_self inside
    exact ⟨n, inside, same.2.1.symm.trans flagged, alike.accepts_back wf wfh accepted own same⟩

/-- The acceptor is exact for every node and, on a prepared graph, for the start nodes together. The
weights, the order in which fragments and links stand and the ids of the nodes make no difference. -/
theorem acceptance_exact {g : Graph} (reach : Reachable g) :
    (∀ n ∈ g.nodeList, ∀ word : String, n.canMake g word = true ↔ g.Accepts n word.toList) ∧
      (g.isPrepared = true → ∀ word : String, ∃ valid, g.isValid word = .ok valid ∧
        (valid = true ↔ ∃ n ∈ g.nodeList, n.initializing = true ∧ g.Accepts n word.toList)) ∧
      ∀ h rename, Reachable h → g.Alike rename h →
        (∀ n ∈ g.nodeList, ∀ m ∈ h.nodeList, n.Alike rename m → ∀ word : String,
          n.canMake g word = m.canMake h word) ∧
        (g.isPrepared = true → h.isPrepared = true → ∀ word : String,
          g.isValid word = h.isValid word) := by
  have wf := reach.wellFormed
  refine ⟨fun n inside word => Node.canMake_iff (wf.node?_self inside) word, fun prepared word =>
    reach.exists_isValid prepared word, fun h rename reachh alike => ⟨?_, ?_⟩⟩
  · intro n inside m listed same word
    have wfh := reachh.wellFormed
    have own := wf.node?_self inside
    rw [Bool.eq_iff_iff, Node.canMake_iff own, Node.canMake_iff (wfh.node?_self listed)]
    exact ⟨fun accepted => alike.accepts wf wfh accepted same,
      fun accepted => alike.accepts_back wf wfh accepted own same⟩
  · intro prepared preparedh word
    obtain ⟨valid, answer, exact⟩ := reach.exists_isValid prepared word
    obtain ⟨other, otherAnswer, otherExact⟩ := reachh.exists_isValid preparedh word
    have transfer := alike.exists_initializing wf reachh.wellFormed word.toList
    have same : valid = other := by rw [Bool.eq_iff_iff, exact, transfer, otherExact]
    rw [answer, otherAnswer, same]

/-- The sample table with other weights, other numbers for its nodes and its rows and items turned
around. -/
def turnedTable : List String :=
  ["N7 ; sh | r(9) | n ; O | N3",
    "N3 ; o | i | e | a ; N7 | N1",
    "N1 ; to | ta | ko | ki(4) | ka ; O | N7 | N3",
    "S ; _ ; N3 | N1"]

theorem acceptance_exact_turned :
    (ofTable turnedTable).isValid "kan" = .ok true ∧
      ∀ n ∈ (ofTable Demo.sampleTable).nodeList,
        ∀ word : String, n.canMake (ofTable Demo.sampleTable) word = true ↔
          (ofTable Demo.sampleTable).Accepts n word.toList := by
  have exact := acceptance_exact (.table Demo.sampleTable)
  let rename (id : NodeId) : NodeId := if id = ⟨0⟩ then ⟨1⟩ else if id = ⟨1⟩ then ⟨3⟩ else ⟨7⟩
  have alike : (ofTable Demo.sampleTable).Alike rename (ofTable turnedTable) := by decide +kernel
  have prepared : (ofTable Demo.sampleTable).isPrepared = true := rfl
  have same := (exact.2.2 _ rename (.table turnedTable) alike).2 prepared rfl "kan"
  exact ⟨same.symm.trans Demo.valid_kan, exact.1⟩

end Graph

end PseudoWord
