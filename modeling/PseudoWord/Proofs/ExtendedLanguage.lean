import PseudoWord.Proofs.CurrentStarts
import PseudoWord.Proofs.KeptNodes
import PseudoWord.Proofs.WordLanguage

namespace PseudoWord

namespace Node

/-- What a node may become while a language is extended: it begins words if it did before, and whatever
a visit could do is still possible. -/
structure ExtendsTo (n m : Node) : Prop where
  begins : n.initializing = true → m.initializing = true
  covers : m.Covers n

namespace ExtendsTo

theorem refl (n : Node) : n.ExtendsTo n := ⟨fun begins => begins, .refl n⟩

theorem trans {n m k : Node} (first : n.ExtendsTo m) (second : m.ExtendsTo k) : n.ExtendsTo k :=
  ⟨fun begins => second.begins (first.begins begins), second.covers.trans first.covers⟩

theorem of_fragments_eq {n m : Node} (same : m.fragments = n.fragments)
    (begins : n.initializing = true → m.initializing = true)
    (ends : n.MayEnd → m.MayEnd)
    (links : n.links.values ⊆ m.links.values) : n.ExtendsTo m := by
  have takes (word rest : List Char) : n.Takes word rest → m.Takes word rest :=
    .mono (fun silent => same ▸ silent) (same ▸ List.Subset.refl _)
  exact ⟨begins, takes, ends, links⟩

end ExtendsTo

section

variable {n : Node}

/-- A node that has no fragment takes nothing off a word; with its first one it has to. -/
theorem extendsTo_addFragment (sound : n.Sound) (filled : n.fragments.isEmpty = false)
    (fragment : String) (weight : Int64) : n.ExtendsTo (n.addFragment fragment weight) := by
  have spoken : n.fragments.values ≠ [] := fun silent =>
    Bool.false_ne_true (filled.symm.trans (n.fragments.isEmpty_iff.mpr silent))
  rw [addFragment_eq]
  split
  · have more := sound.fragments.subset_values_insert fragment weight
    exact ⟨fun begins => begins,
      fun _ _ takes => takes.mono (fun silent => absurd silent spoken) more, fun ends => ends,
      fun _ linked => linked⟩
  · exact .refl n

/-- A node that has no link ends words unasked; with its first one it only does when it is flagged. -/
theorem extendsTo_addLink (sound : n.Sound) (leads : n.links.isEmpty = false ∨ n.terminating = true)
    (target : NodeId) (weight : Int64) : n.ExtendsTo (n.addLink target weight) := by
  have flagged (ends : n.MayEnd) : n.terminating = true := by
    rcases leads with linked | flagged
    · exact ends.resolve_right fun linkless =>
        Bool.false_ne_true (linked.symm.trans (n.links.isEmpty_iff.mpr linkless))
    · exact flagged
  rw [addLink_eq]
  exact .of_fragments_eq rfl (fun begins => begins) (fun ends => .inl (flagged ends))
    (sound.links.subset_values_insert target weight)

theorem extendsTo_setFlags {initializing terminating : Bool}
    (begins : n.initializing = true → initializing = true)
    (ends : n.terminating = true → terminating = true) :
    n.ExtendsTo (n.setFlags initializing terminating) := by
  exact .of_fragments_eq rfl begins (fun ended => ended.imp_left ends) (List.Subset.refl _)

end

theorem extendsTo_countedRun (n : Node) : n.ExtendsTo { n with runs := n.runs + 1 } :=
  .of_fragments_eq rfl (fun begins => begins) (fun ends => ends) (List.Subset.refl _)

end Node

/-- The operations that only add to a language: new nodes, fragments where there are some, links where
there are some or where words may end anyway, flags, and rows of start nodes. Those that do not touch
the language are among them. -/
def Operation.Extends (g : Graph) : Operation → Prop
  | createNode _ => g.size < UInt64.size
  | addFragment id _ _ => ∀ n ∈ g.node? id, n.fragments.isEmpty = false
  | addLink source _ _ => ∀ n ∈ g.node? source, n.links.isEmpty = false ∨ n.terminating = true
  | setProperties id initializing terminating => ∀ n ∈ g.node? id,
      (n.initializing = true → initializing = true) ∧ (n.terminating = true → terminating = true)
  | applyRow line => ∀ row ∈ (Row.parse line.toList).toOption, row.head = .starts
  | setName _ | prepare | countRuns _ => True

instance (g : Graph) : (operation : Operation) → Decidable (operation.Extends g)
  | .createNode _ => inferInstanceAs (Decidable (_ < _))
  | .addFragment id _ _ => inferInstanceAs (Decidable (∀ n ∈ g.node? id, _))
  | .addLink source _ _ => inferInstanceAs (Decidable (∀ n ∈ g.node? source, _))
  | .setProperties id _ _ => inferInstanceAs (Decidable (∀ n ∈ g.node? id, _))
  | .applyRow line => inferInstanceAs (Decidable (∀ row ∈ (Row.parse line.toList).toOption, _))
  | .setName _ | .prepare | .countRuns _ => .isTrue trivial

namespace Graph

theorem carries_markInitializing (g : Graph) (id : NodeId) :
    g.Carries Node.ExtendsTo (g.markInitializing id) := by
  refine carries_put Node.ExtendsTo.refl fun old found => ?_
  rw [nodeOrNew_of_some found]
  exact Node.extendsTo_setFlags (n := old) (fun _ => rfl) fun ends => ends

theorem carries_countRun (g : Graph) (id : NodeId) : g.Carries Node.ExtendsTo (g.countRun id) := by
  intro other n found
  rw [node?_countRun, found]
  refine ⟨_, rfl, ?_⟩
  split
  · exact n.extendsTo_countedRun
  · exact .refl n

end Graph

theorem Operation.Extends.carries {g : Graph} (wf : g.WellFormed) {operation : Operation}
    (extension : operation.Extends g) : g.Carries Node.ExtendsTo (operation.apply g) := by
  cases operation with
  | createNode fragments => exact Graph.carries_createNode Node.ExtendsTo.refl extension fragments
  | addFragment id fragment weight =>
    exact Graph.carries_updateNode Node.ExtendsTo.refl fun n found =>
      Node.extendsTo_addFragment (wf.nodes id n found).sound (extension n found) fragment weight
  | addLink source target weight =>
    exact Graph.carries_addLink Node.ExtendsTo.refl Node.ExtendsTo.trans fun n found =>
      Node.extendsTo_addLink (wf.nodes source n found).sound (extension n found) target weight
  | setProperties id initializing terminating =>
    exact Graph.carries_updateNode Node.ExtendsTo.refl fun n found =>
      Node.extendsTo_setFlags (extension n found).1 (extension n found).2
  | applyRow line =>
    rw [Extends] at extension
    rw [apply, Graph.applyRow]
    split
    · rename_i row parsed
      rw [parsed] at extension
      rw [Graph.addRow, extension row rfl]
      exact Graph.carries_foldl Node.ExtendsTo.refl Node.ExtendsTo.trans
        Graph.carries_markInitializing _ g
    · exact Graph.carries_refl Node.ExtendsTo.refl g
  | setName name => exact Graph.carries_refl Node.ExtendsTo.refl g
  | prepare => exact Graph.carries_refl Node.ExtendsTo.refl g
  | countRuns report =>
    exact Graph.carries_foldl Node.ExtendsTo.refl Node.ExtendsTo.trans Graph.carries_countRun
      report.walkStarts g

namespace Graph

variable {g h : Graph}

theorem Carries.simulation (carries : g.Carries Node.ExtendsTo h) : g.Simulation h Node.ExtendsTo where
  takes extended _ _ takes := extended.covers.takes _ _ takes
  ends extended ends := extended.covers.ends ends
  links extended target linked next found :=
    ⟨target, extended.covers.links linked, carries target next found⟩

theorem Carries.isValid (carries : g.Carries Node.ExtendsTo h) (wf : g.WellFormed) (wfh : h.WellFormed)
    {word : String} (valid : g.prepare.isValid word = .ok true) : h.prepare.isValid word = .ok true := by
  obtain ⟨n, listed, begins, accepted⟩ := (wf.prepare.isValid_iff_accepts rfl word).mp valid
  obtain ⟨id, found⟩ := g.mem_nodeList_iff.mp listed
  obtain ⟨m, kept, extended⟩ := carries id n found
  have carried : g.prepare.Carries Node.ExtendsTo h.prepare := carries
  exact (wfh.prepare.isValid_iff_accepts rfl word).mpr
    ⟨m, h.mem_nodeList_iff.mpr ⟨id, kept⟩, extended.begins begins, carried.simulation.accepts accepted extended⟩

/-- Each of the operations extends the language that the ones before it left. -/
def ExtendedBy (g : Graph) : List Operation → Prop
  | [] => True
  | operation :: rest => operation.Extends g ∧ (operation.apply g).ExtendedBy rest

instance ExtendedBy.decidable (g : Graph) : (operations : List Operation) →
    Decidable (g.ExtendedBy operations)
  | [] => .isTrue trivial
  | operation :: rest =>
    have := ExtendedBy.decidable (operation.apply g) rest
    inferInstanceAs (Decidable (_ ∧ _))

theorem ExtendedBy.carries (wf : g.WellFormed) {operations : List Operation}
    (extended : g.ExtendedBy operations) :
    (operations.foldl Operation.apply g).WellFormed ∧
      g.Carries Node.ExtendsTo (operations.foldl Operation.apply g) := by
  induction operations generalizing g with
  | nil => exact ⟨wf, carries_refl Node.ExtendsTo.refl g⟩
  | cons operation rest ih =>
    obtain ⟨first, later⟩ := extended
    obtain ⟨wfh, kept⟩ := ih (wf.apply operation) later
    exact ⟨wfh, (first.carries wf).trans Node.ExtendsTo.trans kept⟩

/-- Whatever was done to a graph before: as long as a language is only extended, no word that was valid
stops being so. -/
theorem extension_keeps_words (arises : g.Arises) {word : String}
    (valid : g.prepare.isValid word = .ok true) :
    (∀ operation : Operation, operation.Extends g →
      (operation.apply g).prepare.isValid word = .ok true) ∧
      ∀ operations, g.ExtendedBy operations →
        (operations.foldl Operation.apply g).prepare.isValid word = .ok true := by
  have wf := arises.wellFormed
  constructor
  · intro operation extension
    exact (extension.carries wf).isValid wf (wf.apply operation) valid
  · intro operations extended
    obtain ⟨wfh, kept⟩ := extended.carries wf
    exact kept.isValid wf wfh valid

/-- One more syllable, words that may end on the second node, a link to a node that comes in with it, and
a third start node. -/
def widening : List Operation :=
  [.addFragment ⟨0⟩ "sa" 2, .setProperties ⟨1⟩ true true, .addLink ⟨1⟩ ⟨9⟩ 4, .prepare,
    .applyRow "S ; _ ; N2"]

theorem extension_keeps_words_kan :
    (ofTable Demo.sampleTable).prepare.isValid "kan" = .ok true ∧
      Operation.Extends (ofTable Demo.sampleTable) (.createNode ["po", "pa"]) ∧
      (Operation.apply (ofTable Demo.sampleTable) (.createNode ["po", "pa"])).prepare.isValid "kan" =
        .ok true ∧
      (ofTable Demo.sampleTable).ExtendedBy widening ∧
      (widening.foldl Operation.apply (ofTable Demo.sampleTable)).prepare.isValid "kan" = .ok true := by
  have valid : (ofTable Demo.sampleTable).prepare.isValid "kan" = .ok true := Demo.valid_kan
  have created : Operation.Extends (ofTable Demo.sampleTable) (.createNode ["po", "pa"]) := by
    decide +kernel
  have extended : (ofTable Demo.sampleTable).ExtendedBy widening := by decide +kernel
  obtain ⟨step, run⟩ := extension_keeps_words (.table Demo.sampleTable) valid
  exact ⟨valid, created, step _ created, extended, run _ extended⟩

end Graph

end PseudoWord
