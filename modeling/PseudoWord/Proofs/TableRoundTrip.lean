import PseudoWord.Demo
import PseudoWord.Proofs.ImportedTable
import PseudoWord.Proofs.Reachable
import PseudoWord.Proofs.WrittenFiles

namespace PseudoWord

theorem keepsLine_joinFields {head : List Char} {fragments links : List (List Char)}
    (first : Printed head) (second : ∀ item ∈ fragments, Printed item)
    (third : ∀ item ∈ links, Printed item) :
    KeepsLine (joinFields head (joinItems fragments) (joinItems links)) := by
  constructor
  · intro member
    exact absurd (eq_space_of_mem_row first second third member (by decide)) (by decide)
  · intro last
    have member := List.mem_of_getLast? last
    exact absurd (eq_space_of_mem_row first second third member (by decide)) (by decide)

namespace Graph

/-- The lines of a table keep through a file. -/
theorem WellFormed.keepsLine {g : Graph} (wf : g.WellFormed) :
    ∀ line ∈ g.table, KeepsLine line.toList := by
  intro line member
  obtain ⟨text, listed, rfl⟩ := List.mem_map.mp member
  rw [String.toList_ofList]
  rcases List.mem_cons.mp listed with rfl | row
  · exact keepsLine_joinFields printed_startHead printed_startMark (printed_startLinks g)
  · obtain ⟨n, inList, rfl⟩ := List.mem_map.mp row
    have sound := (wf.nodes n.id n (wf.node?_self inList)).sound
    exact keepsLine_joinFields n.id.printed_text sound.printed_fragmentTexts n.printed_linkTexts

theorem initializers_prepare (g : Graph) : g.prepare.initializers = .ok g.prepare.initializingIds := rfl

theorem initializers_ofTable (lines : List String) :
    (ofTable lines).initializers = .ok (ofTable lines).initializingIds := initializers_prepare _

theorem same_setName (g h : Graph) (name : String) : (g.setName name).Same h ↔ g.Same h := Iff.rfl

theorem WellFormed.load_save {g : Graph} (wf : g.WellFormed) {t after : FileTree} {p : Path} {time : Nat}
    (saved : g.save t p time = .ok after) : (load after p).Same g := by
  have lines := FileTree.readLines_of_writeLines saved
  rw [load, lines, (splitLines_joinLines_eq_iff _).mpr wf.keepsLine, same_setName]
  exact wf.same_ofTable_table

/-- A table says all about a graph: read back, directly or from the file in which it was saved, it
gives the same graph, which is written as the same table again and has the same start nodes. -/
theorem table_round_trip {g : Graph} (reach : Reachable g) :
    (ofTable g.table).Same g ∧ (ofTable g.table).table = g.table ∧
      (ofTable g.table).initializers = g.prepare.initializers ∧
      (∀ (t : FileTree) (p : Path) (time : Nat),
        (t.CanWrite p ↔ ∃ after, g.save t p time = .ok after) ∧
          ∀ after, g.save t p time = .ok after → (load after p).Same g) ∧
      ∀ rows : List String, (ofTable (ofTable rows).table).table = (ofTable rows).table := by
  have wf := reach.wellFormed
  have same := wf.same_ofTable_table
  refine ⟨same, same.table_eq, ?_, fun t p time => ⟨?_, fun after saved => wf.load_save saved⟩,
    fun rows => (WellFormed.ofTable rows).same_ofTable_table.table_eq⟩
  · rw [initializers_ofTable, same.initializingIds_eq]
    rfl
  · exact t.canWrite_iff p g.table time

theorem table_round_trip_sample :
    ∃ after, (ofTable Demo.sampleTable).save .empty (.ofString "syllables.csv") 0 = .ok after ∧
      (load after (.ofString "syllables.csv")).Same (ofTable Demo.sampleTable) := by
  obtain ⟨_, _, _, saved, _⟩ := table_round_trip (.table Demo.sampleTable)
  obtain ⟨writes, loads⟩ := saved .empty (.ofString "syllables.csv") 0
  have free : FileTree.empty.CanWrite (.ofString "syllables.csv") :=
    ⟨["syllables.csv".toList], .vacant ["syllables.csv".toList] false, rfl, rfl⟩
  obtain ⟨after, written⟩ := writes.mp free
  exact ⟨after, written, loads after written⟩

end Graph

end PseudoWord
