import PseudoWord.Proofs.AdmittedWeights
import PseudoWord.Proofs.RowEffect
import PseudoWord.Proofs.RowForms

namespace PseudoWord

/-- A set `t` that comes from a set `s` when items are offered to it: what is admitted of them stands
under its running totals, and at the end if the totals of `s` are its running totals. -/
structure WeightedSet.Appends {α : Type} (s t : WeightedSet α) (offered : List (α × Int64)) : Prop where
  total : t.total.toNat = s.total.toNat + weightSum (admitted s.total.toNat offered)
  lookup : ∀ key, t.get? key =
    ((tally s.total.toNat (admitted s.total.toNat offered)).lookup key.toNat).or (s.get? key)
  weighted : s.Sound → t.weighted = s.weighted ++ admitted s.total.toNat offered

theorem WeightedSet.appends_insertAll {α : Type} (s : WeightedSet α) (offered : List (α × Int64)) :
    s.Appends (s.insertAll offered) offered :=
  ⟨s.total_insertAll offered, s.get?_insertAll offered, fun sound => sound.weighted_insertAll offered⟩

/-- A node `m` that comes from a node `n` when the row of the node says this. Links are offered if they
can be followed, so none of weight 0. -/
structure Node.Extends (n m : Node) (said : List FragmentItem) (leads : List LinkItem) : Prop where
  id : m.id = n.id
  initializing : m.initializing = n.initializing
  runs : m.runs = n.runs
  fragments : n.fragments.Appends m.fragments (said.map (fun item => (item.text, item.weight)))
  links : n.links.Appends m.links (leads.filterMap LinkItem.followed?)
  terminating : m.terminating = true ↔
    LinkItem.terminal ∈ leads ∨ n.terminating = true ∨ m.links.isEmpty = true

namespace Graph

/-- What a row of start nodes makes of a graph: the nodes that it links to, whatever the weight, are
flagged, and created where they are missing. -/
structure Marks (g h : Graph) (links : List LinkItem) : Prop where
  name : h.name = g.name
  marked : ∀ id weight, .link id weight ∈ links →
    h.node? id = some { g.nodeOrNew id with initializing := true }
  others : ∀ id, (∀ weight, .link id weight ∉ links) → h.node? id = g.node? id
  forgotten : ∀ id weight, .link id weight ∈ links → h.starts = none
  untouched : (∀ id weight, .link id weight ∉ links) → h.starts = g.starts

/-- What the row of a node makes of a graph: the node is extended, the nodes that it now leads to come in
empty where they are missing, and the others stay as they are. -/
structure ExtendsAt (g h : Graph) (id : NodeId) (fragments : List FragmentItem)
    (links : List LinkItem) : Prop where
  name : h.name = g.name
  own : ∃ n, h.node? id = some n ∧ (g.nodeOrNew id).Extends n fragments links
  targets : ∀ target weight, target ≠ id → .link target weight ∈ links → 0 < weight →
    h.node? target = some (g.nodeOrNew target)
  others : ∀ other, other ≠ id → (∀ weight, 0 < weight → .link other weight ∉ links) →
    h.node? other = g.node? other
  forgotten : h.starts = none

/-- What a row makes of a graph, by what it says. -/
def Adds (g h : Graph) (head : RowHead) (fragments : List FragmentItem) (links : List LinkItem) :
    Prop :=
  match head with
  | .starts => g.Marks h links
  | .node id => g.ExtendsAt h id fragments links

end Graph

theorem LinkItem.mem_targets_iff {links : List LinkItem} {id : NodeId} :
    id ∈ links.filterMap target? ↔ ∃ weight, .link id weight ∈ links := by
  rw [List.mem_filterMap]
  constructor
  · rintro ⟨item, member, leads⟩
    cases item with
    | terminal => cases leads
    | link target weight =>
      cases leads
      exact ⟨weight, member⟩
  · rintro ⟨weight, member⟩
    exact ⟨_, member, rfl⟩

theorem LinkItem.mem_followed_iff {links : List LinkItem} {id : NodeId} {weight : Int64} :
    (id, weight) ∈ links.filterMap followed? ↔ .link id weight ∈ links ∧ 0 < weight := by
  rw [List.mem_filterMap]
  constructor
  · rintro ⟨item, member, leads⟩
    cases item with
    | terminal => cases leads
    | link target given =>
      rw [followed?] at leads
      split at leads
      · rename_i positive
        cases leads
        exact ⟨member, positive⟩
      · cases leads
  · rintro ⟨member, positive⟩
    exact ⟨_, member, if_pos positive⟩

/-- No fragment of a row is refused for its characters. -/
theorem Row.wordItems_fragments (row : Row) :
    Node.wordItems (row.fragments.map (fun item => (item.text, item.weight))) =
      row.fragments.map (fun item => (item.text, item.weight)) := by
  refine List.filter_eq_self.mpr fun item member => ?_
  obtain ⟨fragment, read, rfl⟩ := List.mem_map.mp member
  obtain ⟨_, _, parsed⟩ := List.mem_filterMap.mp read
  obtain ⟨filled, words, _⟩ := FragmentItem.parse?_eq_some_iff.mp parsed
  rw [String.toList_ofList]
  exact isWordText_iff.mpr ⟨filled, words⟩

namespace Graph

variable (g : Graph) {row : Row}

theorem marks_addRow (head : row.head = .starts) : g.Marks (g.addRow row) row.links := by
  have named (id : NodeId) : id ∈ row.named ↔ ∃ weight, .link id weight ∈ row.links := by
    rw [Row.named, head]
    exact LinkItem.mem_targets_iff
  refine ⟨g.name_addRow row, fun id weight member => ?_, fun id absent => ?_, fun id weight member => ?_,
    fun absent => ?_⟩
  · rw [node?_addRow, if_pos ((named id).mpr ⟨weight, member⟩), Row.alter_of_starts head]
  · rw [node?_addRow, if_neg fun inside => ?_]
    obtain ⟨weight, member⟩ := (named id).mp inside
    exact absent weight member
  · rw [starts_addRow, if_neg (List.ne_nil_of_mem ((named id).mpr ⟨weight, member⟩))]
  · rw [starts_addRow, if_pos]
    refine List.eq_nil_iff_forall_not_mem.mpr fun id inside => ?_
    obtain ⟨weight, member⟩ := (named id).mp inside
    exact absent id weight member

theorem extendsAt_addRow {id : NodeId} (head : row.head = .node id) :
    g.ExtendsAt (g.addRow row) id row.fragments row.links := by
  have named (other : NodeId) : other ∈ row.named ↔
      other = id ∨ ∃ weight, .link other weight ∈ row.links ∧ 0 < weight := by
    rw [Row.named_of_node head, List.mem_cons, List.mem_map]
    refine or_congr_right ⟨?_, ?_⟩
    · rintro ⟨⟨_, weight⟩, member, rfl⟩
      exact ⟨weight, LinkItem.mem_followed_iff.mp member⟩
    · rintro ⟨weight, member⟩
      exact ⟨(other, weight), LinkItem.mem_followed_iff.mpr member, rfl⟩
  refine ⟨g.name_addRow row, ?_, fun target weight different member positive => ?_,
    fun other different absent => ?_, ?_⟩
  · rw [node?_addRow, if_pos (Row.mem_named_own head), Row.alter_of_own head, Node.extend_eq,
      row.wordItems_fragments]
    refine ⟨_, rfl, rfl, rfl, rfl, WeightedSet.appends_insertAll _ _,
      WeightedSet.appends_insertAll _ _, ?_⟩
    simp only [Bool.or_eq_true, List.contains_iff_mem]
  · rw [node?_addRow, if_pos ((named target).mpr (.inr ⟨weight, member, positive⟩)),
      Row.alter_of_other head different]
  · rw [node?_addRow, if_neg fun inside => ?_]
    rcases (named other).mp inside with same | ⟨weight, member, positive⟩
    · exact different same
    · exact absent weight positive member
  · rw [starts_addRow, if_neg (List.ne_nil_of_mem (Row.mem_named_own head))]

theorem adds_addRow (row : Row) : g.Adds (g.addRow row) row.head row.fragments row.links := by
  cases head : row.head with
  | starts => exact g.marks_addRow head
  | node id => exact g.extendsAt_addRow head

theorem addRow_congr {one other : Row} (head : one.head = other.head)
    (fragments : one.fragments = other.fragments) (links : one.links = other.links) :
    g.addRow one = g.addRow other := by
  rw [addRow, addRow, head, fragments, links]

/-- The grammar of rows and their effect. A line is accepted when it is a row, and refused without a trace
when it is none. What a row adds hangs on its head and on the meanings of the items of its fields, so
neither blanks around separators nor malformed items make a difference. -/
theorem row_grammar (line : String) :
    ((g.applyRow line).accepted = true ↔ ∃ head first second, RowForm line.toList head first second) ∧
      ((g.applyRow line).accepted = false → (g.applyRow line).graph = g) ∧
      ∀ head first second, RowForm line.toList head first second →
        ∃ fragments links, FieldMeans FragmentForm first fragments ∧ FieldMeans LinkForm second links ∧
          g.Adds (g.applyRow line).graph head fragments links ∧
          ∀ (other : String) (third fourth : List Char), RowForm other.toList head third fourth →
            FieldMeans FragmentForm third fragments → FieldMeans LinkForm fourth links →
            g.applyRow other = g.applyRow line := by
  refine ⟨⟨fun accepted => ?_, ?_⟩, fun refused => ?_, fun head first second form => ?_⟩
  · cases parsed : Row.parse line.toList with
    | error fault =>
      rw [g.applyRow_of_error parsed] at accepted
      cases accepted
    | ok row =>
      obtain ⟨first, second, form, _⟩ := Row.parse_eq_ok_iff.mp parsed
      exact ⟨row.head, first, second, form⟩
  · rintro ⟨head, first, second, form⟩
    obtain ⟨row, parsed, _⟩ := form.exists_row
    rw [g.applyRow_of_ok parsed]
  · cases parsed : Row.parse line.toList with
    | error fault => rw [g.applyRow_of_error parsed]
    | ok row =>
      rw [g.applyRow_of_ok parsed] at refused
      cases refused
  · obtain ⟨row, parsed, rfl, fragments, links⟩ := form.exists_row
    refine ⟨row.fragments, row.links, (fragments _).mpr rfl, (links _).mpr rfl, ?_, ?_⟩
    · rw [g.applyRow_of_ok parsed]
      exact g.adds_addRow row
    · intro other third fourth otherForm sameFragments sameLinks
      obtain ⟨again, otherParsed, head, otherFragments, otherLinks⟩ := otherForm.exists_row
      rw [g.applyRow_of_ok parsed, g.applyRow_of_ok otherParsed, g.addRow_congr head
        ((otherFragments _).mp sameFragments) ((otherLinks _).mp sameLinks)]

def plainRow : String := "N7;la|li(2);N1(3)|N2(0)|O"

/-- The same row with blanks around its separators, zeros before its numbers and malformed items. -/
def spacedRow : String := "\t N07 ; la | l i || li(02) ; N1(3)\n| N2(0) | x | N(4) | O8 "

theorem row_grammar_spaced : (empty.applyRow spacedRow).accepted = true ∧
    empty.applyRow plainRow = empty.applyRow spacedRow := by
  obtain ⟨accepts, _, effect⟩ := row_grammar empty spacedRow
  have accepted : (empty.applyRow spacedRow).accepted = true := by decide +kernel
  obtain ⟨head, first, second, form⟩ := accepts.mp accepted
  obtain ⟨_, _, texts, targets, _, alike⟩ := effect head first second form
  obtain ⟨row, spaced, rfl, fragments, links⟩ := form.exists_row
  obtain ⟨_, third, fourth, plainForm⟩ := (row_grammar empty plainRow).1.mp (by decide +kernel)
  obtain ⟨other, plain, rfl, otherFragments, otherLinks⟩ := plainForm.exists_row
  have same : (Row.parse plainRow.toList).map (fun row => (row.head, row.fragments, row.links)) =
      (Row.parse spacedRow.toList).map (fun row => (row.head, row.fragments, row.links)) := by
    decide +kernel
  rw [spaced, plain] at same
  obtain ⟨heads, meanings⟩ := Prod.mk.inj (Except.ok.inj same)
  obtain ⟨sameFragments, sameLinks⟩ := Prod.mk.inj meanings
  refine ⟨accepted, alike plainRow third fourth (heads ▸ plainForm) ((otherFragments _).mpr ?_)
    ((otherLinks _).mpr ?_)⟩
  · exact sameFragments.trans ((fragments _).mp texts)
  · exact sameLinks.trans ((links _).mp targets)

end Graph

end PseudoWord
