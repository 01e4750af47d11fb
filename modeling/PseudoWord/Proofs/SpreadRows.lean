import PseudoWord.Proofs.PrintedRows
import PseudoWord.Proofs.RowEffect
import PseudoWord.Proofs.SameGraph

namespace PseudoWord

/-- The row of a node, with its two other fields as they are given. -/
def rowLine (id : NodeId) (fragments links : List Char) : String :=
  String.ofList (joinFields id.text fragments links)

theorem Row.parse_rowLine (id : NodeId) {fragments links : List Char} (inFragments : ';' ∉ fragments)
    (inLinks : ';' ∉ links) :
    parse (rowLine id fragments links).toList =
      .ok ⟨.node id, fieldItems fragments, fieldItems links⟩ := by
  rw [rowLine, String.toList_ofList, parse_joinFields id.headForm_text inFragments inLinks]

/-- The row that says what two rows say. -/
theorem Row.parse_rowLine_joined (id : NodeId) {fragments links moreFragments moreLinks : List Char}
    (inFragments : ';' ∉ fragments) (inLinks : ';' ∉ links) (inMoreFragments : ';' ∉ moreFragments)
    (inMoreLinks : ';' ∉ moreLinks) :
    parse (rowLine id (joinItems [fragments, moreFragments]) (joinItems [links, moreLinks])).toList =
      .ok ⟨.node id, fieldItems fragments ++ fieldItems moreFragments,
        fieldItems links ++ fieldItems moreLinks⟩ := by
  have plain {first second : List Char} (inFirst : ';' ∉ first) (inSecond : ';' ∉ second) :
      ';' ∉ joinItems [first, second] :=
    semicolon_not_mem_joinItems (by simp [inFirst, inSecond])
  rw [parse_rowLine id (plain inFragments inMoreFragments) (plain inLinks inMoreLinks)]
  simp only [fieldItems_joinItems, List.flatMap_cons, List.flatMap_nil, List.append_nil]

theorem WeightedSet.insertAll_append {α : Type} (s : WeightedSet α) (first second : List (α × Int64)) :
    s.insertAll (first ++ second) = (s.insertAll first).insertAll second := List.foldl_append

/-- To be extended twice is to be extended once, but for the flag: it stays set if there were no links in
between. -/
theorem Node.extend_extend (n : Node) (someFragments moreFragments : List FragmentItem)
    (someLinks moreLinks : List (NodeId × Int64)) (ends endsLater : Bool) :
    (n.extend someFragments someLinks ends).extend moreFragments moreLinks endsLater =
      { n.extend (someFragments ++ moreFragments) (someLinks ++ moreLinks) (ends || endsLater) with
        terminating :=
          (n.extend (someFragments ++ moreFragments) (someLinks ++ moreLinks) (ends || endsLater)).terminating ||
            (n.extend someFragments someLinks ends).links.isEmpty } := by
  simp only [extend_eq, List.map_append, wordItems, List.filter_append, WeightedSet.insertAll_append]
  congr 1
  ac_rfl

namespace Graph

variable (g : Graph)

/-- Two graphs that differ in one node are the same if this node is. -/
theorem same_put_iff {g : Graph} {id : NodeId} {m : Node} (found : g.node? id = some m) (n : Node) :
    (g.put id n).Same g ↔ n.identity = m.identity := by
  rw [same_iff]
  constructor
  · intro same
    have atId := same id
    rw [node?_put, if_pos rfl, found] at atId
    exact Option.some.inj atId
  · intro same other
    rw [node?_put]
    split
    · rename_i atId
      rw [atId, found]
      exact congrArg some same
    · rfl

/-- Two rows of one node after another, and the row that says what both say. -/
theorem addRow_addRow {first second whole : Row} {id : NodeId} (firstHead : first.head = .node id)
    (secondHead : second.head = .node id) (wholeHead : whole.head = .node id)
    (fragments : whole.fragments = first.fragments ++ second.fragments)
    (links : whole.links = first.links ++ second.links) :
    (g.addRow first).addRow second = (g.addRow whole).put id
      { (g.addRow whole).nodeOrNew id with
        terminating := ((g.addRow whole).nodeOrNew id).terminating ||
          ((g.addRow first).nodeOrNew id).links.isEmpty } := by
  have own {row : Row} (head : row.head = .node id) (h : Graph) :
      (h.addRow row).nodeOrNew id = (h.nodeOrNew id).extend row.fragments
        (row.links.filterMap LinkItem.followed?) (row.links.contains .terminal) := by
    rw [nodeOrNew_addRow, if_pos (Row.mem_named_own head), Row.alter_of_own head]
  refine ext_node? ?_ ?_ fun other => ?_
  · have spread := ((g.addRow first).name_addRow second).trans (g.name_addRow first)
    exact spread.trans (g.name_addRow whole).symm
  · rw [starts_addRow, if_neg (List.ne_nil_of_mem (Row.mem_named_own secondHead))]
    rfl
  · rw [node?_addRow, node?_put]
    by_cases same : other = id
    · subst same
      have terminal : whole.links.contains .terminal =
          (first.links.contains .terminal || second.links.contains .terminal) := by
        rw [links, List.contains_append]
      rw [if_pos (Row.mem_named_own secondHead), Row.alter_of_own secondHead, own firstHead,
        own wholeHead, fragments, terminal, links, List.filterMap_append, Node.extend_extend, if_pos rfl]
    · have named : other ∈ whole.named ↔ other ∈ second.named ∨ other ∈ first.named := by
        rw [Row.named_of_node firstHead, Row.named_of_node secondHead, Row.named_of_node wholeHead,
          links, List.filterMap_append, List.map_append]
        simp only [List.mem_cons, same, false_or, List.mem_append, or_comm]
      rw [if_neg same, node?_addRow, node?_addRow, nodeOrNew_addRow, Row.alter_of_other secondHead same,
        Row.alter_of_other firstHead same, Row.alter_of_other wholeHead same, ite_self]
      by_cases inSecond : other ∈ second.named
      · rw [if_pos inSecond, if_pos (named.mpr (.inl inSecond))]
      · simp only [named, inSecond, if_false, false_or]

/-- The graphs are the same unless the flag shows. -/
theorem same_addRow_addRow {first second whole : Row} {id : NodeId} (firstHead : first.head = .node id)
    (secondHead : second.head = .node id) (wholeHead : whole.head = .node id)
    (fragments : whole.fragments = first.fragments ++ second.fragments)
    (links : whole.links = first.links ++ second.links) :
    ((g.addRow first).addRow second).Same (g.addRow whole) ↔
      (((g.addRow first).nodeOrNew id).links.isEmpty = true →
        ((g.addRow whole).nodeOrNew id).isTerminating = true) := by
  rw [g.addRow_addRow firstHead secondHead wholeHead fragments links,
    same_put_iff (g.node?_addRow_own whole wholeHead)]
  generalize (g.addRow whole).nodeOrNew id = n
  generalize ((g.addRow first).nodeOrNew id).links.isEmpty = linkless
  simp only [Node.identity, Node.Identity.mk.injEq, true_and, and_true, Node.isTerminating]
  cases n.terminating <;> cases n.links.isEmpty <;> simp

/-- A node may be spread over two rows. What comes of it is what comes of one row with all items, but for
the flag of the node: the first row sets it when the node has no links yet. So the two graphs are the same
unless this happens and the one row leaves a node on which no word may end. -/
theorem spread_rows (g : Graph) (id : NodeId) {fragments links moreFragments moreLinks : List Char}
    (inFragments : ';' ∉ fragments) (inLinks : ';' ∉ links) (inMoreFragments : ';' ∉ moreFragments)
    (inMoreLinks : ';' ∉ moreLinks) :
    ∃ once twice whole : Graph,
      g.applyRow (rowLine id fragments links) = ⟨true, once⟩ ∧
      once.applyRow (rowLine id moreFragments moreLinks) = ⟨true, twice⟩ ∧
      g.applyRow (rowLine id (joinItems [fragments, moreFragments]) (joinItems [links, moreLinks])) =
        ⟨true, whole⟩ ∧
      twice = whole.put id
        { whole.nodeOrNew id with
          terminating := (whole.nodeOrNew id).terminating || (once.nodeOrNew id).links.isEmpty } ∧
      (twice.Same whole ↔
        ((once.nodeOrNew id).links.isEmpty = true → (whole.nodeOrNew id).isTerminating = true)) := by
  have first := Row.parse_rowLine id inFragments inLinks
  have second := Row.parse_rowLine id inMoreFragments inMoreLinks
  have whole := Row.parse_rowLine_joined id inFragments inLinks inMoreFragments inMoreLinks
  exact ⟨_, _, _, g.applyRow_of_ok first, applyRow_of_ok _ second, g.applyRow_of_ok whole,
    g.addRow_addRow rfl rfl rfl List.filterMap_append List.filterMap_append,
    g.same_addRow_addRow rfl rfl rfl List.filterMap_append List.filterMap_append⟩

/-- A first row with a link that can be followed sets no flag. -/
theorem spread_rows_linked : ';' ∉ ['k', 'a'] ∧ ';' ∉ ['N', '1'] ∧ ';' ∉ ['r', 'i'] ∧ ';' ∉ ['N', '0'] ∧
    ((empty.applyRow (rowLine ⟨0⟩ ['k', 'a'] ['N', '1'])).graph.applyRow
      (rowLine ⟨0⟩ ['r', 'i'] ['N', '0'])).graph.Same
      (empty.applyRow (rowLine ⟨0⟩ (joinItems [['k', 'a'], ['r', 'i']])
        (joinItems [['N', '1'], ['N', '0']]))).graph := by
  have first : ';' ∉ ['k', 'a'] := by decide
  have second : ';' ∉ ['N', '1'] := by decide
  have third : ';' ∉ ['r', 'i'] := by decide
  have fourth : ';' ∉ ['N', '0'] := by decide
  obtain ⟨once, twice, whole, atOnce, atTwice, atWhole, _, same⟩ :=
    spread_rows empty ⟨0⟩ first second third fourth
  have linked :
      ((empty.applyRow (rowLine ⟨0⟩ ['k', 'a'] ['N', '1'])).graph.nodeOrNew ⟨0⟩).links.isEmpty = false := by
    decide +kernel
  rw [atOnce] at linked
  refine ⟨first, second, third, fourth, ?_⟩
  rw [atOnce, atWhole, atTwice]
  exact same.mpr fun linkless => absurd (linkless.symm.trans linked) (by decide)

/-- A first row without links sets the flag, and it stays when the second row brings a link. -/
theorem spread_rows_linkless : ';' ∉ ['k', 'a'] ∧ ';' ∉ ([] : List Char) ∧ ';' ∉ ['r', 'i'] ∧
    ';' ∉ ['N', '0'] ∧
    ¬ ((empty.applyRow (rowLine ⟨0⟩ ['k', 'a'] [])).graph.applyRow
        (rowLine ⟨0⟩ ['r', 'i'] ['N', '0'])).graph.Same
      (empty.applyRow (rowLine ⟨0⟩ (joinItems [['k', 'a'], ['r', 'i']])
        (joinItems [[], ['N', '0']]))).graph := by
  refine ⟨by decide, by decide, by decide, by decide, by decide +kernel⟩

end Graph

end PseudoWord
