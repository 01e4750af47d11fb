import Mathlib.Data.List.Induction
import PseudoWord.Proofs.RowEffect
import PseudoWord.Proofs.RowForms
import PseudoWord.Proofs.SameGraph

namespace PseudoWord

/-- The head of a line that is a row. -/
def rowHead? (line : String) : Option RowHead :=
  match Row.parse line.toList with
  | .ok row => some row.head
  | .error _ => none

theorem rowHead?_eq_some_iff {line : String} {head : RowHead} :
    rowHead? line = some head ↔ ∃ first second, RowForm line.toList head first second := by
  rw [rowHead?]
  constructor
  · intro read
    split at read
    · rename_i row parsed
      cases read
      obtain ⟨first, second, form, _⟩ := Row.parse_eq_ok_iff.mp parsed
      exact ⟨first, second, form⟩
    · cases read
  · rintro ⟨first, second, form⟩
    obtain ⟨row, parsed, rfl, _⟩ := form.exists_row
    rw [parsed]

/-- The rows among the lines of a table. -/
def rowsOf (lines : List String) : List Row :=
  lines.filterMap (fun line => (Row.parse line.toList).toOption)

namespace Row

/-- Whether a row lists a node among the start nodes. -/
def marks (id : NodeId) (row : Row) : Bool := decide (row.head = .starts ∧ id ∈ row.named)

/-- A row extends a node whether or not it is a start node. -/
theorem alter_initializing {row : Row} {id : NodeId} (own : row.head = .node id) (n : Node)
    (flag : Bool) : row.alter id { n with initializing := flag } =
      { row.alter id n with initializing := flag } := by
  rw [alter_of_own own, alter_of_own own, Node.extend_eq, Node.extend_eq]

end Row

/-- The rows of one node, in their order. -/
theorem filter_rowsOf (lines : List String) (id : NodeId) :
    (rowsOf lines).filter (fun row => decide (row.head = .node id)) =
      rowsOf (lines.filter (fun line => decide (rowHead? line = some (.node id)))) := by
  rw [rowsOf, rowsOf, List.filter_filterMap, List.filterMap_filter]
  congr 1
  funext line
  rw [rowHead?]
  cases Row.parse line.toList with
  | ok row => simp [Except.toOption, Option.filter]
  | error fault => rfl

namespace Graph

variable (g : Graph)

/-- The graph after some rows, one after the other. -/
def addRows (rows : List Row) : Graph := rows.foldl addRow g

theorem addRows_append_singleton (rows : List Row) (row : Row) :
    g.addRows (rows ++ [row]) = (g.addRows rows).addRow row := by
  rw [addRows, List.foldl_append]
  rfl

theorem ofTable_eq (lines : List String) : ofTable lines = (empty.addRows (rowsOf lines)).prepare := by
  rw [ofTable, addRows, rowsOf, List.foldl_filterMap]
  congr 2
  funext g line
  rw [applyRow]
  cases Row.parse line.toList with
  | ok row => rfl
  | error fault => rfl

theorem name_addRows (rows : List Row) : (g.addRows rows).name = g.name :=
  List.foldlRecOn (motive := fun h : Graph => h.name = g.name) rows addRow rfl fun h same row _ =>
    (h.name_addRow row).trans same

/-- Of all rows, a node is changed by its own ones, one after the other, and flagged by those that list it
among the start nodes. -/
theorem nodeOrNew_addRows (rows : List Row) (id : NodeId) :
    (g.addRows rows).nodeOrNew id =
      { (rows.filter (fun row => decide (row.head = .node id))).foldl (fun n row => row.alter id n)
          (g.nodeOrNew id) with
        initializing := (g.nodeOrNew id).initializing || rows.any (Row.marks id) } := by
  induction rows using List.reverseRecOn with
  | nil => simp [addRows]
  | append_singleton rows row ih =>
    rw [addRows_append_singleton, nodeOrNew_addRow, ih, List.filter_append, List.foldl_append,
      List.any_append, List.any_cons, List.any_nil, Bool.or_false, ← Bool.or_assoc]
    cases head : row.head with
    | starts =>
      by_cases inLast : id ∈ row.named
      · simp [head, Row.alter_of_starts head, Row.marks, inLast]
      · simp [head, Row.marks, inLast]
    | node own =>
      have unmarked : row.marks id = false := by simp [Row.marks, head]
      rw [unmarked, Bool.or_false]
      by_cases same : own = id
      · subst same
        have kept : [row].filter (fun row => decide (row.head = .node own)) = [row] :=
          List.filter_cons_of_pos (decide_eq_true head)
        rw [if_pos (Row.mem_named_own head), kept, List.foldl_cons, List.foldl_nil,
          Row.alter_initializing head]
      · have left : [row].filter (fun row => decide (row.head = .node id)) = [] :=
          List.filter_cons_of_neg (by simp [head, same])
        rw [left, List.foldl_nil, Row.alter_of_other head (Ne.symm same), ite_self]

/-- A node is there once a row names it. -/
theorem node?_addRows (rows : List Row) (id : NodeId) :
    (g.addRows rows).node? id =
      if ∃ row ∈ rows, id ∈ row.named then some ((g.addRows rows).nodeOrNew id) else g.node? id := by
  induction rows using List.reverseRecOn with
  | nil => simp [addRows]
  | append_singleton rows row ih =>
    rw [addRows_append_singleton, node?_addRow, nodeOrNew_addRow]
    by_cases inLast : id ∈ row.named
    · have somewhere : ∃ other ∈ rows ++ [row], id ∈ other.named := ⟨row, by simp, inLast⟩
      rw [if_pos inLast, if_pos inLast, if_pos somewhere]
    · simp only [if_neg inLast, ih, List.mem_append, List.mem_singleton]
      congr 1
      simp [or_and_right, exists_or, inLast]

section Reordered

variable {a b : List String}

/-- Rows may change places as long as those of one node keep their order. -/
theorem node?_addRows_reordered (shuffled : a.Perm b)
    (kept : ∀ id, a.filter (fun line => decide (rowHead? line = some (.node id))) =
      b.filter (fun line => decide (rowHead? line = some (.node id)))) (id : NodeId) :
    (g.addRows (rowsOf a)).node? id = (g.addRows (rowsOf b)).node? id := by
  have rows : (rowsOf a).Perm (rowsOf b) := shuffled.filterMap _
  rw [node?_addRows, node?_addRows, nodeOrNew_addRows, nodeOrNew_addRows, filter_rowsOf,
    filter_rowsOf, kept id, rows.any_eq]
  simp only [rows.mem_iff]

/-- The order of the rows of different nodes does not matter, nor that of rows of start nodes and of lines
that are skipped. The graphs are equal in every respect, so also in their flags, their start nodes and
their tables. -/
theorem ofTable_reordered (shuffled : a.Perm b)
    (kept : ∀ id, a.filter (fun line => decide (rowHead? line = some (.node id))) =
      b.filter (fun line => decide (rowHead? line = some (.node id)))) :
    ofTable a = ofTable b := by
  have nodes (id : NodeId) := node?_addRows_reordered empty shuffled kept id
  have map : (empty.addRows (rowsOf a)).nodes = (empty.addRows (rowsOf b)).nodes :=
    KeyMap.ext_get? fun key => nodes ⟨key⟩
  rw [ofTable_eq, ofTable_eq]
  refine ext_node? ?_ (congrArg some ?_) nodes
  · exact (name_addRows empty _).trans (name_addRows empty _).symm
  · rw [initializingIds, initializingIds, nodeList, nodeList, map]

end Reordered

/-- A node of two rows, a row of start nodes and a line that is no row. -/
def scatteredTable : List String :=
  ["S ; _ ; N2", "N0 ; ka | ri(2) ; N1(3)", "N ; ; ", "N1 ; mo ; N0", "N0 ; ta ; N2 | O"]

/-- The same lines. The rows of each node stand in the same order. -/
def gatheredTable : List String :=
  ["N1 ; mo ; N0", "N0 ; ka | ri(2) ; N1(3)", "N0 ; ta ; N2 | O", "N ; ; ", "S ; _ ; N2"]

theorem ofTable_reordered_scattered : scatteredTable.Perm gatheredTable ∧
    (∀ id, scatteredTable.filter (fun line => decide (rowHead? line = some (.node id))) =
      gatheredTable.filter (fun line => decide (rowHead? line = some (.node id)))) ∧
    ofTable scatteredTable = ofTable gatheredTable := by
  have shuffled : scatteredTable.Perm gatheredTable := by decide +kernel
  have heads : ∀ line ∈ scatteredTable,
      rowHead? line ∈ [none, some .starts, some (.node ⟨0⟩), some (.node ⟨1⟩)] := by decide +kernel
  have kept (id : NodeId) :
      scatteredTable.filter (fun line => decide (rowHead? line = some (.node id))) =
        gatheredTable.filter (fun line => decide (rowHead? line = some (.node id))) := by
    by_cases zero : id = ⟨0⟩
    · subst zero
      decide +kernel
    · by_cases one : id = ⟨1⟩
      · subst one
        decide +kernel
      · have nothing :
            scatteredTable.filter (fun line => decide (rowHead? line = some (.node id))) = [] := by
          refine List.filter_eq_nil_iff.mpr fun line member own => ?_
          have head := heads line member
          rw [of_decide_eq_true own] at head
          simp [zero, one] at head
        have others := shuffled.filter (fun line => decide (rowHead? line = some (.node id)))
        rw [nothing] at others
        rw [nothing, others.nil_eq]
  exact ⟨shuffled, kept, ofTable_reordered shuffled kept⟩

end Graph

end PseudoWord
