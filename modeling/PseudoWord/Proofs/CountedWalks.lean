import Mathlib.Algebra.Ring.Nat
import PseudoWord.Proofs.ReportWords
import PseudoWord.Proofs.SameGraph

namespace PseudoWord

namespace KeyMap

variable {α : Type}

/-- A new value under a key that has one already leaves the other entries where they are. -/
theorem place_of_split {key : UInt64} {old : α} (value : α) {earlier later : List (UInt64 × α)}
    (sorted : (earlier ++ (key, old) :: later).Pairwise (fun a b => a.1 < b.1)) :
    place key value (earlier ++ (key, old) :: later) = earlier ++ (key, value) :: later := by
  induction earlier with
  | nil =>
    have level := UInt64.lt_irrefl key
    rw [List.nil_append, place, if_neg level, if_neg level]
    rfl
  | cons head rest ih =>
    rw [List.cons_append, List.pairwise_cons] at sorted
    have below : head.1 < key :=
      sorted.1 (key, old) (List.mem_append_right rest List.mem_cons_self)
    rw [List.cons_append, place, if_neg (UInt64.not_lt.mpr (UInt64.le_of_lt below)), if_pos below,
      ih sorted.2]
    rfl

theorem sum_values_adjust (m : KeyMap α) (measure : α → Nat) {key : UInt64} {value : α}
    (found : m.get? key = some value) {f : α → α} {more : Nat}
    (grows : measure (f value) = measure value + more) :
    ((m.adjust key f).values.map measure).sum = (m.values.map measure).sum + more := by
  obtain ⟨earlier, later, split⟩ := List.append_of_mem ((get?_eq_some_iff m).mp found)
  have replaced : (m.adjust key f).entries = earlier ++ (key, f value) :: later := by
    rw [adjust, found]
    change place key (f value) m.entries = _
    rw [split]
    exact place_of_split (f value) (split ▸ m.sorted)
  rw [values, values, replaced, split]
  simp only [List.map_append, List.map_cons, List.sum_append, List.sum_cons, grows]
  omega

end KeyMap

namespace Graph

/-- How many walks were counted on all nodes together. -/
def totalRuns (g : Graph) : Nat := (g.nodeList.map (·.runs)).sum

section Counting

variable {g : Graph}

/-- A node counts the walks that start on it, and no others. -/
theorem node?_foldl_countRun (ids : List NodeId) (id : NodeId) :
    (ids.foldl countRun g).node? id =
      (g.node? id).map (fun n => { n with runs := n.runs + ids.count id }) := by
  induction ids generalizing g with
  | nil => exact Option.map_id'.symm
  | cons first rest ih =>
    rw [List.foldl_cons, ih, node?_countRun, Option.map_map]
    congr 1
    funext n
    rw [Function.comp_apply]
    split
    · rename_i same
      rw [same, List.count_cons_self, Nat.add_assoc, Nat.add_comm 1]
    · rename_i different
      rw [List.count_cons_of_ne (Ne.symm different)]

theorem totalRuns_foldl_countRun {ids : List NodeId} (known : ∀ id ∈ ids, ∃ n, g.node? id = some n) :
    (ids.foldl countRun g).totalRuns = g.totalRuns + ids.length := by
  induction ids generalizing g with
  | nil => rfl
  | cons first rest ih =>
    obtain ⟨n, atFirst⟩ := known first List.mem_cons_self
    have one : (g.countRun first).totalRuns = g.totalRuns + 1 :=
      g.nodes.sum_values_adjust Node.runs atFirst rfl
    have later : ∀ id ∈ rest, ∃ n, (g.countRun first).node? id = some n := by
      intro id member
      obtain ⟨m, atId⟩ := known id (List.mem_cons_of_mem first member)
      rw [node?_countRun, atId]
      exact ⟨_, rfl⟩
    rw [List.foldl_cons, ih later, one, List.length_cons, Nat.add_assoc, Nat.add_comm 1]

end Counting

section Reports

variable {σ : Type} [Source σ] {g : Graph} {r : Request} {starts : List NodeId} {report : Report}

theorem Walked.walkStarts (walked : g.Walked σ r starts report.attempts) {id : NodeId}
    (member : id ∈ report.walkStarts) : id ∈ starts ∧ ∃ n, g.node? id = some n := by
  obtain ⟨attempt, listed, started⟩ := List.mem_filterMap.mp member
  cases attempt with
  | idle => cases started
  | walked start walk =>
    cases started
    obtain ⟨initial, n, found, _⟩ := walked id walk listed
    exact ⟨initial, n, found⟩

/-- Every attempt that was not idle is counted once. -/
theorem Walked.totalRuns_countRuns (walked : g.Walked σ r starts report.attempts)
    (picked : Attempt.idle ∉ report.attempts) :
    (g.countRuns report).totalRuns = g.totalRuns + report.attempts.length := by
  have all : report.walkStarts.length = report.attempts.length := by
    refine List.filterMap_length_eq_length.mpr fun attempt member => ?_
    cases attempt with
    | idle => exact absurd member picked
    | walked start walk => rfl
  rw [countRuns, totalRuns_foldl_countRun fun id member => (walked.walkStarts member).2, all]

theorem Walked.node?_countRuns (walked : g.Walked σ r starts report.attempts) {id : NodeId}
    (other : id ∉ starts) : (g.countRuns report).node? id = g.node? id := by
  have uncounted : report.walkStarts.count id = 0 :=
    List.count_eq_zero.mpr fun member => other (walked.walkStarts member).1
  rw [countRuns, node?_foldl_countRun, uncounted]
  exact Option.map_id'

end Reports

end Graph

end PseudoWord
