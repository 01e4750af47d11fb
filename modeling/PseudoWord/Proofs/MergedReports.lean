import Mathlib.Data.List.Induction
import Mathlib.Data.List.Nodup
import PseudoWord.Parallel
import PseudoWord.Proofs.ReportWords

namespace PseudoWord

namespace DistinctWords

/-- The words that are looked up are those that were found. -/
def Agrees (found : DistinctWords) : Prop := ∀ word, word ∈ found.seen ↔ word ∈ found.toList

theorem agrees_empty : empty.Agrees := by
  intro word
  simp [empty, toList]

theorem Agrees.insert {found : DistinctWords} (agrees : found.Agrees) (word : String) :
    (found.insert word).Agrees := by
  rw [DistinctWords.insert]
  split
  · exact agrees
  · intro other
    have before := agrees other
    simp only [toList, List.reverse_cons, List.mem_append, List.mem_singleton] at before ⊢
    rw [Std.HashSet.mem_insert, beq_iff_eq, before, or_comm, eq_comm]

theorem Agrees.toList_insert {found : DistinctWords} (agrees : found.Agrees) (word : String) :
    (found.insert word).toList =
      if word ∈ found.toList then found.toList else found.toList ++ [word] := by
  have known : found.seen.contains word = true ↔ word ∈ found.toList := agrees word
  rw [DistinctWords.toList_insert]
  simp only [known]

theorem Agrees.insertAll {found : DistinctWords} (agrees : found.Agrees) (words : List String) :
    (found.insertAll words).Agrees :=
  List.foldlRecOn words _ agrees (fun _ agrees word _ => agrees.insert word)

theorem eraseDups_append_singleton (words : List String) (word : String) :
    (words ++ [word]).eraseDups =
      if word ∈ words then words.eraseDups else words.eraseDups ++ [word] := by
  rw [List.eraseDups_append]
  split
  · rename_i old
    simp [List.removeAll, old]
  · rename_i new
    simp [List.removeAll, new, List.eraseDups_cons]

theorem nodup_eraseDups (words : List String) : words.eraseDups.Nodup := by
  induction words using List.reverseRecOn with
  | nil => exact List.nodup_nil
  | append_singleton words word ih =>
    rw [eraseDups_append_singleton]
    split
    · exact ih
    · rename_i new
      refine List.nodup_append.mpr ⟨ih, List.pairwise_singleton _ word, ?_⟩
      rintro old member _ last rfl
      exact new (List.mem_singleton.mp last ▸ List.mem_eraseDups.mp member)

theorem eraseDups_of_nodup {words : List String} (distinct : words.Nodup) : words.eraseDups = words := by
  induction words using List.reverseRecOn with
  | nil => rfl
  | append_singleton words word ih =>
    obtain ⟨earlier, _, apart⟩ := List.nodup_append.mp distinct
    have new : word ∉ words := fun old => apart word old word (List.mem_singleton_self word) rfl
    rw [eraseDups_append_singleton, if_neg new, ih earlier]

/-- Words that are added one after the other stand in the order of their first occurrences. -/
theorem toList_insertAll_empty (words : List String) :
    (empty.insertAll words).toList = words.eraseDups := by
  induction words using List.reverseRecOn with
  | nil => rfl
  | append_singleton words word ih =>
    have agrees := agrees_empty.insertAll words
    have last : empty.insertAll (words ++ [word]) = (empty.insertAll words).insert word :=
      insertAll_append empty words [word]
    rw [last, agrees.toList_insert, ih, eraseDups_append_singleton]
    simp only [List.mem_eraseDups]

end DistinctWords

/-- Where every part has its words, these are merged in the order of the parts. -/
theorem Report.merge_eq {α : Type} {requested : UInt64} {items : List α} {part : α → Report}
    {answer : α → Generation} (answered : ∀ item ∈ items, (part item).result = .ok (answer item)) :
    merge requested (items.map part) =
      .ok ⟨((items.flatMap fun item => (answer item).words).eraseDups).take requested.toNat,
        requested⟩ := by
  have answers : (items.map part).mapM result = .ok (items.map answer) := by
    induction items with
    | nil => rfl
    | cons item rest ih =>
      rw [List.map_cons, List.mapM_cons, answered item List.mem_cons_self,
        ih fun later member => answered later (List.mem_cons_of_mem item member)]
      rfl
  have words (found : DistinctWords) (generations : List Generation) :
      generations.foldl (fun found part => found.insertAll part.words) found =
        found.insertAll (generations.flatMap (·.words)) := by
    rw [DistinctWords.insertAll, List.foldl_flatMap]
    rfl
  rw [merge, answers]
  simp only [bind, Except.bind, pure, Except.pure, words, DistinctWords.toList_insertAll_empty,
    List.flatMap_map]

/-- A report that has no word twice is not changed when it is merged alone. -/
theorem Report.merge_singleton {report : Report} (distinct : report.words.Nodup) :
    merge report.requested [report] = report.result := by
  cases failed : report.failure with
  | some cause =>
    rw [merge, List.mapM_cons, result, failed]
    rfl
  | none =>
    have answered : report.result =
        .ok ⟨report.words.take report.requested.toNat, report.requested⟩ := by
      rw [result, failed]
    have merged : merge report.requested ([report].map id) = _ :=
      merge_eq fun only listed => List.mem_singleton.mp listed ▸ answered
    have some : (report.words.take report.requested.toNat).Nodup :=
      distinct.sublist (List.take_sublist _ _)
    rw [List.map_singleton, List.flatMap_singleton, DistinctWords.eraseDups_of_nodup some,
      List.take_take, Nat.min_self] at merged
    exact merged.trans answered.symm

namespace Arrival

/-- The order in which reports come in does not matter, as long as no two have one number. -/
theorem collect_of_perm {requested : UInt64} {arrivals others : List Arrival}
    (shuffled : arrivals.Perm others) (numbered : (others.map (·.worker)).Pairwise (· < ·)) :
    collect requested arrivals = Report.merge requested (others.map (·.report)) := by
  have sorted : (arrivals.mergeSort fun a b => decide (a.worker ≤ b.worker)).Pairwise
      (fun a b => decide (a.worker ≤ b.worker) = true) := by
    refine List.pairwise_mergeSort (fun a b c first second => ?_) (fun a b => ?_) arrivals
    · exact decide_eq_true (Nat.le_trans (of_decide_eq_true first) (of_decide_eq_true second))
    · rw [Bool.or_eq_true, decide_eq_true_eq, decide_eq_true_eq]
      exact Nat.le_total a.worker b.worker
  have inOrder : others.Pairwise (fun a b => decide (a.worker ≤ b.worker) = true) :=
    (List.pairwise_map.mp numbered).imp fun below => decide_eq_true (Nat.le_of_lt below)
  have regained := (List.mergeSort_perm arrivals fun a b => decide (a.worker ≤ b.worker)).trans
    shuffled
  have distinct : (others.map (·.worker)).Nodup := numbered.imp Nat.ne_of_lt
  have same : arrivals.mergeSort (fun a b => decide (a.worker ≤ b.worker)) = others := by
    refine regained.eq_of_pairwise (fun a b inSorted inOthers below above => ?_) sorted inOrder
    exact List.inj_on_of_nodup_map distinct (regained.mem_iff.mp inSorted) inOthers
      (Nat.le_antisymm (of_decide_eq_true below) (of_decide_eq_true above))
  rw [collect, same]

end Arrival

end PseudoWord
