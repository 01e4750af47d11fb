import Mathlib.Algebra.Order.Floor.Div
import PseudoWord.Demo
import PseudoWord.Proofs.CrewRuns
import PseudoWord.Proofs.MergedReports
import PseudoWord.Proofs.SeededBounds
import PseudoWord.Proofs.Unfailing

namespace PseudoWord

theorem Request.one_le_workers (r : Request) (cpus : Nat) : 1 ≤ r.workers cpus :=
  Nat.le_max_left 1 _

/-- The shares of so many workers are as large as they have to be, and no larger. -/
theorem Request.toNat_count_share (r : Request) {workers : Nat} (some : 1 ≤ workers) :
    (r.share workers).count.toNat = r.count.toNat ⌈/⌉ workers := by
  have bound : r.count.toNat < 2 ^ 64 := r.count.toNat_lt
  have fits : (r.count.toNat + workers - 1) / workers < 2 ^ 64 :=
    Nat.div_lt_of_lt_mul (by omega)
  rw [Nat.ceilDiv_eq_add_pred_div]
  exact UInt64.toNat_ofNat_of_lt' fits

namespace Graph

variable {g : Graph}

theorem numbered_workAll (g : Graph) (r : Request) (seed : UInt64) (cpus : Nat) :
    ((g.workAll r seed cpus).map (·.worker)).Pairwise (· < ·) := by
  have numbers : (g.workAll r seed cpus).map (·.worker) = List.range (r.workers cpus) := by
    rw [workAll, List.map_map]
    exact List.map_id _
  rw [numbers]
  exact List.pairwise_lt_range

/-- Where every worker has its words, these are merged in the order of the workers. -/
theorem generateParallel_eq {r : Request} {seed : UInt64} {cpus : Nat} {words : Nat → List String}
    (answered : ∀ worker < r.workers cpus,
      (g.work (r.share (r.workers cpus)) seed worker).report.result =
        .ok ⟨words worker, (r.share (r.workers cpus)).count⟩) :
    g.generateParallel r seed cpus =
      .ok ⟨((List.range (r.workers cpus)).flatMap words).eraseDups.take r.count.toNat, r.count⟩ := by
  have reports : (g.workAll r seed cpus).map (·.report) =
      (List.range (r.workers cpus)).map
        (fun worker => (g.work (r.share (r.workers cpus)) seed worker).report) := by
    rw [workAll, List.map_map]
    rfl
  rw [generateParallel, Arrival.collect_of_perm (.refl _) (g.numbered_workAll r seed cpus), reports]
  exact Report.merge_eq fun worker member => answered worker (List.mem_range.mp member)

/-- Three words of one to four characters, for two workers that are to find two each. -/
def threeWords : Request := ⟨3, 1, 4, 2, 20, .origin⟩

end Graph

end PseudoWord
