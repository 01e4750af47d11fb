import Mathlib.Algebra.Ring.Nat
import Mathlib.Data.List.Perm.Basic
import PseudoWord.Proofs.RunCounters

namespace PseudoWord

section Work

/-- A bound for the steps of one attempt. -/
def Request.attemptWork (r : Request) : Nat := r.maxSteps.toNat + 4

/-- A bound for the steps of one round. -/
def Request.roundWork (r : Request) : Nat := r.count.toNat * r.attemptWork + 2

def OpenRound.work (o : OpenRound) (r : Request) : Nat :=
  o.left * r.attemptWork + o.triesLeft * r.roundWork + 3

/-- A bound for the steps that a worker still makes. -/
def Task.work (r : Request) : Task → Nat
  | begin => r.maxTries.toNat * r.roundWork + 3
  | round tries _ _ => tries * r.roundWork + 2
  | pick o => o.work r
  | enter o _ => o.work r + (r.maxSteps.toNat + 3)
  | depart o _ => o.work r + (r.maxSteps.toNat + 2)
  | follow o _ budget _ _ _ => o.work r + (budget + 1)
  | send _ => 1

variable {σ : Type} [Source σ] {g : Graph} {r : Request}

theorem OpenRound.work_ofSettled (o : OpenRound) (attempt : Attempt) :
    (Task.ofSettled (o.settle r attempt)).work r ≤ o.work r := by
  have one : 1 ≤ o.work r := by
    rw [work]
    omega
  cases attempt with
  | idle => exact Nat.le_refl _
  | walked start walk =>
    rw [settle]
    cases walk.result with
    | error cause => exact one
    | ok made => cases made <;> exact Nat.le_refl _

/-- Every step leaves less to do. -/
theorem Task.ensures_work {task : Task} (unsent : ∀ report, task ≠ send report) :
    Ensures (task.next g r : Sampler σ Task) (fun after => after.work r < task.work r) := by
  cases task with
  | begin =>
    rw [next]
    split <;> refine ensures_pure ?_ <;> simp only [work] <;> omega
  | round tries rounds found =>
    cases tries with
    | zero => exact ensures_pure (by simp only [work]; omega)
    | succ tries =>
      rw [next]
      split
      · refine ensures_pure ?_
        have size : (r.count.toNat - found.size / 2) * r.attemptWork ≤ r.count.toNat * r.attemptWork :=
          Nat.mul_le_mul_right _ (Nat.sub_le _ _)
        have whole : r.roundWork = r.count.toNat * r.attemptWork + 2 := rfl
        simp only [work, OpenRound.work, Nat.succ_mul]
        omega
      · exact ensures_pure (by simp only [work]; omega)
  | pick o =>
    rw [next]
    split
    · rename_i size
      refine ensures_pure ?_
      simp only [work, OpenRound.work, size]
      omega
    · rename_i left size
      have attempt : ({ o with left } : OpenRound).work r + r.attemptWork = o.work r := by
        simp only [OpenRound.work, size, Nat.succ_mul]
        omega
      have positive : r.attemptWork = r.maxSteps.toNat + 4 := rfl
      refine ensures_bind_any fun outcome => ?_
      cases outcome with
      | error cause => exact ensures_pure (by simp only [work]; omega)
      | ok start => exact ensures_pure (by simp only [work]; omega)
  | enter o start =>
    rw [next]
    split
    · exact ensures_pure (by simp only [work]; omega)
    · refine ensures_pure (Nat.lt_of_le_of_lt (o.work_ofSettled .idle) ?_)
      simp only [work]
      omega
  | depart o start =>
    rw [next]
    refine ensures_bind_any fun stride => ?_
    cases stride with
    | ended walk =>
      refine ensures_pure (Nat.lt_of_le_of_lt (o.work_ofSettled (.walked start walk)) ?_)
      simp only [work]
      omega
    | arrived id trail text => exact ensures_pure (by simp only [work]; omega)
  | follow o start budget current trail text =>
    have ended (walk : Walk) : (ofSettled (o.settle r (.walked start walk))).work r <
        (follow o start budget current trail text).work r := by
      refine Nat.lt_of_le_of_lt (o.work_ofSettled (.walked start walk)) ?_
      simp only [work]
      omega
    rw [next]
    cases budget with
    | zero =>
      refine (Walk.ensures_stride_zero _ _ trail text).bind fun stride holds => ?_
      obtain ⟨walk, rfl⟩ := holds
      exact ensures_pure (ended walk)
    | succ budget =>
      refine ensures_bind_any fun stride => ?_
      cases stride with
      | ended walk => exact ensures_pure (ended walk)
      | arrived id trail text => exact ensures_pure (by simp only [work]; omega)
  | send report => exact absurd rfl (unsent report)

end Work

/-- The report that a worker will send, on the graph before any walk was counted. -/
def Worker.promise (g : Graph) (share : Request) (w : Worker) : Arrival :=
  ⟨w.number, ((w.task.finish g.unrun share).run w.source).1⟩

/-- A worker that makes a step on a graph that differs in its counters alone keeps its promise. -/
theorem Worker.promise_advance {g h : Graph} (same : h.unrun = g.unrun) (share : Request)
    (w : Worker) : (w.advance h share).promise g share = w.promise g share := by
  have step : w.task.next h share = (w.task.next g.unrun share : Sampler Seeded Task) := by
    rw [← same, Task.next_unrun]
  rw [promise, promise, Task.finish_eq w.task, advance, step]
  rfl

namespace Crew

variable {g : Graph} {share : Request}

/-- A bound for the steps that are still to be made. -/
def work (share : Request) (s : Crew) : Nat := (s.workers.map (fun w => w.task.work share)).sum

/-- The walks that the graph of a crew has counted. -/
def counted (s : Crew) : List NodeId :=
  s.arrived.flatMap (·.report.walkStarts) ++ s.workers.flatMap (fun w => w.task.counted)

/-- What holds of a crew on the way: what has arrived and what is promised, taken together, are the
given reports, and the graph differs from the first one by the walks that were counted. -/
structure Keeps (g : Graph) (share : Request) (all : List Arrival) (s : Crew) : Prop where
  promised : (s.arrived ++ s.workers.map (Worker.promise g share)).Perm all
  graph : s.graph = s.counted.foldl Graph.countRun g

theorem Step.keeps {all : List Arrival} {s t : Crew} (step : Step share s t)
    (keeps : s.Keeps g share all) : t.Keeps g share all := by
  obtain ⟨promised, graph⟩ := keeps
  cases step with
  | @work h before after arrived w unsent =>
    dsimp only at graph
    have same : h.unrun = g.unrun := by rw [graph, Graph.unrun_foldl_countRun]
    refine ⟨?_, ?_⟩
    · simp only [List.map_append, List.map_cons, Worker.promise_advance same] at promised ⊢
      exact promised
    · have own : (w.advance h share).task.counted.Perm (w.task.counts h ++ w.task.counted) :=
        w.task.ensures_counted w.source
      have all : (counted ⟨h, before ++ w :: after, arrived⟩ ++ w.task.counts h).Perm
          (counted ⟨(w.task.counts h).foldl Graph.countRun h,
            before ++ w.advance h share :: after, arrived⟩) := by
        simp only [counted, List.flatMap_append, List.flatMap_cons]
        refine List.perm_append_comm.trans ((List.perm_append_comm_assoc _ _ _).trans ?_)
        refine List.Perm.append_left _ ((List.perm_append_comm_assoc _ _ _).trans ?_)
        refine List.Perm.append_left _ ?_
        rw [← List.append_assoc]
        exact own.symm.append_right _
      rw [← all.foldl_eq, List.foldl_append, ← graph]
  | @send h before after arrived number report source =>
    refine ⟨?_, graph.trans (List.Perm.foldl_eq ?_ g)⟩
    · have held : Worker.promise g share ⟨number, .send report, source⟩ = ⟨number, report⟩ := rfl
      simp only [List.map_append, List.map_cons, held] at promised ⊢
      have moved := @List.perm_middle _ ⟨number, report⟩ (before.map (Worker.promise g share))
        (after.map (Worker.promise g share))
      rw [List.append_assoc]
      exact (List.Perm.append_left arrived moved.symm).trans promised
    · simp only [counted, List.flatMap_append, List.flatMap_cons, List.append_assoc]
      refine List.Perm.append_left _ ?_
      exact List.perm_append_comm_assoc _ _ _

theorem Step.work_lt {s t : Crew} (step : Step share s t) : t.work share < s.work share := by
  cases step with
  | @work h before after arrived w unsent =>
    have less : (w.advance h share).task.work share < w.task.work share :=
      Task.ensures_work unsent w.source
    simp only [Crew.work, List.map_append, List.map_cons, List.sum_append, List.sum_cons]
    omega
  | @send h before after arrived number report source =>
    simp only [Crew.work, List.map_append, List.map_cons, List.sum_append, List.sum_cons, Task.work]
    omega

/-- As long as a worker is there, some step can be made. -/
theorem exists_step (share : Request) {s : Crew} (unfinished : s.workers ≠ []) : ∃ t, Step share s t := by
  obtain ⟨h, workers, arrived⟩ := s
  obtain ⟨w, rest, rfl⟩ := List.exists_cons_of_ne_nil unfinished
  obtain ⟨number, task, source⟩ := w
  cases task with
  | send report => exact ⟨_, @Step.send share h [] rest arrived number report source⟩
  | _ => exact ⟨_, @Step.work share h [] rest arrived _ (fun _ impossible => nomatch impossible)⟩

theorem Run.keeps {all : List Arrival} {first s : Crew} {steps : Nat} (run : Run share first steps s)
    (keeps : first.Keeps g share all) : s.Keeps g share all := by
  induction run with
  | start => exact keeps
  | next _ step ih => exact step.keeps ih

/-- The work that is there at first bounds the steps, in whatever order they are made. -/
theorem Run.steps_le {first s : Crew} {steps : Nat} (run : Run share first steps s) :
    steps + s.work share ≤ first.work share := by
  induction run with
  | start => omega
  | next _ step ih =>
    have less := step.work_lt
    omega

/-- Whatever was done so far, all workers can be brought to their ends. -/
theorem Run.exists_finished {first s : Crew} {steps : Nat} (run : Run share first steps s) :
    ∃ more t, Run share first more t ∧ t.workers = [] := by
  by_cases finished : s.workers = []
  · exact ⟨steps, s, run, finished⟩
  · obtain ⟨t, step⟩ := exists_step share finished
    have less := step.work_lt
    exact exists_finished (.next run step)
termination_by s.work share

theorem keeps_start (g : Graph) (r : Request) (seed : UInt64) (cpus : Nat) :
    (start g r seed cpus).Keeps g (r.share (r.workers cpus)) (g.workAll r seed cpus) := by
  have generated : g.unrun.generate (r.share (r.workers cpus)) =
      (g.generate (r.share (r.workers cpus)) : Sampler Seeded Report) :=
    Graph.generate_congr g.same_unrun g.replays_unrun rfl _
  refine ⟨?_, ?_⟩
  · simp only [start, List.nil_append, List.map_map, Graph.workAll, Function.comp_def,
      Worker.promise, Task.finish, generated]
    exact .refl _
  · have nothing : (start g r seed cpus).counted = [] := by
      simp [counted, start, Task.counted]
    rw [nothing]
    rfl

end Crew

end PseudoWord
