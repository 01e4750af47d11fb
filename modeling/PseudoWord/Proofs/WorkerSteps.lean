import PseudoWord.Crew
import PseudoWord.Proofs.Contract
import PseudoWord.Proofs.ImportedTable
import PseudoWord.Proofs.SameWalks
import PseudoWord.Proofs.SnapshotReading

namespace PseudoWord

section Strides

variable {σ : Type} [Source σ] {g : Graph} {r : Request}

theorem Node.walk_eq (n : Node) :
    n.walk g r = (do
      match ← n.depart with
      | .ended walk => return walk
      | .arrived _ trail text => Walk.follow g r n r.maxSteps.toNat n trail text :
        Sampler σ Walk) := by
  rw [walk, depart, bind_assoc]
  refine bind_congr fun outcome => ?_
  cases outcome with
  | error cause => rfl
  | ok fragment =>
    dsimp only
    rw [bind_assoc]
    refine bind_congr fun outcome => ?_
    cases outcome with
    | error cause => rfl
    | ok stop => cases stop <;> rfl

/-- The node that a stride comes to is the one that is under its id. -/
theorem Walk.follow_eq (origin : Node) (budget : Nat) (current : Node) (trail : List Visit)
    (text : String) :
    follow g r origin budget current trail text = (do
      match ← stride g r origin budget current trail text with
      | .ended walk => return walk
      | .arrived id trail text => follow g r origin (budget - 1) (g.nodeOrNew id) trail text :
        Sampler σ Walk) := by
  rw [follow, stride, bind_assoc]
  refine bind_congr fun outcome => ?_
  cases outcome with
  | error cause => rfl
  | ok choice =>
    cases choice with
    | none => rfl
    | some id =>
      dsimp only
      cases found : g.node? id with
      | none => rfl
      | some next =>
        cases budget with
        | zero => rfl
        | succ budget =>
          simp only [Nat.add_one_ne_zero, if_false, bind_assoc]
          refine bind_congr fun outcome => ?_
          cases outcome with
          | error cause => rfl
          | ok fragment =>
            dsimp only
            rw [bind_assoc]
            refine bind_congr fun outcome => ?_
            cases outcome with
            | error cause => rfl
            | ok stop =>
              cases stop with
              | true => rfl
              | false => simp only [pure_bind, Graph.nodeOrNew_of_some found, Nat.add_sub_cancel]

/-- No link is followed any more when none may be. -/
theorem Walk.ensures_stride_zero (origin current : Node) (trail : List Visit) (text : String) :
    Ensures (stride g r origin 0 current trail text : Sampler σ Stride)
      (fun stride => ∃ walk, stride = .ended walk) := by
  rw [stride]
  refine ensures_bind_any fun outcome => ?_
  cases outcome with
  | error cause => exact ensures_pure ⟨_, rfl⟩
  | ok choice =>
    cases choice with
    | none => exact ensures_pure ⟨_, rfl⟩
    | some id =>
      dsimp only
      cases g.node? id with
      | none => exact ensures_pure ⟨_, rfl⟩
      | some next => exact ensures_pure ⟨_, rfl⟩

end Strides

section Finishing

variable {σ : Type} [Source σ] (g : Graph) (r : Request)

/-- The rest of a generation, from within a round. -/
def OpenRound.finish (o : OpenRound) : Sampler σ Report := do
  let batch ← g.runBatch r (g.starts.getD []) o.left o.attempts o.found
  let rounds := ⟨o.before, o.size, batch.attempts.reverse⟩ :: o.earlier
  match batch.failure with
  | some cause => return ⟨r.count, rounds.reverse, batch.found.toList, some cause⟩
  | none => g.runRounds r (g.starts.getD []) o.triesLeft rounds batch.found

def OpenRound.finishSettled : Report ⊕ OpenRound → Sampler σ Report
  | .inl report => return report
  | .inr o => o.finish g r

/-- All that a worker has yet to do, done at once. -/
def Task.finish : Task → Sampler σ Report
  | begin => g.generate r
  | round tries rounds found => g.runRounds r (g.starts.getD []) tries rounds found
  | pick o => o.finish g r
  | enter o start => do OpenRound.finishSettled g r (o.settle r (← g.attempt r start))
  | depart o start => do
    OpenRound.finishSettled g r (o.settle r (.walked start (← (g.nodeOrNew start).walk g r)))
  | follow o start budget current trail text => do
    let walk ← Walk.follow g r (g.nodeOrNew start) budget (g.nodeOrNew current) trail text
    OpenRound.finishSettled g r (o.settle r (.walked start walk))
  | send report => return report

variable {g r}

theorem Task.finish_ofSettled (settled : Report ⊕ OpenRound) :
    (ofSettled settled).finish g r = (OpenRound.finishSettled g r settled : Sampler σ Report) := by
  cases settled <;> rfl

theorem OpenRound.finish_zero {o : OpenRound} (none : o.left = 0) :
    o.finish g r =
      (g.runRounds r (g.starts.getD []) o.triesLeft o.rounds o.found : Sampler σ Report) := by
  rw [finish, none, Graph.runBatch]
  rfl

/-- A round makes an attempt, enters it, and goes on. -/
theorem OpenRound.finish_succ {o : OpenRound} {left : Nat} (some : o.left = left + 1) :
    o.finish g r = (do
      match ← (Graph.drawStart (g.starts.getD [])).run with
      | .error cause => return { o with left }.broken r cause
      | .ok start =>
        let attempt ← g.attempt r start
        finishSettled g r ({ o with left }.settle r attempt) : Sampler σ Report) := by
  rw [finish, some, Graph.runBatch, bind_assoc]
  refine bind_congr fun outcome => ?_
  cases outcome with
  | error cause => rfl
  | ok start =>
    dsimp only
    rw [bind_assoc]
    refine bind_congr fun attempt => ?_
    cases attempt with
    | idle => rfl
    | walked start walk =>
      simp only [settle]
      cases walk.result with
      | error cause => rfl
      | ok made => cases made <;> rfl

theorem Graph.attempt_of_contains {start : NodeId}
    (known : g.nodes.contains start.value = true) :
    g.attempt r start =
      (do return .walked start (← (g.nodeOrNew start).walk g r) : Sampler σ Attempt) := by
  obtain ⟨n, found⟩ := Option.isSome_iff_exists.mp known
  have found : g.node? start = some n := found
  rw [attempt, found, Graph.nodeOrNew_of_some found]

theorem Graph.attempt_of_not_contains {start : NodeId}
    (unknown : ¬ g.nodes.contains start.value = true) :
    g.attempt r start = (return .idle : Sampler σ Attempt) := by
  have missing : g.node? start = none := Option.not_isSome_iff_eq_none.mp unknown
  rw [attempt, missing]

/-- To make one step and then do the rest is to do all at once. -/
theorem Task.finish_eq (task : Task) :
    task.finish g r = (do (← task.next g r).finish g r : Sampler σ Report) := by
  cases task with
  | begin =>
    rw [finish, next, Graph.generate]
    cases prepared : g.starts with
    | none => rfl
    | some starts =>
      cases starts with
      | nil => rfl
      | cons first rest =>
        simp only [pure_bind, finish, prepared, Option.getD_some]
  | round tries rounds found =>
    cases tries with
    | zero => rfl
    | succ tries =>
      rw [finish, next, Graph.runRounds]
      split <;> rfl
  | pick o =>
    rw [finish, next]
    cases size : o.left with
    | zero => exact OpenRound.finish_zero size
    | succ left =>
      rw [OpenRound.finish_succ size]
      simp only [bind_assoc]
      refine bind_congr fun outcome => ?_
      cases outcome with
      | error cause => rfl
      | ok start => rfl
  | enter o start =>
    rw [finish, next]
    split
    · rename_i known
      rw [Graph.attempt_of_contains known, bind_assoc]
      rfl
    · rename_i unknown
      rw [Graph.attempt_of_not_contains unknown, pure_bind, pure_bind, finish_ofSettled]
  | depart o start =>
    rw [finish, next, Node.walk_eq, bind_assoc, bind_assoc]
    refine bind_congr fun stride => ?_
    cases stride with
    | ended walk => exact (finish_ofSettled _).symm
    | arrived id trail text => rfl
  | follow o start budget current trail text =>
    rw [finish, next, Walk.follow_eq, bind_assoc, bind_assoc]
    refine bind_congr fun stride => ?_
    cases stride with
    | ended walk => exact (finish_ofSettled _).symm
    | arrived id trail text => rfl
  | send report => rfl

end Finishing

end PseudoWord
