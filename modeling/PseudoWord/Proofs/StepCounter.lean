import PseudoWord.Proofs.WorkerSteps

namespace PseudoWord

namespace Request

/-- Whether one more link may be followed after so many: the counter of 64 bits goes up by one, from the
largest number to zero, and is held against the limit. -/
def mayStep (r : Request) (steps : UInt64) : Bool := decide (steps + 1 ≤ r.maxSteps)

variable {r : Request} {steps : UInt64}

theorem toNat_succ_of_le (limited : r.maxSteps.toNat + 1 < UInt64.size)
    (within : steps.toNat ≤ r.maxSteps.toNat) : (steps + 1).toNat = steps.toNat + 1 := by
  rw [UInt64.toNat_add, UInt64.toNat_one]
  exact Nat.mod_eq_of_lt (Nat.lt_of_le_of_lt (Nat.succ_le_succ within) limited)

/-- Where one more than the limit is a number of 64 bits, the counter never wraps before it is there. -/
theorem mayStep_iff (limited : r.maxSteps.toNat + 1 < UInt64.size)
    (within : steps.toNat ≤ r.maxSteps.toNat) :
    r.mayStep steps = true ↔ steps.toNat < r.maxSteps.toNat := by
  rw [mayStep, decide_eq_true_iff, UInt64.le_iff_toNat_le, toNat_succ_of_le limited within]
  exact Iff.rfl

/-- No count is larger than the largest number. -/
theorem mayStep_of_largest (largest : r.maxSteps.toNat + 1 = UInt64.size) : r.mayStep steps = true := by
  have count : (steps + 1).toNat < UInt64.size := (steps + 1).toNat_lt
  rw [mayStep, decide_eq_true_iff, UInt64.le_iff_toNat_le]
  omega

end Request

section Runs

variable {σ : Type} [Source σ]

/-- The rest of a walk as the loop makes it, after so many counted links: from a node, a trail, a text and
a state of the source to this walk and this state of the source. Nothing but the counter limits it. -/
inductive Walk.Loops (g : Graph) (r : Request) (origin : Node) (walk : Walk) (after : σ) :
    UInt64 → Node → List Visit → String → σ → Prop
  | ended {steps : UInt64} {current : Node} {trail : List Visit} {text : String} {s : σ} :
      (stride g r origin (r.mayStep steps).toNat current trail text).run s = (.ended walk, after) →
      Loops g r origin walk after steps current trail text s
  | next {steps : UInt64} {current : Node} {trail longer : List Visit} {text more : String} {s t : σ}
      {id : NodeId} :
      (stride g r origin (r.mayStep steps).toNat current trail text).run s = (.arrived id longer more, t) →
      Loops g r origin walk after (steps + 1) (g.nodeOrNew id) longer more t →
      Loops g r origin walk after steps current trail text s

/-- A whole walk as the loop makes it, which counts from zero. -/
inductive Node.Runs (g : Graph) (r : Request) (n : Node) (s : σ) (walk : Walk) (after : σ) : Prop
  | ended : n.depart.run s = (.ended walk, after) → Runs g r n s walk after
  | next {id : NodeId} {trail : List Visit} {text : String} {t : σ} :
      n.depart.run s = (.arrived id trail text, t) →
      Walk.Loops g r n walk after 0 n trail text t → Runs g r n s walk after

variable {g : Graph} {r : Request} {origin current : Node} {walk : Walk} {s after : σ}
  {trail : List Visit} {text : String} {steps : UInt64}

namespace Walk

/-- A stride looks at no more than whether a link may be followed at all. -/
theorem stride_congr {budget other : Nat} (same : budget = 0 ↔ other = 0) :
    stride g r origin budget current trail text =
      (stride g r origin other current trail text : Sampler σ Stride) := by
  rw [stride, stride]
  simp only [same]

/-- The counter lets a walk go on as long as some of its budget is left. -/
theorem stride_mayStep (limited : r.maxSteps.toNat + 1 < UInt64.size)
    (within : steps.toNat ≤ r.maxSteps.toNat) :
    stride g r origin (r.mayStep steps).toNat current trail text =
      (stride g r origin (r.maxSteps.toNat - steps.toNat) current trail text : Sampler σ Stride) := by
  refine stride_congr ?_
  rw [Nat.sub_eq_zero_iff_le, ← Nat.not_lt, ← Request.mayStep_iff limited within]
  cases r.mayStep steps <;> decide

/-- A walk arrives nowhere when its budget is used up. -/
theorem ne_zero_of_arrived {budget : Nat} {id : NodeId} {longer : List Visit} {more : String} {t : σ}
    (strode : (stride g r origin budget current trail text).run s = (.arrived id longer more, t)) :
    budget ≠ 0 := by
  rintro rfl
  obtain ⟨walk, ended⟩ := ensures_stride_zero (g := g) (r := r) origin current trail text s
  rw [strode] at ended
  cases ended

theorem Loops.run_follow (limited : r.maxSteps.toNat + 1 < UInt64.size)
    (loops : Loops g r origin walk after steps current trail text s)
    (within : steps.toNat ≤ r.maxSteps.toNat) :
    (follow g r origin (r.maxSteps.toNat - steps.toNat) current trail text).run s = (walk, after) := by
  induction loops with
  | ended strode =>
    rw [stride_mayStep limited within] at strode
    rw [follow_eq, StateT.run_bind, strode]
    rfl
  | @next steps current trail longer text more s t id strode _ ih =>
    rw [stride_mayStep limited within] at strode
    have left := ne_zero_of_arrived strode
    have counted := Request.toNat_succ_of_le limited within
    have onward := ih (by omega)
    rw [counted, ← Nat.sub_sub] at onward
    rw [follow_eq, StateT.run_bind, strode]
    exact onward

theorem loops_of_run_follow (limited : r.maxSteps.toNat + 1 < UInt64.size)
    (within : steps.toNat ≤ r.maxSteps.toNat)
    (ran : (follow g r origin (r.maxSteps.toNat - steps.toNat) current trail text).run s = (walk, after)) :
    Loops g r origin walk after steps current trail text s := by
  generalize budget : r.maxSteps.toNat - steps.toNat = left at ran
  induction left using Nat.strongRecOn generalizing steps current trail text s with
  | ind left ih =>
    subst budget
    rw [follow_eq, StateT.run_bind, ← stride_mayStep limited within] at ran
    rcases strode : (stride g r origin (r.mayStep steps).toNat current trail text).run s with ⟨stride, t⟩
    rw [strode] at ran
    cases stride with
    | ended other =>
      cases ran
      exact .ended strode
    | arrived id longer more =>
      have left : r.maxSteps.toNat - steps.toNat ≠ 0 := by
        rw [stride_mayStep limited within] at strode
        exact ne_zero_of_arrived strode
      have counted := Request.toNat_succ_of_le limited within
      exact .next strode (ih _ (by omega) (by omega) (by omega) ran)

/-- If one more than the limit is a number of 64 bits, the loop ends, and with no other walk than a budget
of as many links gives. -/
theorem loops_iff (limited : r.maxSteps.toNat + 1 < UInt64.size) (within : steps.toNat ≤ r.maxSteps.toNat) :
    Loops g r origin walk after steps current trail text s ↔
      (follow g r origin (r.maxSteps.toNat - steps.toNat) current trail text).run s = (walk, after) :=
  ⟨fun loops => loops.run_follow limited within, loops_of_run_follow limited within⟩

/-- Where the limit is the largest number, a walk that always arrives somewhere goes on for ever. -/
theorem not_loops (largest : r.maxSteps.toNat + 1 = UInt64.size) (goesOn : Node → σ → Prop)
    (arrives : ∀ current s, goesOn current s → ∀ trail text, ∃ id longer more t,
      (stride g r origin 1 current trail text).run s = (.arrived id longer more, t) ∧
        goesOn (g.nodeOrNew id) t)
    (here : goesOn current s) : ¬ Loops g r origin walk after steps current trail text s := by
  intro loops
  induction loops with
  | @ended steps current trail text s strode =>
    obtain ⟨id, longer, more, t, arrived, _⟩ := arrives current s here trail text
    rw [Request.mayStep_of_largest largest, Bool.toNat_true, arrived] at strode
    cases strode
  | @next steps current trail longer text more s t id strode _ ih =>
    obtain ⟨_, _, _, _, arrived, there⟩ := arrives current s here trail text
    rw [Request.mayStep_of_largest largest, Bool.toNat_true, arrived] at strode
    cases strode
    exact ih there

end Walk

/-- If one more than the limit is a number of 64 bits, the loop of a whole walk ends, and with no other
walk than the one that has a budget. -/
theorem Node.runs_iff (limited : r.maxSteps.toNat + 1 < UInt64.size) {n : Node} :
    n.Runs g r s walk after ↔ (n.walk g r).run s = (walk, after) := by
  have onward (trail : List Visit) (text : String) (t : σ) :
      Walk.Loops g r n walk after 0 n trail text t ↔
        (Walk.follow g r n r.maxSteps.toNat n trail text).run t = (walk, after) :=
    Walk.loops_iff limited (Nat.zero_le _)
  rw [walk_eq, StateT.run_bind]
  constructor
  · rintro (departed | ⟨departed, loops⟩)
    · rw [departed]
      rfl
    · rw [departed]
      exact (onward _ _ _).mp loops
  · intro ran
    rcases departed : n.depart.run s with ⟨stride, t⟩
    rw [departed] at ran
    cases stride with
    | ended other =>
      cases ran
      exact .ended departed
    | arrived id trail text => exact .next departed ((onward _ _ _).mpr ran)

end Runs

end PseudoWord
