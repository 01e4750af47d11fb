import PseudoWord.Proofs.SearchStep

namespace PseudoWord

namespace Search

/-- What a search does between two states when nothing cuts it off: the branches that are tried and do not
accept, and those that are put in front. The links of a branch are followed in any order, and a link may
be followed more than once. -/
inductive Course (g : Graph) : Search → List Branch → List Branch → Search → Prop
  | stay (s : Search) : Course g s [] [] s
  | next {b : Branch} {pending fresh tried added : List Branch} {seen : Std.HashSet (NodeId × Nat)}
      {moves : List (List Char × NodeId)} {last : Search} :
      b.accepts = false → (∀ move, move ∈ moves ↔ move ∈ b.moves) →
      (followAll g moves ⟨pending, seen⟩).pending = fresh ++ pending →
      Course g (followAll g moves ⟨pending, seen⟩) tried added last →
      Course g ⟨b :: pending, seen⟩ (b :: tried) (fresh ++ added) last

/-- How a search ends: none of the branches is left, or the one that is tried next accepts. -/
inductive Answers : Search → Bool → Prop
  | exhausted (seen : Std.HashSet (NodeId × Nat)) : Answers ⟨[], seen⟩ false
  | accepted {b : Branch} (pending : List Branch) (seen : Std.HashSet (NodeId × Nat)) :
      b.accepts = true → Answers ⟨b :: pending, seen⟩ true

/-- All branches that wait have an end of the word left. -/
def Within (s : Search) (word : List Char) : Prop := ∀ b ∈ s.pending, b.rest <:+ word

theorem within_start (n : Node) (word : List Char) : (start n word).Within word := by
  intro b member
  cases List.mem_singleton.mp member
  exact List.suffix_refl word

variable {g : Graph} {word : List Char} {b : Branch} {pending : List Branch}
  {seen : Std.HashSet (NodeId × Nat)} {moves : List (List Char × NodeId)} {s last : Search}
  {tried added : List Branch}

theorem Within.suffix_of_mem (within : Within ⟨b :: pending, seen⟩ word)
    (same : ∀ move, move ∈ moves ↔ move ∈ b.moves) : ∀ move ∈ moves, move.1 <:+ word :=
  fun move moved => (b.mem_moves_iff.mp ((same move).mp moved)).1.suffix.trans
    (within b List.mem_cons_self)

theorem Within.followAll (within : Within ⟨b :: pending, seen⟩ word)
    (same : ∀ move, move ∈ moves ↔ move ∈ b.moves) :
    (followAll g moves ⟨pending, seen⟩).Within word := by
  intro c member
  rcases mem_pending_followAll g moves _ member with old | ⟨moved, _, _⟩
  · exact within c (List.mem_cons_of_mem b old)
  · exact within.suffix_of_mem same _ moved

/-- Every branch that was tried or waits is paid for by a point that was noted. -/
theorem Course.measure (course : Course g s tried added last) (within : s.Within word) :
    tried.length + (last.pending.length + (unseen g word last).card) ≤
      s.pending.length + (unseen g word s).card := by
  induction course with
  | stay s => exact Nat.le_of_eq (Nat.zero_add _)
  | @next b pending fresh tried added seen moves last _ same _ _ ih =>
    have later := ih (within.followAll same)
    have less := followAll_measure g (fun move moved => (within.suffix_of_mem same move moved).length_le)
      ⟨pending, seen⟩
    have unnoted : unseen g word ⟨b :: pending, seen⟩ = unseen g word ⟨pending, seen⟩ := rfl
    rw [List.length_cons, List.length_cons, unnoted]
    have bound := later.trans less
    have first : (⟨pending, seen⟩ : Search).pending.length = pending.length := rfl
    omega

/-- What is put in front stands for different points, and for none that was noted at first. -/
theorem Course.points_nodup (course : Course g s tried added last) :
    (added.map Branch.point).Nodup ∧ ∀ b ∈ added, b.point ∉ s.seen := by
  induction course with
  | stay s => exact ⟨.nil, fun _ member => absurd member List.not_mem_nil⟩
  | @next b pending fresh tried added seen moves last _ _ front _ ih =>
    obtain ⟨apart, later⟩ := ih
    obtain ⟨others, same, distinct, stands⟩ := exists_fresh g moves ⟨pending, seen⟩
    cases List.append_cancel_right (front.symm.trans same)
    have noted (c : Branch) (member : c ∈ fresh) :
        c.point ∈ (followAll g moves ⟨pending, seen⟩).seen :=
      (mem_seen_followAll g moves _).mpr (.inr ⟨_, (stands c member).1, rfl⟩)
    constructor
    · rw [List.map_append, List.nodup_append]
      refine ⟨distinct, apart, fun one inFresh other inLater equal => ?_⟩
      obtain ⟨c, member, rfl⟩ := List.mem_map.mp inFresh
      obtain ⟨d, further, rfl⟩ := List.mem_map.mp inLater
      exact later d further (equal ▸ noted c member)
    · intro c member old
      rcases List.mem_append.mp member with inFresh | inLater
      · exact (stands c inFresh).2.2 old
      · exact later c inLater ((mem_seen_followAll g moves _).mpr (.inl old))

theorem run_succ_cons (g : Graph) (budget : Nat) (b : Branch) (pending : List Branch)
    (seen : Std.HashSet (NodeId × Nat)) :
    run g (budget + 1) ⟨b :: pending, seen⟩ =
      (b.accepts || run g budget (followAll g b.moves ⟨pending, seen⟩)) := by
  rw [← expand_eq]
  rfl

/-- A budget for all branches that wait and all points that are not noted yet cuts nothing off. -/
theorem exists_course {budget : Nat} (within : s.Within word)
    (enough : s.pending.length + (unseen g word s).card ≤ budget) :
    ∃ tried added last, Course g s tried added last ∧ last.Answers (run g budget s) := by
  induction budget generalizing s with
  | zero =>
    obtain ⟨pending, seen⟩ := s
    cases List.eq_nil_of_length_eq_zero (Nat.le_zero.mp (Nat.le_of_add_right_le enough))
    exact ⟨[], [], _, .stay _, .exhausted seen⟩
  | succ budget ih =>
    obtain ⟨pending, seen⟩ := s
    cases pending with
    | nil => exact ⟨[], [], _, .stay _, .exhausted seen⟩
    | cons b pending =>
      rw [run_succ_cons]
      cases accepts : b.accepts with
      | true => exact ⟨[], [], _, .stay _, .accepted pending seen accepts⟩
      | false =>
        have same (move : List Char × NodeId) : move ∈ b.moves ↔ move ∈ b.moves := Iff.rfl
        obtain ⟨fresh, front, _, _⟩ := exists_fresh g b.moves ⟨pending, seen⟩
        have less := (Course.next accepts same front (.stay _)).measure within
        rw [List.length_singleton] at less
        obtain ⟨tried, added, last, course, answers⟩ := ih (within.followAll (g := g) same) (by omega)
        exact ⟨_, _, last, .next accepts same front course, answers⟩

end Search

end PseudoWord
