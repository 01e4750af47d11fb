import Mathlib.Data.Finset.Prod
import PseudoWord.Proofs.Language

namespace PseudoWord

/-- A character takes at least one byte. -/
theorem length_le_utf8ByteSize (text : List Char) : text.length ≤ (String.ofList text).utf8ByteSize := by
  induction text with
  | nil => exact Nat.zero_le _
  | cons c rest ih =>
    have one := c.utf8Size_pos
    rw [String.ofList_cons, String.utf8ByteSize_append, String.utf8ByteSize_singleton, List.length_cons]
    omega

/-- What the search notes of a branch: the id under which it was reached, and how much was left. -/
def Branch.point (b : Branch) : NodeId × Nat := (b.reached, b.rest.length)

namespace Search

/-- Follows links one after the other, each with its remainder. -/
def followAll (g : Graph) (moves : List (List Char × NodeId)) (s : Search) : Search :=
  moves.foldl (fun s move => follow g move.1 s move.2) s

theorem expand_eq (g : Graph) (b : Branch) (s : Search) :
    expand g b s = followAll g b.moves s := by
  rw [expand, followAll, Branch.moves, List.foldl_flatMap]
  simp only [List.foldl_map]

/-- Following a link does nothing when that was done before; else it is noted, and where it leads to a
node a branch is put in front. -/
theorem follow_cases (g : Graph) (rest : List Char) (s : Search) (target : NodeId) :
    ((target, rest.length) ∈ s.seen ∧ follow g rest s target = s) ∨
      ((target, rest.length) ∉ s.seen ∧
        (follow g rest s target).seen = s.seen.insert (target, rest.length) ∧
        ((g.node? target = none ∧ (follow g rest s target).pending = s.pending) ∨
          ∃ node, g.node? target = some node ∧
            (follow g rest s target).pending = ⟨target, node, rest⟩ :: s.pending)) := by
  rw [follow]
  split
  · rename_i known
    exact .inl ⟨known, rfl⟩
  · rename_i fresh
    refine .inr ⟨fresh, ?_⟩
    cases found : g.node? target with
    | none => exact ⟨rfl, .inl ⟨rfl, rfl⟩⟩
    | some node => exact ⟨rfl, .inr ⟨node, rfl, rfl⟩⟩

theorem mem_seen_follow (g : Graph) (rest : List Char) (s : Search) (target : NodeId)
    {point : NodeId × Nat} :
    point ∈ (follow g rest s target).seen ↔ point = (target, rest.length) ∨ point ∈ s.seen := by
  rcases follow_cases g rest s target with ⟨known, same⟩ | ⟨_, seen, _⟩
  · rw [same]
    constructor
    · exact .inr
    · rintro (rfl | old)
      · exact known
      · exact old
  · rw [seen, Std.HashSet.mem_insert, beq_iff_eq]
    exact or_congr_left eq_comm

/-- What is noted for the first time, and leads to a node, waits to be tried. -/
theorem pending_follow_of_fresh {g : Graph} {rest : List Char} {s : Search} {target : NodeId}
    {node : Node} (fresh : (target, rest.length) ∉ s.seen) (found : g.node? target = some node) :
    ⟨target, node, rest⟩ ∈ (follow g rest s target).pending := by
  rcases follow_cases g rest s target with ⟨known, _⟩ | ⟨_, _, ⟨missing, _⟩ | ⟨other, same, added⟩⟩
  · exact absurd known fresh
  · rw [missing] at found
    cases found
  · rw [same] at found
    cases found
    rw [added]
    exact List.mem_cons_self

section Moves

variable (g : Graph) (moves : List (List Char × NodeId)) (s : Search)

theorem mem_seen_followAll {point : NodeId × Nat} :
    point ∈ (followAll g moves s).seen ↔
      point ∈ s.seen ∨ ∃ move ∈ moves, point = (move.2, move.1.length) := by
  induction moves generalizing s with
  | nil => simp [followAll]
  | cons move rest ih =>
    have first : point ∈ (follow g move.1 s move.2).seen ↔
        point = (move.2, move.1.length) ∨ point ∈ s.seen := mem_seen_follow g move.1 s move.2
    have later := ih (follow g move.1 s move.2)
    rw [followAll, List.foldl_cons, ← followAll, later, first, List.exists_mem_cons_iff, or_assoc,
      or_left_comm]

/-- The branches that are put in front stand for different points, and each for a link that leads to a node
and was not followed before. -/
theorem exists_fresh : ∃ fresh, (followAll g moves s).pending = fresh ++ s.pending ∧
    (fresh.map Branch.point).Nodup ∧ ∀ b ∈ fresh,
      (b.rest, b.reached) ∈ moves ∧ g.node? b.reached = some b.node ∧ b.point ∉ s.seen := by
  induction moves generalizing s with
  | nil => exact ⟨[], rfl, .nil, fun _ member => absurd member List.not_mem_nil⟩
  | cons move rest ih =>
    obtain ⟨later, front, apart, stands⟩ := ih (follow g move.1 s move.2)
    have old (b : Branch) (member : b ∈ later) : (b.rest, b.reached) ∈ move :: rest ∧
        g.node? b.reached = some b.node ∧ b.point ∉ s.seen := by
      obtain ⟨moved, found, fresh⟩ := stands b member
      refine ⟨List.mem_cons_of_mem move moved, found, fun noted => fresh ?_⟩
      exact (mem_seen_follow g move.1 s move.2).mpr (.inr noted)
    rw [followAll, List.foldl_cons, ← followAll, front]
    rcases follow_cases g move.1 s move.2 with ⟨_, same⟩ | ⟨fresh, _, ⟨_, same⟩ | ⟨node, found, added⟩⟩
    · exact ⟨later, by rw [same], apart, old⟩
    · exact ⟨later, by rw [same], apart, old⟩
    · refine ⟨later ++ [⟨move.2, node, move.1⟩], by rw [added, List.append_cons], ?_, fun b member => ?_⟩
      · rw [List.map_append, List.nodup_append]
        refine ⟨apart, List.nodup_singleton _, fun point inLater new isNew equal => ?_⟩
        obtain ⟨b, member, same⟩ := List.mem_map.mp inLater
        have asNew := same.trans (equal.trans (List.mem_singleton.mp isNew))
        exact (stands b member).2.2 (asNew ▸ (mem_seen_follow g move.1 s move.2).mpr (.inl rfl))
      · rcases List.mem_append.mp member with before | new
        · exact old b before
        · cases List.mem_singleton.mp new
          exact ⟨List.mem_cons_self, found, fresh⟩

theorem mem_pending_followAll {b : Branch} (member : b ∈ (followAll g moves s).pending) :
    b ∈ s.pending ∨
      (b.rest, b.reached) ∈ moves ∧ g.node? b.reached = some b.node ∧ b.point ∉ s.seen := by
  obtain ⟨fresh, front, _, stands⟩ := exists_fresh g moves s
  rw [front] at member
  exact (List.mem_append.mp member).symm.imp_right (stands b)

theorem pending_followAll_of_mem {b : Branch} (member : b ∈ s.pending) :
    b ∈ (followAll g moves s).pending := by
  obtain ⟨fresh, front, _, _⟩ := exists_fresh g moves s
  rw [front]
  exact List.mem_append_right fresh member

/-- A point that is noted for the first time comes with a branch for it. -/
theorem pending_followAll_of_fresh {point : NodeId × Nat} {node : Node} (fresh : point ∉ s.seen)
    (noted : point ∈ (followAll g moves s).seen) (found : g.node? point.1 = some node) :
    ∃ move ∈ moves, point = (move.2, move.1.length) ∧
      ⟨move.2, node, move.1⟩ ∈ (followAll g moves s).pending := by
  induction moves generalizing s with
  | nil => exact absurd noted fresh
  | cons move rest ih =>
    by_cases first : point = (move.2, move.1.length)
    · subst first
      exact ⟨move, List.mem_cons_self, rfl,
        pending_followAll_of_mem g rest _ (pending_follow_of_fresh fresh found)⟩
    · have stillFresh : point ∉ (follow g move.1 s move.2).seen := by
        rw [mem_seen_follow]
        exact fun old => old.elim first fresh
      obtain ⟨other, member, same, waits⟩ := ih _ stillFresh noted
      exact ⟨other, List.mem_cons_of_mem _ member, same, waits⟩

end Moves

/-- The points that a search for a word may note: a node of the graph, and how much of the word is
left. -/
def points (g : Graph) (word : List Char) : Finset (NodeId × Nat) :=
  (g.nodes.keys.map NodeId.mk).toFinset ×ˢ Finset.range (word.length + 1)

theorem card_points_le (g : Graph) (word : List Char) :
    (points g word).card ≤ g.size * (word.length + 1) := by
  rw [points, Finset.card_product, Finset.card_range]
  refine Nat.mul_le_mul_right _ ((List.toFinset_card_le _).trans ?_)
  rw [List.length_map, KeyMap.keys, List.length_map]
  rfl

theorem mem_points_iff (g : Graph) (word : List Char) {target : NodeId} {left : Nat} :
    (target, left) ∈ points g word ↔
      (∃ node, g.node? target = some node) ∧ left ≤ word.length := by
  have known : target ∈ g.nodes.keys.map NodeId.mk ↔ ∃ node, g.node? target = some node := by
    simp only [KeyMap.keys, List.map_map, List.mem_map, Graph.node?, KeyMap.get?_eq_some_iff]
    constructor
    · rintro ⟨entry, member, rfl⟩
      exact ⟨entry.2, member⟩
    · rintro ⟨node, member⟩
      exact ⟨(target.value, node), member, rfl⟩
  rw [points, Finset.mem_product, List.mem_toFinset, Finset.mem_range, known, Nat.lt_succ_iff]

/-- The points that are not noted yet. -/
def unseen (g : Graph) (word : List Char) (s : Search) : Finset (NodeId × Nat) :=
  (points g word).filter (fun point => point ∉ s.seen)

theorem card_unseen_le (g : Graph) (word : List Char) (s : Search) :
    (unseen g word s).card ≤ g.size * (word.length + 1) :=
  (Finset.card_filter_le _ _).trans (card_points_le g word)

theorem unseen_follow_subset (g : Graph) (word rest : List Char) (s : Search) (target : NodeId) :
    unseen g word (follow g rest s target) ⊆ unseen g word s := by
  intro point inside
  obtain ⟨known, fresh⟩ := Finset.mem_filter.mp inside
  rw [mem_seen_follow] at fresh
  exact Finset.mem_filter.mpr ⟨known, fun old => fresh (.inr old)⟩

/-- A link that is followed takes from the points not yet noted what it adds to the branches. -/
theorem follow_measure (g : Graph) {word rest : List Char} (fits : rest.length ≤ word.length)
    (s : Search) (target : NodeId) :
    (follow g rest s target).pending.length + (unseen g word (follow g rest s target)).card ≤
      s.pending.length + (unseen g word s).card := by
  have subset := unseen_follow_subset g word rest s target
  rcases follow_cases g rest s target with ⟨_, same⟩ | ⟨fresh, _, ⟨_, same⟩ | ⟨node, found, added⟩⟩
  · rw [same]
  · rw [same]
    exact Nat.add_le_add_left (Finset.card_le_card subset) _
  · have inside : (target, rest.length) ∈ unseen g word s :=
      Finset.mem_filter.mpr ⟨(mem_points_iff g word).mpr ⟨⟨node, found⟩, fits⟩, fresh⟩
    have outside : (target, rest.length) ∉ unseen g word (follow g rest s target) := by
      intro still
      exact (Finset.mem_filter.mp still).2 ((mem_seen_follow g rest s target).mpr (.inl rfl))
    have fewer := Finset.card_lt_card ((Finset.ssubset_iff_of_subset subset).mpr ⟨_, inside, outside⟩)
    rw [added, List.length_cons]
    omega

theorem followAll_measure (g : Graph) {word : List Char} {moves : List (List Char × NodeId)}
    (fits : ∀ move ∈ moves, move.1.length ≤ word.length) (s : Search) :
    (followAll g moves s).pending.length + (unseen g word (followAll g moves s)).card ≤
      s.pending.length + (unseen g word s).card := by
  induction moves generalizing s with
  | nil => exact Nat.le_refl _
  | cons move rest ih =>
    have first := follow_measure g (fits move List.mem_cons_self) s move.2
    exact (ih (fun other later => fits other (List.mem_cons_of_mem _ later)) _).trans first

end Search

end PseudoWord
