import PseudoWord.Proofs.SearchExact

namespace PseudoWord

namespace Graph

/-- Acceptance by a path that follows so many links. -/
inductive AcceptsIn (g : Graph) : Nat → Node → List Char → Prop
  | stop {n : Node} {word : List Char} :
      n.Takes word [] → n.MayEnd → AcceptsIn g 0 n word
  | follow {steps : Nat} {n next : Node} {word rest : List Char} {target : NodeId} :
      n.Takes word rest → target ∈ n.links.values → g.node? target = some next →
      AcceptsIn g steps next rest → AcceptsIn g (steps + 1) n word

theorem Accepts.exists_steps {g : Graph} {n : Node} {word : List Char} (accepted : g.Accepts n word) :
    ∃ steps, g.AcceptsIn steps n word := by
  induction accepted with
  | stop takes ends => exact ⟨0, .stop takes ends⟩
  | follow takes linked found _ ih =>
    obtain ⟨steps, path⟩ := ih
    exact ⟨steps + 1, .follow takes linked found path⟩

/-- A path that no path with fewer links replaces. -/
def Shortest (g : Graph) (steps : Nat) (n : Node) (word : List Char) : Prop :=
  g.AcceptsIn steps n word ∧ ∀ fewer < steps, ¬ g.AcceptsIn fewer n word

theorem Accepts.exists_shortest {g : Graph} {n : Node} {word : List Char}
    (accepted : g.Accepts n word) : ∃ steps, g.Shortest steps n word := by
  obtain ⟨steps, path⟩ := accepted.exists_steps
  induction steps using Nat.strong_induction_on with
  | _ steps ih =>
    by_cases shorter : ∃ fewer < steps, g.AcceptsIn fewer n word
    · obtain ⟨fewer, less, other⟩ := shorter
      exact ih fewer less other
    · exact ⟨steps, path, fun fewer less other => shorter ⟨fewer, less, other⟩⟩

/-- What follows on a shortest path is a shortest path. -/
theorem Shortest.next {g : Graph} {steps : Nat} {n : Node} {word : List Char}
    (shortest : g.Shortest (steps + 1) n word) :
    ∃ next rest target, n.Takes word rest ∧ target ∈ n.links.values ∧ g.node? target = some next ∧
      g.Shortest steps next rest := by
  obtain ⟨path, least⟩ := shortest
  cases path with
  | @follow _ _ next _ rest target takes linked found later =>
    refine ⟨next, rest, target, takes, linked, found, later, fun fewer less other => ?_⟩
    exact least (fewer + 1) (Nat.succ_lt_succ less) (.follow takes linked found other)

theorem Shortest.steps_unique {g : Graph} {one other : Nat} {n : Node} {word : List Char}
    (first : g.Shortest one n word) (second : g.Shortest other n word) : one = other := by
  rcases Nat.lt_trichotomy one other with less | same | more
  · exact absurd first.1 (second.2 one less)
  · exact same
  · exact absurd second.1 (first.2 other more)

/-- A point of the search that a shortest path with at most so many links starts from. -/
def ShortFrom (g : Graph) (word : List Char) (most : Nat) (point : NodeId × Nat) : Prop :=
  ∃ node rest steps, g.node? point.1 = some node ∧ rest <:+ word ∧ rest.length = point.2 ∧
    steps ≤ most ∧ g.Shortest steps node rest

/-- A shortest path never comes back to a point, so it meets one more of them than it has links. -/
theorem Shortest.exists_points {g : Graph} {word : List Char} {steps : Nat} {id : NodeId} {n : Node}
    {rest : List Char} (shortest : g.Shortest steps n rest) (found : g.node? id = some n)
    (suffix : rest <:+ word) :
    ∃ met : Finset (NodeId × Nat), met.card = steps + 1 ∧
      ∀ point ∈ met, g.ShortFrom word steps point := by
  induction steps generalizing id n rest with
  | zero =>
    refine ⟨{(id, rest.length)}, Finset.card_singleton _, fun point member => ?_⟩
    cases Finset.mem_singleton.mp member
    exact ⟨n, rest, 0, found, suffix, rfl, Nat.le_refl 0, shortest⟩
  | succ steps ih =>
    obtain ⟨next, left, target, takes, _, atTarget, later⟩ := shortest.next
    obtain ⟨met, card, short⟩ := ih later atTarget (takes.suffix.trans suffix)
    have fresh : (id, rest.length) ∉ met := by
      intro again
      obtain ⟨node, same, fewer, atId, inside, length, few, other⟩ := short _ again
      have sameRest : same = rest := Search.suffix_ext inside suffix length
      have sameNode : n = node := Option.some.inj (found.symm.trans atId)
      subst sameRest
      subst sameNode
      have equal := shortest.steps_unique other
      omega
    refine ⟨insert (id, rest.length) met, ?_, fun point member => ?_⟩
    · rw [Finset.card_insert_of_notMem fresh, card]
    · rcases Finset.mem_insert.mp member with rfl | old
      · exact ⟨n, rest, steps + 1, found, suffix, rfl, Nat.le_refl _, shortest⟩
      · obtain ⟨node, other, fewer, atPoint, inside, length, few, path⟩ := short point old
        exact ⟨node, other, fewer, atPoint, inside, length, Nat.le_succ_of_le few, path⟩

/-- Whatever is accepted is accepted by a path with fewer links than the search has points. -/
theorem Accepts.exists_short {g : Graph} {n : Node} {word : List Char} (accepted : g.Accepts n word)
    {id : NodeId} (found : g.node? id = some n) :
    ∃ steps, g.AcceptsIn steps n word ∧ steps < g.size * (word.length + 1) := by
  obtain ⟨steps, shortest⟩ := accepted.exists_shortest
  obtain ⟨met, card, short⟩ := shortest.exists_points found (List.suffix_refl word)
  have inside : met ⊆ Search.points g word := by
    intro point member
    obtain ⟨node, rest, _, atPoint, suffix, length, _, _⟩ := short point member
    exact (Search.mem_points_iff g word).mpr ⟨⟨node, atPoint⟩, length ▸ suffix.length_le⟩
  have few := (Finset.card_le_card inside).trans (Search.card_points_le g word)
  refine ⟨steps, shortest.1, ?_⟩
  omega

end Graph

end PseudoWord
