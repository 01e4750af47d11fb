import Mathlib.Data.List.Basic
import PseudoWord.Acceptor
import PseudoWord.Proofs.Reachable

namespace PseudoWord

/-- What a visit to a node may leave of a word: the rest after one of its fragments, or the whole word
when it has none. -/
inductive Node.Takes (n : Node) : List Char → List Char → Prop
  | nothing {word : List Char} : n.fragments.values = [] → Takes n word word
  | fragment {fragment : String} (rest : List Char) :
      fragment ∈ n.fragments.values → Takes n (fragment.toList ++ rest) rest

/-- A word may end on a node that is flagged as terminating, or that leads nowhere. -/
def Node.MayEnd (n : Node) : Prop := n.terminating = true ∨ n.links.values = []

instance (n : Node) : Decidable n.MayEnd := inferInstanceAs (Decidable (_ ∨ _))

theorem Node.isTerminating_iff {n : Node} : n.isTerminating = true ↔ n.MayEnd := by
  rw [isTerminating, Bool.or_eq_true, n.links.isEmpty_iff, MayEnd]

/-- The words of a node: it takes something off the front, and then nothing is left and a word may end
here, or a node that it leads to accepts what is left. -/
inductive Graph.Accepts (g : Graph) : Node → List Char → Prop
  | stop {n : Node} {word : List Char} :
      n.Takes word [] → n.MayEnd → Accepts g n word
  | follow {n next : Node} {word rest : List Char} {target : NodeId} :
      n.Takes word rest → target ∈ n.links.values → g.node? target = some next →
      Accepts g next rest → Accepts g n word

theorem Node.Takes.suffix {n : Node} {word rest : List Char} (takes : n.Takes word rest) :
    rest <:+ word := by
  cases takes with
  | nothing => exact List.suffix_refl _
  | fragment rest member => exact List.suffix_append _ rest

/-- A node with more fragments takes what one with fewer takes, unless it gets its first ones. -/
theorem Node.Takes.mono {n m : Node} {word rest : List Char}
    (silent : n.fragments.values = [] → m.fragments.values = [])
    (more : n.fragments.values ⊆ m.fragments.values) (takes : n.Takes word rest) : m.Takes word rest := by
  cases takes with
  | nothing empty => exact .nothing (silent empty)
  | fragment rest member => exact .fragment rest (more member)

namespace Graph

/-- Related nodes of two graphs, of which the second can do whatever the first can: it takes what that one
takes, a word may end on it, and its links lead to related nodes. -/
structure Simulation (g h : Graph) (rel : Node → Node → Prop) : Prop where
  takes : ∀ {n m}, rel n m → ∀ {word rest}, n.Takes word rest → m.Takes word rest
  ends : ∀ {n m}, rel n m → n.MayEnd → m.MayEnd
  links : ∀ {n m}, rel n m → ∀ target ∈ n.links.values, ∀ next, g.node? target = some next →
    ∃ other ∈ m.links.values, ∃ there, h.node? other = some there ∧ rel next there

theorem Simulation.accepts {g h : Graph} {rel : Node → Node → Prop} (simulation : g.Simulation h rel)
    {n m : Node} {word : List Char} (accepted : g.Accepts n word) (related : rel n m) :
    h.Accepts m word := by
  induction accepted generalizing m with
  | stop takes ends => exact .stop (simulation.takes related takes) (simulation.ends related ends)
  | follow takes linked found _ ih =>
    obtain ⟨other, further, there, atOther, later⟩ := simulation.links related _ linked _ found
    exact .follow (simulation.takes related takes) further atOther (ih later)

end Graph

namespace Branch

theorem mem_remainders_iff (b : Branch) {rest : List Char} :
    rest ∈ b.remainders ↔ b.node.Takes b.rest rest := by
  have filled : b.node.fragments.isEmpty = true ↔ b.node.fragments.values = [] :=
    b.node.fragments.isEmpty_iff
  rw [remainders]
  split
  · rename_i empty
    rw [List.mem_singleton]
    constructor
    · rintro rfl
      exact .nothing (filled.mp empty)
    · intro takes
      generalize b.rest = word at takes
      cases takes with
      | nothing => rfl
      | fragment rest member =>
        rw [filled.mp empty] at member
        exact absurd member List.not_mem_nil
  · rename_i nonempty
    rw [List.mem_filterMap]
    constructor
    · rintro ⟨fragment, member, taken⟩
      rw [← List.isPrefixOf?_eq_some_iff_append_eq.mp taken]
      exact .fragment rest member
    · intro takes
      generalize b.rest = word at takes ⊢
      cases takes with
      | nothing empty => exact absurd (filled.mpr empty) nonempty
      | fragment rest member => exact ⟨_, member, List.isPrefixOf?_eq_some_iff_append_eq.mpr rfl⟩

theorem accepts_iff (b : Branch) :
    b.accepts = true ↔ b.node.MayEnd ∧ b.node.Takes b.rest [] := by
  simp only [accepts, Bool.and_eq_true, List.any_eq_true, List.isEmpty_iff, ← mem_remainders_iff,
    Node.isTerminating_iff]
  constructor
  · rintro ⟨ends, rest, member, rfl⟩
    exact ⟨ends, member⟩
  · rintro ⟨ends, member⟩
    exact ⟨ends, [], member, rfl⟩

/-- The links of a branch, each with one of the remainders. -/
def moves (b : Branch) : List (List Char × NodeId) :=
  b.remainders.flatMap (fun rest => b.node.links.values.map (fun target => (rest, target)))

theorem mem_moves_iff (b : Branch) {rest : List Char} {target : NodeId} :
    (rest, target) ∈ b.moves ↔ b.node.Takes b.rest rest ∧ target ∈ b.node.links.values := by
  simp [moves, mem_remainders_iff]

end Branch

end PseudoWord
