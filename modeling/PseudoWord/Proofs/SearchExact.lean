import PseudoWord.Demo
import PseudoWord.Proofs.SearchCourse

namespace PseudoWord

namespace Graph

/-- Acceptance by a path on which no link leads to the point that is barred: to this id, with so many
characters left. -/
inductive AcceptsAvoiding (g : Graph) (barred : NodeId × Nat) : Node → List Char → Prop
  | stop {n : Node} {word : List Char} :
      n.Takes word [] → n.MayEnd → AcceptsAvoiding g barred n word
  | follow {n next : Node} {word rest : List Char} {target : NodeId} :
      n.Takes word rest → target ∈ n.links.values → (target, rest.length) ≠ barred →
      g.node? target = some next → AcceptsAvoiding g barred next rest → AcceptsAvoiding g barred n word

theorem AcceptsAvoiding.accepts {g : Graph} {barred : NodeId × Nat} {n : Node} {word : List Char}
    (accepted : g.AcceptsAvoiding barred n word) : g.Accepts n word := by
  induction accepted with
  | stop takes ends => exact .stop takes ends
  | follow takes linked _ found _ ih => exact .follow takes linked found ih

end Graph

/-- Whatever a visit to `m` can do, a visit to `n` can do. -/
structure Node.Covers (n m : Node) : Prop where
  takes : ∀ word rest, m.Takes word rest → n.Takes word rest
  ends : m.MayEnd → n.MayEnd
  links : m.links.values ⊆ n.links.values

theorem Node.Covers.refl (n : Node) : n.Covers n :=
  ⟨fun _ _ takes => takes, fun ends => ends, fun _ linked => linked⟩

theorem Node.Covers.trans {n m k : Node} (first : n.Covers m) (second : m.Covers k) : n.Covers k :=
  ⟨fun word rest takes => first.takes word rest (second.takes word rest takes),
    fun ends => first.ends (second.ends ends), fun _ linked => first.links (second.links linked)⟩

theorem Node.Covers.acceptsAvoiding {g : Graph} {barred : NodeId × Nat} {n m : Node} {word : List Char}
    (covers : n.Covers m) (accepted : g.AcceptsAvoiding barred m word) :
    g.AcceptsAvoiding barred n word := by
  cases accepted with
  | stop takes ends => exact .stop (covers.takes _ _ takes) (covers.ends ends)
  | follow takes linked free found later =>
    exact .follow (covers.takes _ _ takes) (covers.links linked) free found later

namespace Search

/-- A branch that was tried: it does not accept, and all its links were followed. -/
structure Tried (s : Search) (node : Node) (rest : List Char) : Prop where
  rejects : ¬ (node.MayEnd ∧ node.Takes rest [])
  followed : ∀ left target, node.Takes rest left → target ∈ node.links.values →
    (target, left.length) ∈ s.seen

/-- A branch that still waits, or was tried. -/
def Handled (s : Search) (b : Branch) : Prop := b ∈ s.pending ∨ s.Tried b.node b.rest

/-- What holds between two branches of a search that began with `first`, whatever the graph holds under
the id of `first`: this branch and every point that was noted after it is waiting or was tried. -/
structure Invariant (g : Graph) (first : Branch) (s : Search) : Prop where
  within : s.Within first.rest
  begun : s.Handled first
  marked : first.point ∈ s.seen
  noted : ∀ id node rest, rest <:+ first.rest → g.node? id = some node →
    (id, rest.length) ≠ first.point → (id, rest.length) ∈ s.seen → s.Handled ⟨id, node, rest⟩

theorem invariant_start (g : Graph) (n : Node) (word : List Char) :
    Invariant g ⟨n.id, n, word⟩ (start n word) := by
  refine ⟨within_start n word, .inl List.mem_cons_self, ?_, fun id node rest _ _ other noted => ?_⟩
  · simp [start, Branch.point]
  · have same : n.id = id ∧ word.length = rest.length := by simpa [start] using noted
    exact absurd (Prod.ext same.1.symm same.2.symm) other

/-- Two remainders of a word with the same length are the same. -/
theorem suffix_ext {word one other : List Char} (first : one <:+ word) (second : other <:+ word)
    (length : one.length = other.length) : one = other :=
  (List.suffix_of_suffix_length_le first second length.le).eq_of_length length

section Step

variable {g : Graph} {first b : Branch} {pending : List Branch} {seen : Std.HashSet (NodeId × Nat)}
  {moves : List (List Char × NodeId)}

/-- To try the next branch leaves no branch behind. -/
theorem Handled.step {c : Branch} (handled : Handled ⟨b :: pending, seen⟩ c)
    (rejects : b.accepts = false) (same : ∀ move, move ∈ moves ↔ move ∈ b.moves) :
    (followAll g moves ⟨pending, seen⟩).Handled c := by
  rcases handled with waits | tried
  · rcases List.mem_cons.mp waits with equal | later
    · subst equal
      refine .inr ⟨fun accepted => ?_, fun left target takes linked => ?_⟩
      · rw [c.accepts_iff.mpr accepted] at rejects
        cases rejects
      · exact (mem_seen_followAll g _ _).mpr
          (.inr ⟨(left, target), (same _).mpr (c.mem_moves_iff.mpr ⟨takes, linked⟩), rfl⟩)
    · exact .inl (pending_followAll_of_mem g _ _ later)
  · exact .inr ⟨tried.rejects, fun left target takes linked =>
      (mem_seen_followAll g _ _).mpr (.inl (tried.followed left target takes linked))⟩

theorem Invariant.step (inv : Invariant g first ⟨b :: pending, seen⟩) (rejects : b.accepts = false)
    (same : ∀ move, move ∈ moves ↔ move ∈ b.moves) :
    Invariant g first (followAll g moves ⟨pending, seen⟩) := by
  refine ⟨inv.within.followAll same, inv.begun.step rejects same,
    (mem_seen_followAll g _ _).mpr (.inl inv.marked), fun id node rest suffix found other noted => ?_⟩
  by_cases old : (id, rest.length) ∈ seen
  · exact (inv.noted id node rest suffix found other old).step rejects same
  · obtain ⟨move, moved, point, waits⟩ := pending_followAll_of_fresh g moves _ old noted found
    have sameId : id = move.2 := congrArg Prod.fst point
    have left := inv.within.suffix_of_mem same move moved
    have whole : rest = move.1 := suffix_ext suffix left (congrArg Prod.snd point)
    subst sameId
    subst whole
    exact .inl waits

end Step

section Course

variable {g : Graph} {s last : Search} {tried added : List Branch}

theorem Invariant.along {first : Branch} (course : Course g s tried added last)
    (inv : Invariant g first s) : Invariant g first last := by
  induction course with
  | stay s => exact inv
  | next rejects same _ _ ih => exact ih (inv.step rejects same)

/-- Once no branch is left, no branch that was tried accepts what it stands for, but for paths that lead
back to where the search began. -/
theorem Invariant.exhausted {g : Graph} {first : Branch} {s : Search} (inv : Invariant g first s)
    (done : s.pending = []) {node : Node} {rest : List Char} (tried : s.Tried node rest)
    (suffix : rest <:+ first.rest) : ¬ g.AcceptsAvoiding first.point node rest := by
  intro accepted
  induction accepted with
  | stop takes ends => exact tried.rejects ⟨ends, takes⟩
  | @follow n next word left target takes linked free atTarget _ ih =>
    have inside := takes.suffix.trans suffix
    have noted := tried.followed left target takes linked
    rcases inv.noted target next left inside atTarget free noted with waits | tried
    · exact absurd (done ▸ waits) List.not_mem_nil
    · exact ih tried inside

/-- What a branch at the end of a search accepts shows that one at its beginning accepts. What was noted
before is not reached again. -/
theorem Course.acceptsAvoiding {barred : NodeId × Nat} (course : Course g s tried added last)
    (noted : barred ∈ s.seen)
    (accepted : ∃ b ∈ last.pending, g.AcceptsAvoiding barred b.node b.rest) :
    ∃ b ∈ s.pending, g.AcceptsAvoiding barred b.node b.rest := by
  induction course with
  | stay s => exact accepted
  | @next b pending fresh tried added seen moves last _ same _ _ ih =>
    obtain ⟨c, member, path⟩ := ih ((mem_seen_followAll g _ _).mpr (.inl noted)) accepted
    rcases mem_pending_followAll g moves _ member with old | ⟨moved, found, fresh⟩
    · exact ⟨c, List.mem_cons_of_mem b old, path⟩
    · obtain ⟨takes, linked⟩ := b.mem_moves_iff.mp ((same _).mp moved)
      have free : c.point ≠ barred := fun equal => fresh (equal ▸ noted)
      exact ⟨b, List.mem_cons_self, .follow takes linked free found path⟩

/-- Whatever the order in which links are followed, a search that ends answers whether the word is made
without coming back to where the search began. -/
theorem Course.answer_iff {n : Node} {word : List Char} {answer : Bool}
    (course : Course g (start n word) tried added last) (answers : last.Answers answer) :
    answer = true ↔ g.AcceptsAvoiding (n.id, word.length) n word := by
  have begun := invariant_start g n word
  cases answers with
  | exhausted seen =>
    have inv := begun.along course
    refine iff_of_false Bool.false_ne_true ?_
    rcases inv.begun with waits | tried
    · exact absurd waits List.not_mem_nil
    · exact inv.exhausted rfl tried (List.suffix_refl _)
  | accepted pending seen accepts =>
    obtain ⟨ends, takes⟩ := (Branch.accepts_iff _).mp accepts
    obtain ⟨c, member, path⟩ :=
      course.acceptsAvoiding begun.marked ⟨_, List.mem_cons_self, .stop takes ends⟩
    cases List.mem_singleton.mp member
    exact iff_of_true rfl path

end Course

/-- The acceptor makes a search that nothing cuts off, and gives its answer. -/
theorem exists_answered (n : Node) (g : Graph) (word : String) :
    ∃ tried added last, Course g (start n word.toList) tried added last ∧
      last.Answers (n.canMake g word) := by
  refine exists_course (within_start n word.toList) ?_
  exact Nat.add_le_add_left (card_unseen_le g word.toList (start n word.toList)) 1

end Search

/-- What the search finds, whatever node the graph holds under the id of the first one: the words that
are made without coming back to this id with all of the word left. -/
theorem Node.canMake_iff_avoiding (n : Node) (g : Graph) (word : String) :
    n.canMake g word = true ↔ g.AcceptsAvoiding (n.id, word.length) n word.toList := by
  obtain ⟨tried, added, last, course, answers⟩ := Search.exists_answered n g word
  rw [← String.length_toList]
  exact course.answer_iff answers

theorem Node.accepts_of_canMake {n : Node} {g : Graph} {word : String}
    (made : n.canMake g word = true) : g.Accepts n word.toList :=
  ((n.canMake_iff_avoiding g word).mp made).accepts

/-- Where the graph holds nothing under the id of `n` that `n` does not cover, a path that comes back
there can begin there. -/
theorem Graph.Accepts.avoiding {g : Graph} {n m : Node} {word rest : List Char}
    (covers : ∀ other, g.node? n.id = some other → n.Covers other) (accepted : g.Accepts m rest)
    (suffix : rest <:+ word) :
    g.AcceptsAvoiding (n.id, word.length) m rest ∨ g.AcceptsAvoiding (n.id, word.length) n word := by
  induction accepted with
  | stop takes ends => exact .inl (.stop takes ends)
  | @follow m next rest left target takes linked found _ ih =>
    have inside := takes.suffix.trans suffix
    rcases ih inside with later | whole
    · by_cases back : (target, left.length) = (n.id, word.length)
      · have all : left = word := inside.eq_of_length (congrArg Prod.snd back)
        have home : target = n.id := congrArg Prod.fst back
        subst all
        subst home
        exact .inr ((covers next found).acceptsAvoiding later)
      · exact .inl (.follow takes linked back found later)
    · exact .inr whole

/-- The search is exact for a node that the graph holds under its own id. -/
theorem Node.canMake_iff {n : Node} {g : Graph} (own : g.node? n.id = some n) (word : String) :
    n.canMake g word = true ↔ g.Accepts n word.toList := by
  refine ⟨accepts_of_canMake, fun accepted => (n.canMake_iff_avoiding g word).mpr ?_⟩
  have covers (other : Node) (found : g.node? n.id = some other) : n.Covers other :=
    Option.some.inj (own.symm.trans found) ▸ .refl n
  rw [← String.length_toList]
  rcases accepted.avoiding covers (List.suffix_refl _) with path | path <;> exact path

/-- A word is valid when one of the start nodes that the graph remembers can make it. -/
theorem Graph.isValid_iff {g : Graph} {word : String} :
    g.isValid word = .ok true ↔ ∃ starts, g.starts = some starts ∧
      ∃ id ∈ starts, ∃ n, g.node? id = some n ∧ n.canMake g word = true := by
  rw [isValid, initializers]
  cases g.starts with
  | none =>
    constructor
    · intro impossible
      cases impossible
    · rintro ⟨starts, impossible, _⟩
      cases impossible
  | some starts =>
    constructor
    · intro valid
      obtain ⟨n, member, made⟩ := List.any_eq_true.mp (Except.ok.inj valid)
      obtain ⟨id, listed, found⟩ := List.mem_filterMap.mp member
      exact ⟨starts, rfl, id, listed, n, found, made⟩
    · rintro ⟨_, same, id, listed, n, found, made⟩
      cases same
      have some : (starts.filterMap g.node?).any (·.canMake g word) = true :=
        List.any_eq_true.mpr ⟨n, List.mem_filterMap.mpr ⟨id, listed, found⟩, made⟩
      exact congrArg Except.ok some

/-- The sample table knows a word that begins at its first node and ends at its third. -/
theorem Demo.valid_kan : (Graph.ofTable sampleTable).isValid "kan" = .ok true := by
  have starts : (Graph.ofTable sampleTable).starts = some [⟨0⟩, ⟨1⟩] := by decide +kernel
  have first : ∃ n, (Graph.ofTable sampleTable).node? ⟨0⟩ = some n ∧ n.id = ⟨0⟩ ∧
      "ka" ∈ n.fragments.values ∧ ⟨2⟩ ∈ n.links.values := by decide +kernel
  have third : ∃ n, (Graph.ofTable sampleTable).node? ⟨2⟩ = some n ∧ "n" ∈ n.fragments.values ∧
      n.MayEnd := by decide +kernel
  obtain ⟨n, found, own, ka, linked⟩ := first
  obtain ⟨last, atLast, fragment, ends⟩ := third
  have accepted : (Graph.ofTable sampleTable).Accepts n "kan".toList :=
    .follow (.fragment ['n'] ka) linked atLast (.stop (.fragment [] fragment) ends)
  have made := (Node.canMake_iff (own.symm ▸ found) "kan").mpr accepted
  exact Graph.isValid_iff.mpr ⟨_, starts, ⟨0⟩, List.mem_cons_self, n, found, made⟩

end PseudoWord
