import PseudoWord.Proofs.GeneratedWords

namespace PseudoWord

/-- Whether a trail, its latest visit first, leads back to a node with nothing emitted before. -/
def Visit.silentlyBack (home : NodeId) : List Visit → Bool
  | [] => false
  | visit :: earlier =>
    silentlyBack home earlier ||
      (visit.node == home && !earlier.isEmpty && earlier.all (·.text.isEmpty))

/-- Whether a walk came back to the id of its origin before it had emitted anything. -/
def Walk.silentlyBack (walk : Walk) : Bool := Visit.silentlyBack walk.origin walk.trail

/-- A node that has fragments emits one of them, and none of them is empty. -/
theorem Node.Sound.getD_ne_empty {n : Node} (sound : n.Sound) (filled : n.fragments.isEmpty = false)
    {choice : Option String} (emits : n.Emits choice) : choice.getD "" ≠ "" := by
  rcases emits with ⟨_, silent⟩ | ⟨fragment, member, rfl⟩
  · exact absurd (filled.symm.trans (n.fragments.isEmpty_iff.mpr silent)) Bool.false_ne_true
  · rintro rfl
    exact absurd (sound.words "" member) Bool.false_ne_true

namespace Graph

variable {g : Graph} {origin current : Node} {trail : List Visit} {text : String}

theorem Path.ne_nil (path : g.Path origin current trail text) : trail ≠ [] := by
  cases path <;> exact List.cons_ne_nil _ _

theorem Path.all_isEmpty_iff (path : g.Path origin current trail text) :
    trail.all (·.text.isEmpty) = true ↔ text = "" := by
  induction path with
  | start emits => simp [Visit.text]
  | step _ _ _ _ ih =>
    rw [List.all_cons, Bool.and_eq_true, ih, String.append_eq_empty_iff, and_comm, Visit.text,
      String.isEmpty_iff]

/-- The first visit to a node that has fragments is not silent. -/
theorem Path.text_ne_empty (sound : origin.Sound) (filled : origin.fragments.isEmpty = false)
    (path : g.Path origin current trail text) : text ≠ "" := by
  induction path with
  | start emits => exact sound.getD_ne_empty filled emits
  | step _ _ _ _ ih => exact fun silent => ih (String.append_eq_empty_iff.mp silent).1

theorem Path.not_silentlyBack (sound : origin.Sound) (filled : origin.fragments.isEmpty = false)
    (path : g.Path origin current trail text) : Visit.silentlyBack origin.id trail = false := by
  induction path with
  | start emits => simp [Visit.silentlyBack]
  | step path _ _ _ ih =>
    have spoken := Bool.eq_false_iff.mpr
      (mt path.all_isEmpty_iff.mp (path.text_ne_empty sound filled))
    rw [Visit.silentlyBack, ih, spoken, Bool.and_false, Bool.or_false]

/-- After a walk that did not come back silently, what is accepted from its last node without leading
back is accepted from its origin without leading back. -/
theorem Path.acceptsAvoiding (own : ∀ id m, g.node? id = some m → m.id = id)
    (path : g.Path origin current trail text)
    (away : Visit.silentlyBack origin.id trail = false) {rest : List Char} {whole : Nat}
    (length : whole = text.length + rest.length)
    (later : ∀ word, current.Takes word rest → g.AcceptsAvoiding (origin.id, whole) current word) :
    g.AcceptsAvoiding (origin.id, whole) origin (text.toList ++ rest) := by
  induction path generalizing rest with
  | start emits => exact later _ (takes_emitted emits rest)
  | @step current next trail text target choice path linked found emits ih =>
    obtain ⟨before, here⟩ := Bool.or_eq_false_iff.mp away
    have left : whole = text.length + ((choice.getD "").toList ++ rest).length := by
      rw [length, List.length_append, String.length_append, String.length_toList, Nat.add_assoc]
    rw [String.toList_append, List.append_assoc]
    refine ih before left fun word takes => ?_
    have free : (target, ((choice.getD "").toList ++ rest).length) ≠ (origin.id, whole) := by
      intro barred
      obtain ⟨home, same⟩ := Prod.mk.inj barred
      have silent : text = "" := String.length_eq_zero_iff.mp (by omega)
      have id : next.id = origin.id := (own target next found).trans home
      simp [id, path.ne_nil, path.all_isEmpty_iff.mpr silent] at here
    exact .follow takes linked free found (later _ (takes_emitted emits rest))

end Graph

/-- The word of a walk that did not come back silently is found by the search, whatever the graph
holds under the id of the node. -/
theorem Walk.IsPath.canMake {g : Graph} {r : Request} {n : Node} {walk : Walk} {word : String}
    (isPath : walk.IsPath g r n) (own : ∀ id m, g.node? id = some m → m.id = id)
    (made : walk.result = .ok (some word)) (away : walk.silentlyBack = false) :
    n.canMake g word = true := by
  obtain ⟨last, path, ends⟩ := isPath.word (result_eq_word made)
  have home : Visit.silentlyBack n.id walk.trail = false := isPath.origin ▸ away
  rw [n.canMake_iff_avoiding g word, ← List.append_nil word.toList]
  exact path.acceptsAvoiding own home rfl fun _ takes => .stop takes ends

namespace Graph

/-- A silent node with one link can only pass on what it is asked for. -/
theorem AcceptsAvoiding.next_of_silent {g : Graph} {barred : NodeId × Nat} {n : Node}
    {word : List Char} {target : NodeId} (accepted : g.AcceptsAvoiding barred n word)
    (silent : n.fragments.values = []) (leads : n.links.values = [target])
    (goes : ¬ n.MayEnd) : (target, word.length) ≠ barred ∧
      ∃ next, g.node? target = some next ∧ g.AcceptsAvoiding barred next word := by
  cases accepted with
  | stop _ ends => exact absurd ends goes
  | follow takes linked free found later =>
    cases takes with
    | fragment _ member => exact absurd (silent ▸ member) List.not_mem_nil
    | nothing _ =>
      cases List.mem_singleton.mp (leads ▸ linked)
      exact ⟨free, _, found, later⟩

/-- Walks and the acceptor on a graph that need not hold the node. The acceptor finds the words that can
be made without coming back to the id of the node with all of the word left, and that is what every walk
makes unless it comes back there silently. It finds all words of its walks when the node has fragments,
or when it covers whatever the graph holds under its id. -/
theorem foreign_words {σ : Type} [Source σ] [BoundedSource σ] {home g : Graph}
    (reachHome : Reachable home) (reach : Reachable g) {n : Node} (inside : n ∈ home.nodeList) :
    (∀ word : String, n.canMake g word = true ↔
        g.AcceptsAvoiding (n.id, word.length) n word.toList) ∧
      ∀ (r : Request) (s : σ) (walk : Walk) (word : String), ((n.walk g r).run s).1 = walk →
        walk.result = .ok (some word) →
          g.Accepts n word.toList ∧
          (walk.silentlyBack = true → n.fragments.isEmpty = true) ∧
          (walk.silentlyBack = false → n.canMake g word = true) ∧
          ((∀ m, g.node? n.id = some m → n.Covers m) → n.canMake g word = true) := by
  have wf := reach.wellFormed
  have sound : n.Sound := (reachHome.wellFormed.nodes _ n (reachHome.wellFormed.node?_self inside)).sound
  refine ⟨n.canMake_iff_avoiding g, ?_⟩
  rintro r s _ word rfl made
  have isPath := Node.ensures_isPath (g := g) (r := r)
    (fun id m found => (wf.nodes id m found).sound) sound s
  obtain ⟨last, path, ends⟩ := isPath.word (Walk.result_eq_word made)
  have accepts : g.Accepts n word.toList := path.leads.accepts ends
  refine ⟨accepts, fun back => ?_, fun away =>
    isPath.canMake (fun id m found => (wf.nodes id m found).id) made away, fun covers => ?_⟩
  · by_contra filled
    have away := path.not_silentlyBack sound (Bool.eq_false_iff.mpr filled)
    rw [Walk.silentlyBack, isPath.origin, away] at back
    cases back
  · rw [n.canMake_iff_avoiding g word, ← String.length_toList]
    rcases accepts.avoiding covers (List.suffix_refl _) with found | found <;> exact found

/-- A silent node on a graph that holds a fragment under its id, where a walk comes back to this id, but
not silently. -/
theorem foreign_words_spoken :
    ∃ n ∈ (ofTable ["N0 ; ; N1"]).nodeList,
      ((n.walk (ofTable ["N0 ; a ; O", "N1 ; b ; N0"]) Demo.request).run (Prompted.mk [])).1.result =
        .ok (some "ba") ∧
      n.canMake (ofTable ["N0 ; a ; O", "N1 ; b ; N0"]) "ba" = true := by
  have made : ∃ n ∈ (ofTable ["N0 ; ; N1"]).nodeList,
      ((n.walk (ofTable ["N0 ; a ; O", "N1 ; b ; N0"]) Demo.request).run (Prompted.mk [])).1.result =
        .ok (some "ba") ∧
      ((n.walk (ofTable ["N0 ; a ; O", "N1 ; b ; N0"]) Demo.request).run
        (Prompted.mk [])).1.silentlyBack = false := by decide +kernel
  obtain ⟨n, inside, made, away⟩ := made
  have words := (foreign_words (σ := Prompted) (.table _) (.table ["N0 ; a ; O", "N1 ; b ; N0"]) inside).2
  exact ⟨n, inside, made, (words Demo.request ⟨[]⟩ _ "ba" rfl made).2.2.1 away⟩

/-- Where the graph holds a fragment under the id of the silent node, and the only way there is silent
too, the acceptor takes this fragment for a word that was tried. -/
theorem foreign_word_refused :
    ∃ n ∈ (ofTable ["N0 ; ; N1"]).nodeList,
      ((n.walk (ofTable ["N0 ; a ; O", "N1 ; ; N0"]) Demo.request).run (Prompted.mk [])).1.result =
        .ok (some "a") ∧
      n.canMake (ofTable ["N0 ; a ; O", "N1 ; ; N0"]) "a" = false := by
  have made : ∃ n ∈ (ofTable ["N0 ; ; N1"]).nodeList,
      ((n.walk (ofTable ["N0 ; a ; O", "N1 ; ; N0"]) Demo.request).run (Prompted.mk [])).1.result =
        .ok (some "a") ∧
      n.id = ⟨0⟩ ∧ n.fragments.values = [] ∧ n.links.values = [⟨1⟩] ∧ ¬ n.MayEnd := by
    decide +kernel
  have between : ∃ m, (ofTable ["N0 ; a ; O", "N1 ; ; N0"]).node? ⟨1⟩ = some m ∧
      m.fragments.values = [] ∧ m.links.values = [⟨0⟩] ∧ ¬ m.MayEnd := by decide +kernel
  obtain ⟨n, inside, made, id, silent, leads, goes⟩ := made
  obtain ⟨m, found, silent', back, goes'⟩ := between
  refine ⟨n, inside, made, Bool.eq_false_iff.mpr fun accepted => ?_⟩
  obtain ⟨_, next, atNext, accepted⟩ :=
    ((n.canMake_iff_avoiding _ _).mp accepted).next_of_silent silent leads goes
  cases found.symm.trans atNext
  exact (accepted.next_of_silent silent' back goes').1 (id ▸ rfl)

end Graph

end PseudoWord
