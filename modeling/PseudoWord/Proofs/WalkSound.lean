import PseudoWord.Proofs.Contract
import PseudoWord.Proofs.Language

namespace PseudoWord

variable {σ : Type} [Source σ]

/-- A draw from a sound set gives one of its items, and nothing only when there is none. -/
theorem WeightedSet.Sound.ensures_choose [BoundedSource σ] {α : Type} {s : WeightedSet α}
    (sound : s.Sound) :
    Ensures (s.choose : Draws σ (Option α)).run
      (Answers (fun choice => (choice = none ∧ s.values = []) ∨ ∃ item ∈ s.values, choice = some item)) := by
  rw [choose]
  split
  · rename_i empty
    exact ensures_draws_pure (.inl ⟨rfl, s.isEmpty_iff.mp empty⟩)
  · rename_i filled
    refine (ensures_range 0 (s.total - 1)).draws_bind (fun _ _ => trivial) fun draw bounds => ?_
    have positive := sound.total_pos (Bool.eq_false_iff.mpr filled)
    have one : 1 ≤ s.total := UInt64.le_iff_toNat_le.mpr (UInt64.lt_iff_toNat_lt.mp positive)
    have below : draw < s.total :=
      UInt64.lt_of_le_of_lt bounds.2 (UInt64.sub_lt (by decide) one)
    obtain ⟨item, member, picked⟩ := sound.sample_of_lt below
    exact ensures_draws_pure (.inr ⟨item, member, picked⟩)

theorem Node.ensures_stops (n : Node) :
    Ensures (n.stops : Draws σ Bool).run (Answers (fun stop => stop = true → n.MayEnd)) := by
  rw [stops]
  split
  · rename_i linkless
    exact ensures_draws_pure (fun _ => .inr (n.links.isEmpty_iff.mp linkless))
  · split
    · rename_i flagged
      exact ensures_answers _ (fun _ _ => .inl flagged)
    · exact ensures_draws_pure (fun impossible => Bool.noConfusion impossible)

theorem Request.ensures_stopsAfter (r : Request) (origin current : Node) (length : Nat) :
    Ensures (r.stopsAfter origin current length : Draws σ Bool).run
      (Answers (fun stop => stop = true → current.MayEnd)) := by
  have long : Ensures (r.stopsLong origin current length : Draws σ Bool).run
      (Answers (fun stop => stop = true → current.MayEnd)) := by
    rw [stopsLong]
    split
    · rename_i ready
      have flagged := (Bool.and_eq_true_iff.mp ready).1
      exact ensures_answers _ (fun _ _ => .inl flagged)
    · exact ensures_draws_pure (fun impossible => Bool.noConfusion impossible)
  rw [stopsAfter]
  refine long.draws_bind (fun _ _ => trivial) fun stop holds => ?_
  split
  · rename_i stopped
    exact ensures_draws_pure (fun _ => holds stopped)
  · exact current.ensures_stops

/-- What a visit to a node may emit: one of its fragments, or nothing when it has none. -/
def Node.Emits (n : Node) (choice : Option String) : Prop :=
  (choice = none ∧ n.fragments.values = []) ∨ ∃ fragment ∈ n.fragments.values, choice = some fragment

namespace Graph

/-- What may follow a visit to a node: nothing where a word may end, or a word of a node that it
leads to. -/
inductive Continues (g : Graph) (n : Node) : List Char → Prop
  | stop : n.MayEnd → Continues g n []
  | follow {next : Node} {rest : List Char} {target : NodeId} :
      target ∈ n.links.values → g.node? target = some next → g.Accepts next rest → Continues g n rest

theorem Accepts.of_continues {g : Graph} {n : Node} {word rest : List Char}
    (takes : n.Takes word rest) (continues : g.Continues n rest) : g.Accepts n word := by
  cases continues with
  | stop ends => exact .stop takes ends
  | follow linked found accepted => exact .follow takes linked found accepted

/-- Text that a walk has emitted on the way to a node, its own fragment included: whatever may
follow this visit makes a word of the origin. -/
def Leads (g : Graph) (origin current : Node) (text : String) : Prop :=
  ∀ rest, g.Continues current rest → g.Accepts origin (text.toList ++ rest)

theorem Leads.accepts {g : Graph} {origin current : Node} {text : String}
    (leads : g.Leads origin current text) (ends : current.MayEnd) :
    g.Accepts origin text.toList := by
  have accepted := leads [] (.stop ends)
  rwa [List.append_nil] at accepted

/-- What a node emits is something that a visit may take off the front of a word. -/
theorem takes_emitted {n : Node} {choice : Option String} (emits : n.Emits choice) (rest : List Char) :
    n.Takes ((choice.getD "").toList ++ rest) rest := by
  rcases emits with ⟨rfl, silent⟩ | ⟨fragment, member, rfl⟩
  · exact .nothing silent
  · exact .fragment rest member

theorem Leads.step {g : Graph} {origin current next : Node} {text : String} {target : NodeId}
    {choice : Option String} (leads : g.Leads origin current text)
    (linked : target ∈ current.links.values) (found : g.node? target = some next)
    (emits : next.Emits choice) : g.Leads origin next (text ++ choice.getD "") := by
  intro rest continues
  rw [String.toList_append, List.append_assoc]
  exact leads _ (.follow linked found (.of_continues (takes_emitted emits rest) continues))

/-- A walk under way: by the visits of its trail, the latest first, it has come from its origin to a
node, and it has emitted a text. -/
inductive Path (g : Graph) (origin : Node) : Node → List Visit → String → Prop
  | start {choice : Option String} :
      origin.Emits choice → Path g origin origin [⟨origin.id, choice⟩] (choice.getD "")
  | step {current next : Node} {trail : List Visit} {text : String} {target : NodeId}
      {choice : Option String} :
      Path g origin current trail text → target ∈ current.links.values → g.node? target = some next →
      next.Emits choice → Path g origin next (⟨next.id, choice⟩ :: trail) (text ++ choice.getD "")

theorem Path.leads {g : Graph} {origin current : Node} {trail : List Visit} {text : String}
    (path : g.Path origin current trail text) : g.Leads origin current text := by
  induction path with
  | start emits => exact fun rest continues => .of_continues (takes_emitted emits rest) continues
  | step _ linked found emits ih => exact ih.step linked found emits

/-- How a walk from a node may end with these visits: with what they emitted where a word may end, at a link
to no node, or after as many steps as it may make. -/
inductive Ends (g : Graph) (r : Request) (origin : Node) (trail : List Visit) : Ending → Prop
  | word {last : Node} {text : String} :
      g.Path origin last trail text → last.MayEnd → Ends g r origin trail (.word text)
  | unknownNode {last : Node} {text : String} {id : NodeId} :
      g.Path origin last trail text → id ∈ last.links.values → g.node? id = none →
      Ends g r origin trail (.unknownNode id)
  | tooLong : trail.length = r.maxSteps.toNat + 1 → Ends g r origin trail (.tooLong r.maxSteps)
  | failed (cause : Failure) : Ends g r origin trail (.failed cause)

end Graph

/-- A walk that went from a node along links, and ended as it may. -/
structure Walk.IsPath (g : Graph) (r : Request) (n : Node) (walk : Walk) : Prop where
  origin : walk.origin = n.id
  ends : g.Ends r n walk.trail walk.ending

theorem Walk.IsPath.word {g : Graph} {r : Request} {n : Node} {walk : Walk} {text : String}
    (isPath : walk.IsPath g r n) (made : walk.ending = .word text) :
    ∃ last, g.Path n last walk.trail text ∧ last.MayEnd := by
  have ends := isPath.ends
  rw [made] at ends
  cases ends with
  | word path ends => exact ⟨_, path, ends⟩

/-- A walk that made a word of its origin, or none. -/
def Walk.MakesWordOf (g : Graph) (origin : Node) (walk : Walk) : Prop :=
  match walk.ending with
  | .word text => g.Accepts origin text.toList
  | _ => True

theorem Walk.IsPath.makesWordOf {g : Graph} {r : Request} {origin : Node} {walk : Walk}
    (isPath : walk.IsPath g r origin) : walk.MakesWordOf g origin := by
  rw [MakesWordOf]
  split
  · rename_i text made
    obtain ⟨last, path, ends⟩ := isPath.word made
    exact path.leads.accepts ends
  · trivial

section Walks

variable [BoundedSource σ] {g : Graph} {r : Request}

theorem Walk.ensures_follow (nodes : ∀ id n, g.node? id = some n → n.Sound) {origin : Node}
    (budget : Nat) {current : Node} {trail : List Visit} {text : String} (sound : current.Sound)
    (path : g.Path origin current trail text) (steps : trail.length + budget = r.maxSteps.toNat + 1) :
    Ensures (follow g r origin budget current trail text : Sampler σ Walk) (IsPath g r origin) := by
  rw [follow]
  refine sound.links.ensures_choose.bind fun outcome chosen => ?_
  match outcome, chosen with
  | .error cause, _ => exact ensures_pure ⟨rfl, .failed cause⟩
  | .ok none, chosen =>
    have linkless : current.links.values = [] := by simpa [Answers] using chosen
    exact ensures_pure ⟨rfl, .word path (.inr linkless)⟩
  | .ok (some target), chosen =>
    have linked : target ∈ current.links.values := by simpa [Answers] using chosen
    dsimp only
    cases found : g.node? target with
    | none => exact ensures_pure ⟨rfl, .unknownNode path linked found⟩
    | some next =>
      cases budget with
      | zero => exact ensures_pure ⟨rfl, .tooLong steps⟩
      | succ budget =>
        have nextSound := nodes target next found
        refine nextSound.fragments.ensures_choose.bind fun outcome emits => ?_
        match outcome, emits with
        | .error cause, _ => exact ensures_pure ⟨rfl, .failed cause⟩
        | .ok fragment, emits =>
          have further := path.step linked found emits
          have steps : trail.length + 1 + budget = r.maxSteps.toNat + 1 := by omega
          refine (r.ensures_stopsAfter origin next _).bind fun outcome ends => ?_
          match outcome, ends with
          | .error cause, _ => exact ensures_pure ⟨rfl, .failed cause⟩
          | .ok true, ends => exact ensures_pure ⟨rfl, .word further (ends rfl)⟩
          | .ok false, _ => exact ensures_follow nodes budget nextSound further steps

theorem Node.ensures_isPath (nodes : ∀ id n, g.node? id = some n → n.Sound) {n : Node}
    (sound : n.Sound) : Ensures (n.walk g r : Sampler σ Walk) (Walk.IsPath g r n) := by
  rw [walk]
  refine sound.fragments.ensures_choose.bind fun outcome emits => ?_
  match outcome, emits with
  | .error cause, _ => exact ensures_pure ⟨rfl, .failed cause⟩
  | .ok fragment, emits =>
    have path : g.Path n n [⟨n.id, fragment⟩] (fragment.getD "") := .start emits
    refine n.ensures_stops.bind fun outcome ends => ?_
    match outcome, ends with
    | .error cause, _ => exact ensures_pure ⟨rfl, .failed cause⟩
    | .ok true, ends => exact ensures_pure ⟨rfl, .word path (ends rfl)⟩
    | .ok false, _ => exact Walk.ensures_follow nodes _ sound path (Nat.add_comm 1 _)

/-- Every walk makes a word of the node that it starts on, or none. -/
theorem Node.ensures_walk (nodes : ∀ id n, g.node? id = some n → n.Sound) {n : Node}
    (sound : n.Sound) : Ensures (n.walk g r : Sampler σ Walk) (Walk.MakesWordOf g n) :=
  (ensures_isPath nodes sound).mono fun _ isPath => isPath.makesWordOf

end Walks

end PseudoWord
