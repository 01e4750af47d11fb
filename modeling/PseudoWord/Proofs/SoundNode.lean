import PseudoWord.Proofs.RunningTotals
import PseudoWord.Table.Import

namespace PseudoWord

namespace Node

/-- A node as the operations on graphs leave it: both sets are sound, and every fragment is a run of
word characters. -/
structure Sound (n : Node) : Prop where
  fragments : n.fragments.Sound
  links : n.links.Sound
  words : ∀ fragment ∈ n.fragments.values, isWordText fragment.toList = true

theorem sound_empty (id : NodeId) : (empty id).Sound :=
  ⟨WeightedSet.sound_empty, WeightedSet.sound_empty, fun _ member => absurd member List.not_mem_nil⟩

/-- A fragment that is no run of word characters is refused before its weight is looked at. -/
theorem addFragment_eq (n : Node) (fragment : String) (weight : Int64) :
    n.addFragment fragment weight =
      { n with
        fragments :=
          if isWordText fragment.toList then n.fragments.insert fragment weight else n.fragments } := by
  rw [addFragment, addFragment?, WeightedSet.insert]
  split
  · cases n.fragments.insert? fragment weight <;> rfl
  · rfl

theorem addLink_eq (n : Node) (target : NodeId) (weight : Int64) :
    n.addLink target weight = { n with links := n.links.insert target weight } := by
  rw [addLink, addLink?, WeightedSet.insert]
  cases n.links.insert? target weight <;> rfl

/-- The fragments that a row or a request may add, each with its weight. -/
def wordItems (items : List (String × Int64)) : List (String × Int64) :=
  items.filter (fun item => isWordText item.1.toList)

theorem foldl_addFragment (n : Node) (items : List (String × Int64)) :
    items.foldl (fun n item => n.addFragment item.1 item.2) n =
      { n with fragments := n.fragments.insertAll (wordItems items) } := by
  induction items generalizing n with
  | nil => rfl
  | cons item rest ih =>
    rw [List.foldl_cons, ih, addFragment_eq, wordItems, wordItems, List.filter_cons]
    split <;> rfl

theorem foldl_addLink (n : Node) (links : List (NodeId × Int64)) :
    links.foldl (fun n link => n.addLink link.1 link.2) n =
      { n with links := n.links.insertAll links } := by
  induction links generalizing n with
  | nil => rfl
  | cons link rest ih =>
    rw [List.foldl_cons, ih, addLink_eq]
    rfl

theorem ofFragments_eq (id : NodeId) (fragments : List String) :
    ofFragments id fragments =
      { empty id with
        fragments := WeightedSet.empty.insertAll (wordItems (fragments.map (fun text => (text, 1)))) } := by
  have fold := foldl_addFragment (empty id) (fragments.map (fun text => (text, 1)))
  rw [List.foldl_map] at fold
  exact fold

theorem extend_eq (n : Node) (fragments : List FragmentItem) (links : List (NodeId × Int64))
    (terminal : Bool) :
    n.extend fragments links terminal =
      { n with
        fragments :=
          n.fragments.insertAll (wordItems (fragments.map (fun item => (item.text, item.weight))))
        links := n.links.insertAll links
        terminating := terminal || (n.terminating || (n.links.insertAll links).isEmpty) } := by
  have fold := foldl_addFragment n (fragments.map (fun item => (item.text, item.weight)))
  rw [List.foldl_map] at fold
  rw [extend, fold, foldl_addLink]
  rfl

theorem words_insertAll {s : WeightedSet String} (sound : s.Sound)
    (words : ∀ fragment ∈ s.values, isWordText fragment.toList = true)
    (items : List (String × Int64)) :
    ∀ fragment ∈ (s.insertAll (wordItems items)).values, isWordText fragment.toList = true := by
  intro fragment member
  rcases WeightedSet.mem_values_insertAll sound member with old | ⟨item, added, same⟩
  · exact words fragment old
  · exact same ▸ (List.mem_filter.mp added).2

theorem Sound.addFragment {n : Node} (sound : n.Sound) (fragment : String) (weight : Int64) :
    (n.addFragment fragment weight).Sound := by
  have words := words_insertAll sound.fragments sound.words [(fragment, weight)]
  rw [addFragment_eq]
  split
  · rename_i word
    simp only [wordItems, List.filter_cons, word, if_true, List.filter_nil] at words
    exact ⟨sound.fragments.insert fragment weight, sound.links, words⟩
  · exact sound

theorem Sound.addLink {n : Node} (sound : n.Sound) (target : NodeId) (weight : Int64) :
    (n.addLink target weight).Sound := by
  rw [addLink_eq]
  exact ⟨sound.fragments, sound.links.insert target weight, sound.words⟩

theorem sound_ofFragments (id : NodeId) (fragments : List String) :
    (ofFragments id fragments).Sound := by
  have empty := sound_empty id
  rw [ofFragments_eq]
  exact ⟨empty.fragments.insertAll _, empty.links, words_insertAll empty.fragments empty.words _⟩

theorem Sound.extend {n : Node} (sound : n.Sound) (fragments : List FragmentItem)
    (links : List (NodeId × Int64)) (terminal : Bool) :
    (n.extend fragments links terminal).Sound := by
  rw [extend_eq]
  exact ⟨sound.fragments.insertAll _, sound.links.insertAll links,
    words_insertAll sound.fragments sound.words _⟩

end Node

end PseudoWord
