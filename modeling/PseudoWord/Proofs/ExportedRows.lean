import Mathlib.Data.List.Basic
import PseudoWord.Proofs.PrintedRows
import PseudoWord.Proofs.RebuiltSet
import PseudoWord.Proofs.SoundNode

namespace PseudoWord

namespace Node

variable {n : Node}

def fragmentTexts (n : Node) : List (List Char) :=
  n.fragments.weighted.map (fun item => weightedText item.1.toList item.2)

def linkTexts (n : Node) : List (List Char) :=
  n.links.weighted.map (fun item => weightedText item.1.text item.2) ++
    if n.isTerminating then [['O']] else []

theorem Sound.printed_fragmentTexts (sound : n.Sound) : ∀ item ∈ n.fragmentTexts, Printed item := by
  intro text member
  obtain ⟨item, inside, rfl⟩ := List.mem_map.mp member
  have word := sound.words item.1 (sound.fragments.of_mem_weighted inside).1
  obtain ⟨filled, words⟩ := isWordText_iff.mp word
  exact printed_weightedText filled words item.2

theorem printed_linkTexts (n : Node) : ∀ item ∈ n.linkTexts, Printed item := by
  intro text member
  rcases List.mem_append.mp member with link | mark
  · obtain ⟨item, _, rfl⟩ := List.mem_map.mp link
    have words (c : Char) (inText : c ∈ item.1.text) : isWordChar c = true :=
      NodeId.isWordChar_of_mem_text inText
    exact printed_weightedText item.1.printed_text.1 words item.2
  · split at mark
    · cases List.mem_singleton.mp mark
      exact printed_singleton (by decide +kernel)
    · exact absurd mark List.not_mem_nil

/-- The row of a sound node is read back as its id and the texts of its items. -/
theorem Sound.parse_row (sound : n.Sound) :
    Row.parse n.row = .ok ⟨.node n.id, n.fragmentTexts, n.linkTexts⟩ :=
  Row.parse_joinItems n.id.headForm_text sound.printed_fragmentTexts n.printed_linkTexts

theorem Sound.fragments_of_row (sound : n.Sound) :
    n.fragmentTexts.filterMap FragmentItem.parse? =
      n.fragments.items.map (fun item => ⟨item.1, item.2⟩) := by
  have read (item : String × UInt64) (member : item ∈ n.fragments.weighted) :
      FragmentItem.parse? (weightedText item.1.toList item.2) =
        some ⟨item.1, Int64.ofNat item.2.toNat⟩ := by
    obtain ⟨value, _, small⟩ := sound.fragments.of_mem_weighted member
    exact FragmentItem.parse?_weightedText (sound.words item.1 value) small
  rw [fragmentTexts, WeightedSet.items, List.filterMap_map, List.map_map, ← List.filterMap_eq_map]
  exact List.filterMap_congr read

theorem Sound.links_of_row (sound : n.Sound) :
    n.linkTexts.filterMap LinkItem.parse? =
      n.links.items.map (fun item => .link item.1 item.2) ++
        if n.isTerminating then [.terminal] else [] := by
  have read (item : NodeId × UInt64) (member : item ∈ n.links.weighted) :
      LinkItem.parse? (weightedText item.1.text item.2) =
        some (.link item.1 (Int64.ofNat item.2.toNat)) :=
    LinkItem.parse?_weightedText item.1 (sound.links.of_mem_weighted member).2.2
  have mark : LinkItem.parse? ['O'] = some .terminal := rfl
  rw [linkTexts, List.filterMap_append, WeightedSet.items, List.filterMap_map, List.map_map,
    ← List.filterMap_eq_map]
  congr 1
  · exact List.filterMap_congr read
  · split
    · rw [List.filterMap_cons, mark]
      rfl
    · rfl

theorem Sound.followed_of_row (sound : n.Sound) :
    (n.linkTexts.filterMap LinkItem.parse?).filterMap LinkItem.followed? = n.links.items := by
  have followed (item : NodeId × Int64) (member : item ∈ n.links.items) :
      (LinkItem.link item.1 item.2).followed? = some item := by
    rw [LinkItem.followed?, if_pos (sound.links.pos_of_mem_items member).2]
  have none : (if n.isTerminating then [LinkItem.terminal] else []).filterMap LinkItem.followed? = [] := by
    split <;> rfl
  rw [sound.links_of_row, List.filterMap_append, none, List.append_nil, List.filterMap_map]
  exact (List.filterMap_congr followed).trans List.filterMap_some

theorem Sound.terminal_of_row (sound : n.Sound) :
    (n.linkTexts.filterMap LinkItem.parse?).contains .terminal = n.isTerminating := by
  have noLink : .terminal ∉ n.links.items.map (fun item => LinkItem.link item.1 item.2) := by
    intro member
    obtain ⟨item, _, impossible⟩ := List.mem_map.mp member
    cases impossible
  rw [sound.links_of_row, Bool.eq_iff_iff, List.contains_iff_mem, List.mem_append]
  split
  · rename_i ends
    simp [ends]
  · rename_i goesOn
    simp [noLink, goesOn]

end Node

namespace Graph

theorem applyRow_row (h : Graph) {n : Node} (sound : n.Sound) :
    (h.applyRow (String.ofList n.row)).graph =
      (n.links.items.foldl (fun g link => g.ensureNode link.1) h).put n.id
        (((n.links.items.foldl (fun g link => g.ensureNode link.1) h).nodeOrNew n.id).extend
          (n.fragments.items.map (fun item => ⟨item.1, item.2⟩)) n.links.items n.isTerminating) := by
  have fragments : Row.fragments ⟨.node n.id, n.fragmentTexts, n.linkTexts⟩ =
      n.fragments.items.map (fun item => ⟨item.1, item.2⟩) := sound.fragments_of_row
  have followed : (Row.links ⟨.node n.id, n.fragmentTexts, n.linkTexts⟩).filterMap
      LinkItem.followed? = n.links.items := sound.followed_of_row
  have terminal : (Row.links ⟨.node n.id, n.fragmentTexts, n.linkTexts⟩).contains .terminal =
      n.isTerminating := sound.terminal_of_row
  rw [applyRow, String.toList_ofList, sound.parse_row]
  simp only [addRow, fragments, followed, terminal]

theorem printed_startHead : Printed ['S'] := printed_singleton (by decide +kernel)

theorem printed_startMark : ∀ item ∈ [['_']], Printed item := by
  intro item member
  cases List.mem_singleton.mp member
  exact printed_singleton (by decide +kernel)

theorem printed_startLinks (g : Graph) :
    ∀ item ∈ g.initializingIds.map NodeId.text, Printed item := by
  intro item member
  obtain ⟨id, _, rfl⟩ := List.mem_map.mp member
  exact id.printed_text

theorem parse_startRow (g : Graph) :
    Row.parse g.startRow = .ok ⟨.starts, [['_']], g.initializingIds.map NodeId.text⟩ :=
  Row.parse_joinItems headForm_start printed_startMark (printed_startLinks g)

theorem applyRow_startRow (g h : Graph) :
    (h.applyRow (String.ofList g.startRow)).graph = g.initializingIds.foldl markInitializing h := by
  have read (id : NodeId) : (LinkItem.parse? id.text).bind LinkItem.target? = some id := by
    rw [LinkItem.parse?_text]
    rfl
  have targets : (Row.links ⟨.starts, [['_']], g.initializingIds.map NodeId.text⟩).filterMap
      LinkItem.target? = g.initializingIds := by
    rw [Row.links, List.filterMap_filterMap, List.filterMap_map]
    simp only [Function.comp_def, read, List.filterMap_some]
  rw [applyRow, String.toList_ofList, g.parse_startRow]
  simp only [addRow, targets]

end Graph

end PseudoWord
