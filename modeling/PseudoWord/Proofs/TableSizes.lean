import Mathlib.Data.List.Basic
import Mathlib.Data.String.Basic
import PseudoWord.Proofs.RowForms
import PseudoWord.Proofs.SnapshotReading
import PseudoWord.Proofs.WellFormed

namespace PseudoWord

section Pieces

variable {line : List Char}

/-- Cutting a text loses only the characters at which it is cut. -/
theorem flatten_splitOn_sublist (cut : Char) (text : List Char) :
    (text.splitOn cut).flatten.Sublist text := by
  induction text with
  | nil => exact .refl []
  | cons c rest ih =>
    rw [List.splitOn_cons_eq_if_modifyHead]
    split
    · exact ih.cons c
    · obtain ⟨piece, later, pieces⟩ := List.exists_cons_of_ne_nil (List.splitOn_ne_nil cut rest)
      rw [pieces] at ih
      rw [pieces, List.modifyHead_cons, List.flatten_cons, List.cons_append]
      exact ih.cons_cons c

theorem sublist_of_mem_splitOn {cut : Char} {text piece : List Char} (member : piece ∈ text.splitOn cut) :
    piece.Sublist text :=
  (List.sublist_flatten_of_mem member).trans (flatten_splitOn_sublist cut text)

/-- There is one cut less than there are pieces. -/
theorem length_splitOn (cut : Char) (text : List Char) :
    (text.splitOn cut).length + (text.splitOn cut).flatten.length = text.length + 1 := by
  induction text with
  | nil => rfl
  | cons c rest ih =>
    rw [List.splitOn_cons_eq_if_modifyHead]
    split
    · rw [List.length_cons, List.flatten_cons, List.nil_append, List.length_cons]
      omega
    · obtain ⟨piece, later, pieces⟩ := List.exists_cons_of_ne_nil (List.splitOn_ne_nil cut rest)
      rw [pieces, List.flatten_cons, List.length_append, List.length_cons] at ih
      rw [pieces, List.modifyHead_cons, List.flatten_cons, List.length_append, List.length_cons,
        List.length_cons, List.length_cons]
      omega

theorem dropReturn_sublist (line : List Char) : (dropReturn line).Sublist line := by
  rw [dropReturn]
  split
  · exact List.dropLast_sublist line
  · exact .refl line

theorem flatten_linesOfPieces_sublist (pieces : List (List Char)) :
    (linesOfPieces pieces).flatten.Sublist pieces.flatten := by
  fun_induction linesOfPieces pieces with
  | case1 => exact .refl []
  | case2 last blank => exact List.nil_sublist _
  | case3 last filled => exact .refl _
  | case4 piece rest more ih =>
    rw [List.flatten_cons, List.flatten_cons]
    exact (dropReturn_sublist piece).append ih

theorem trimBlanks_sublist (text : List Char) : (trimBlanks text).Sublist text := by
  have front : (dropBlanks text).Sublist text := List.dropWhile_sublist isBlank
  have back : (dropBlanks (dropBlanks text).reverse).Sublist (dropBlanks text).reverse :=
    List.dropWhile_sublist isBlank
  have turned := List.reverse_sublist.mpr back
  rw [List.reverse_reverse] at turned
  exact turned.trans front

theorem sublist_of_mem_fieldItems {field item : List Char} (member : item ∈ fieldItems field) :
    item.Sublist field := by
  obtain ⟨trimmed, _⟩ := List.mem_filter.mp member
  obtain ⟨piece, inside, rfl⟩ := List.mem_map.mp trimmed
  exact (trimBlanks_sublist piece).trans (sublist_of_mem_splitOn inside)

theorem length_fieldItems_le (field : List Char) : (fieldItems field).length ≤ field.length + 1 := by
  have pieces := length_splitOn '|' field
  have kept := List.length_filter_le (!·.isEmpty) ((field.splitOn '|').map trimBlanks)
  rw [List.length_map] at kept
  rw [fieldItems]
  omega

end Pieces

/-- The fields of a row are parts of its line, and two semicolons stand between them. -/
theorem Row.parse_eq_ok {line : List Char} {row : Row} (parsed : Row.parse line = .ok row) :
    (∀ item ∈ row.fragmentItems, item.Sublist line) ∧ row.linkItems.length < line.length := by
  obtain ⟨fragments, links, form, same⟩ := Row.parse_eq_ok_iff.mp parsed
  rw [same]
  cases form with
  | intro =>
    refine ⟨fun item member => (sublist_of_mem_fieldItems member).trans ?_, ?_⟩
    · exact (((List.sublist_append_left fragments _).cons ';').trans (List.sublist_append_right _ _))
    · have few := length_fieldItems_le links
      simp only [List.length_append, List.length_cons]
      omega

namespace KeyMap

variable {α : Type} {key : UInt64} {value : α}

theorem length_place_le (entries : List (UInt64 × α)) :
    (place key value entries).length ≤ entries.length + 1 := by
  induction entries with
  | nil => exact Nat.le_refl 1
  | cons head rest ih =>
    rw [place]
    split
    · exact Nat.le_refl _
    · split
      · exact Nat.succ_le_succ ih
      · exact Nat.le_succ _

theorem size_insert_le (m : KeyMap α) : (m.insert key value).size ≤ m.size + 1 :=
  length_place_le m.entries

end KeyMap

namespace WeightedSet

variable {α : Type}

/-- Every entry takes the keys at least one further. -/
theorem Climbs.length_le {low total : UInt64} {entries : List (UInt64 × α)}
    (climb : Climbs low entries total) : low.toNat + entries.length ≤ total.toNat := by
  induction climb with
  | done => exact Nat.le_refl _
  | step below _ _ ih =>
    have below := UInt64.lt_iff_toNat_lt.mp below
    rw [List.length_cons]
    omega

theorem Sound.size_lt {s : WeightedSet α} (sound : s.Sound) : s.size < UInt64.size := by
  have climbed := Climbs.length_le sound
  have bound := s.total.toNat_lt_size
  rw [size, KeyMap.size]
  omega

end WeightedSet

/-- A node as the lines of a table make it of an empty one: no walk was counted, and its fragments are
cut out of the lines. -/
structure Node.CutFrom (lines : List String) (n : Node) : Prop where
  sound : n.Sound
  runs : n.runs = 0
  texts : ∀ fragment ∈ n.fragments.values, ∃ line ∈ lines, fragment.toList.Sublist line.toList

theorem Node.cutFrom_empty (lines : List String) (id : NodeId) : (empty id).CutFrom lines :=
  ⟨sound_empty id, rfl, fun _ member => absurd member List.not_mem_nil⟩

theorem FragmentItem.sublist_of_parse? {text : List Char} {item : FragmentItem}
    (parsed : parse? text = some item) : item.text.toList.Sublist text := by
  rw [parse?] at parsed
  obtain ⟨digits, _, parsed⟩ := Option.bind_eq_some_iff.mp parsed
  obtain ⟨weight, _, parsed⟩ := Option.bind_eq_some_iff.mp parsed
  split at parsed
  · cases parsed
  · cases parsed
    rw [String.toList_ofList]
    exact List.takeWhile_sublist isWordChar

namespace Graph

variable {g : Graph} {lines : List String}

theorem size_put_le (g : Graph) (id : NodeId) (n : Node) : (g.put id n).size ≤ g.size + 1 :=
  g.nodes.size_insert_le

theorem size_foldl_le {α : Type} {f : Graph → α → Graph} (step : ∀ (g : Graph) a, (f g a).size ≤ g.size + 1)
    (items : List α) (g : Graph) : (items.foldl f g).size ≤ g.size + items.length := by
  induction items generalizing g with
  | nil => exact Nat.le_refl _
  | cons item rest ih =>
    have first := step g item
    have later := ih (f g item)
    rw [List.foldl_cons, List.length_cons]
    omega

/-- A row names one node at its head, and one in each item of its links. -/
theorem size_addRow_le (g : Graph) (row : Row) :
    (g.addRow row).size ≤ g.size + row.linkItems.length + 1 := by
  have items : row.links.length ≤ row.linkItems.length := List.length_filterMap_le _ _
  rw [addRow]
  split
  · have targets := List.length_filterMap_le LinkItem.target? row.links
    have marked := size_foldl_le (f := markInitializing) (fun g id => g.size_put_le id _)
      (row.links.filterMap LinkItem.target?) g
    omega
  · have targets := List.length_filterMap_le LinkItem.followed? row.links
    have ensured := size_foldl_le (f := fun g (link : NodeId × Int64) => g.ensureNode link.1)
      (fun g link => g.size_put_le link.1 _) (row.links.filterMap LinkItem.followed?) g
    dsimp only
    refine (size_put_le _ _ _).trans ?_
    omega

theorem size_applyRow_le (g : Graph) (line : String) :
    (g.applyRow line).graph.size ≤ g.size + line.length := by
  rw [applyRow]
  split
  · rename_i row parsed
    have few := (Row.parse_eq_ok parsed).2
    have added := g.size_addRow_le row
    rw [String.length_toList] at few
    dsimp only
    omega
  · exact Nat.le_add_right _ _

theorem size_ofTable_le (lines : List String) :
    (ofTable lines).size ≤ (lines.map String.toList).flatten.length := by
  have whole (lines : List String) (g : Graph) :
      (lines.foldl (fun g line => (g.applyRow line).graph) g).size ≤
        g.size + (lines.map String.toList).flatten.length := by
    induction lines generalizing g with
    | nil => exact Nat.le_refl _
    | cons line rest ih =>
      have first := g.size_applyRow_le line
      have later := ih (g.applyRow line).graph
      rw [List.foldl_cons, List.map_cons, List.flatten_cons, List.length_append, String.length_toList]
      omega
  exact (whole lines empty).trans (Nat.le_of_eq (Nat.zero_add _))

/-- All nodes of a graph are cut from some lines. -/
def CutFrom (lines : List String) (g : Graph) : Prop :=
  ∀ id n, g.node? id = some n → n.CutFrom lines

theorem CutFrom.put (cut : g.CutFrom lines) {n : Node} (nodeCut : n.CutFrom lines) (id : NodeId) :
    (g.put id n).CutFrom lines := by
  intro other m found
  rw [node?_put] at found
  split at found
  · cases found
    exact nodeCut
  · exact cut other m found

theorem CutFrom.nodeOrNew (cut : g.CutFrom lines) (id : NodeId) : (g.nodeOrNew id).CutFrom lines := by
  rw [Graph.nodeOrNew]
  cases found : g.node? id with
  | none => exact Node.cutFrom_empty lines id
  | some n => exact cut id n found

theorem CutFrom.markInitializing (cut : g.CutFrom lines) (id : NodeId) :
    (g.markInitializing id).CutFrom lines := by
  obtain ⟨⟨fragments, links, words⟩, runs, texts⟩ := cut.nodeOrNew id
  have marked : Node.CutFrom lines { g.nodeOrNew id with initializing := true } :=
    ⟨⟨fragments, links, words⟩, runs, texts⟩
  exact cut.put marked id

theorem CutFrom.ensureNode (cut : g.CutFrom lines) (id : NodeId) : (g.ensureNode id).CutFrom lines :=
  cut.put (cut.nodeOrNew id) id

theorem CutFrom.addRow (cut : g.CutFrom lines) {line : String} (inside : line ∈ lines) {row : Row}
    (parsed : Row.parse line.toList = .ok row) : (g.addRow row).CutFrom lines := by
  rw [Graph.addRow]
  split
  · exact List.foldlRecOn _ _ cut (fun _ cut id _ => cut.markInitializing id)
  · rename_i id _
    have targets : ((row.links.filterMap LinkItem.followed?).foldl
        (fun g link => g.ensureNode link.1) g).CutFrom lines :=
      List.foldlRecOn _ _ cut (fun _ cut link _ => cut.ensureNode link.1)
    obtain ⟨sound, runs, texts⟩ := targets.nodeOrNew id
    refine targets.put ⟨sound.extend _ _ _, ?_, fun fragment member => ?_⟩ id
    · rw [Node.extend_eq]
      exact runs
    · rw [Node.extend_eq] at member
      rcases WeightedSet.mem_values_insertAll sound.fragments member with old | ⟨item, added, rfl⟩
      · exact texts fragment old
      · obtain ⟨new, listed, rfl⟩ := List.mem_map.mp (List.mem_filter.mp added).1
        obtain ⟨text, written, read⟩ := List.mem_filterMap.mp listed
        exact ⟨line, inside, (FragmentItem.sublist_of_parse? read).trans
          ((Row.parse_eq_ok parsed).1 text written)⟩

theorem CutFrom.applyRow (cut : g.CutFrom lines) {line : String} (inside : line ∈ lines) :
    (g.applyRow line).graph.CutFrom lines := by
  rw [Graph.applyRow]
  split
  · rename_i row parsed
    exact cut.addRow inside parsed
  · exact cut

theorem cutFrom_ofTable (lines : List String) : (ofTable lines).CutFrom lines := by
  have nothing : empty.CutFrom lines := fun _ _ found => nomatch found
  exact List.foldlRecOn lines _ nothing (fun _ cut _ inside => cut.applyRow inside)

theorem length_le_utf8Len (text : List Char) : text.length ≤ String.utf8Len text := by
  induction text with
  | nil => exact Nat.le_refl 0
  | cons c rest ih =>
    have filled := c.utf8Size_pos
    rw [List.length_cons, String.utf8Len_cons]
    omega

/-- The graph of a table whose text fits does fit itself. -/
theorem fits_ofTable (small : String.utf8Len (lines.map String.toList).flatten < UInt64.size) {name : String}
    (named : FitsText name) : ((ofTable lines).setName name).Fits := by
  have size := size_ofTable_le lines
  have chars := length_le_utf8Len (lines.map String.toList).flatten
  refine ⟨named, ?_, fun n inside => ?_⟩
  · change (ofTable lines).size < UInt64.size
    omega
  · obtain ⟨id, found⟩ := (ofTable lines).mem_nodeList_iff.mp inside
    obtain ⟨sound, _, texts⟩ := cutFrom_ofTable lines id n found
    refine ⟨sound.fragments.size_lt, fun fragment member => ?_, sound.links.size_lt⟩
    obtain ⟨line, listed, part⟩ := texts fragment member
    have whole := part.trans (List.sublist_flatten_of_mem (List.mem_map_of_mem listed))
    have bytes := String.utf8Len_le_of_sublist whole
    rw [String.utf8Len_toList] at bytes
    exact Nat.lt_of_le_of_lt bytes small

end Graph

end PseudoWord
