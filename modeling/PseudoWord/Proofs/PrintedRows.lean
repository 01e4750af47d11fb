import PseudoWord.Proofs.RowForms

namespace PseudoWord

theorem printed_weightedText {text : List Char} (filled : text ≠ [])
    (words : ∀ c ∈ text, isWordChar c = true) (weight : UInt64) :
    Printed (weightedText text weight) := by
  refine ⟨fun empty => filled (List.append_eq_nil_iff.mp empty).1, fun c member => ?_⟩
  simp only [weightedText, List.mem_append, List.mem_cons, List.not_mem_nil, or_false] at member
  rcases member with inText | rfl | inWeight | rfl
  · simp [isItemChar, words c inText]
  · rfl
  · simp [isItemChar, isWordChar_of_mem_numeral inWeight]
  · rfl

theorem NodeId.isWordChar_of_mem_text {id : NodeId} {c : Char} (member : c ∈ id.text) :
    isWordChar c = true := by
  rcases List.mem_cons.mp member with rfl | digit
  · exact isWordChar_of_isAlphanum rfl
  · exact isWordChar_of_mem_numeral digit

theorem NodeId.printed_text (id : NodeId) : Printed id.text := by
  refine ⟨List.cons_ne_nil _ _, fun c member => ?_⟩
  simp [isItemChar, isWordChar_of_mem_text member]

theorem weightForm_numeral {weight : UInt64} (small : weight.toNat < weightBound) :
    WeightForm ('(' :: (numeral weight.toNat ++ [')'])) (Int64.ofNat weight.toNat) :=
  .written (spells_numeral weight.toNat) (Nat.le_pred_of_lt small)

/-- A printed fragment is read back with its weight. -/
theorem FragmentItem.parse?_weightedText {text : String} {weight : UInt64}
    (word : isWordText text.toList = true) (small : weight.toNat < weightBound) :
    parse? (weightedText text.toList weight) = some ⟨text, Int64.ofNat weight.toNat⟩ := by
  obtain ⟨filled, words⟩ := isWordText_iff.mp word
  have form := FragmentForm.intro filled words (weightForm_numeral small)
  rw [String.ofList_toList] at form
  exact parse?_eq_some_iff.mpr form

/-- A printed id with any of the weights of a link is read back as a link. -/
theorem NodeId.linkForm_text (id : NodeId) {tail : List Char} {weight : Int64}
    (form : WeightForm tail weight) : LinkForm (id.text ++ tail) (.link id weight) := by
  have size := Nat.le_pred_of_lt id.value.toNat_lt_size
  have link := LinkForm.link (spells_numeral id.value.toNat) size form
  rwa [Nat.toUInt64, UInt64.ofNat_toNat] at link

theorem LinkItem.parse?_weightedText (id : NodeId) {weight : UInt64}
    (small : weight.toNat < weightBound) :
    parse? (weightedText id.text weight) = some (.link id (Int64.ofNat weight.toNat)) :=
  parse?_eq_some_iff.mpr (id.linkForm_text (weightForm_numeral small))

/-- An id without a weight is a link of weight 1. -/
theorem LinkItem.parse?_text (id : NodeId) : parse? id.text = some (.link id 1) := by
  have form := id.linkForm_text .unwritten
  rw [List.append_nil] at form
  exact parse?_eq_some_iff.mpr form

theorem NodeId.headForm_text (id : NodeId) : HeadForm id.text (.node id) := by
  have form := HeadForm.node (spells_numeral id.value.toNat) (Nat.le_pred_of_lt id.value.toNat_lt_size)
  rwa [Nat.toUInt64, UInt64.ofNat_toNat] at form

theorem headForm_start : HeadForm ['S'] .starts := .starts fun _ member => absurd member List.not_mem_nil

theorem mem_joinItems {items : List (List Char)} {c : Char} (member : c ∈ joinItems items) :
    (∃ item ∈ items, c ∈ item) ∨ c = ' ' ∨ c = '|' := by
  induction items with
  | nil => exact absurd member List.not_mem_nil
  | cons item rest ih =>
    cases rest with
    | nil =>
      rw [joinItems, List.intercalate_singleton] at member
      exact .inl ⟨item, List.mem_cons_self, member⟩
    | cons next rest =>
      rw [joinItems, List.intercalate_cons_cons, List.append_assoc] at member
      rcases List.mem_append.mp member with here | later
      · exact .inl ⟨item, List.mem_cons_self, here⟩
      · rcases List.mem_append.mp later with bar | further
        · simp only [List.mem_cons, List.not_mem_nil, or_false] at bar
          rcases bar with space | bar | space
          · exact .inr (.inl space)
          · exact .inr (.inr bar)
          · exact .inr (.inl space)
        · rcases ih further with ⟨other, inside, here⟩ | separator
          · exact .inl ⟨other, List.mem_cons_of_mem item inside, here⟩
          · exact .inr separator

section Fields

variable {items : List (List Char)}

/-- The items that are read from joined texts are the items of these, in order. -/
theorem fieldItems_joinItems (texts : List (List Char)) :
    fieldItems (joinItems texts) = texts.flatMap fieldItems := by
  induction texts with
  | nil => rfl
  | cons text rest ih =>
    cases rest with
    | nil => rw [joinItems, List.intercalate_singleton, List.flatMap_singleton]
    | cons next later =>
      have cut : joinItems (text :: next :: later) =
          ([] ++ (text ++ [' '])) ++ '|' :: ([' '] ++ (joinItems (next :: later) ++ [])) := by
        simp [joinItems, List.intercalate_cons_cons]
      rw [cut, fieldItems_append_bar, fieldItems_pad text isBlank_of_mem_nil isBlank_of_mem_space,
        fieldItems_pad _ isBlank_of_mem_space isBlank_of_mem_nil, List.flatMap_cons, ih]

theorem Printed.fieldItems {text : List Char} (printed : Printed text) :
    PseudoWord.fieldItems text = [text] := by
  have trimmed := trimmed_of_solid printed.1 fun c member => isBlank_of_isItemChar (printed.2 c member)
  have form := PartForm.item isBlank_of_mem_nil trimmed printed.bar_not_mem isBlank_of_mem_nil
  rw [List.nil_append, List.append_nil] at form
  exact form.fieldItems

/-- Printed items that are joined are read back as they are. -/
theorem fieldItems_of_printed (printed : ∀ item ∈ items, Printed item) :
    fieldItems (joinItems items) = items := by
  rw [fieldItems_joinItems]
  induction items with
  | nil => rfl
  | cons item rest ih =>
    rw [List.flatMap_cons, (printed item List.mem_cons_self).fieldItems,
      ih fun other member => printed other (List.mem_cons_of_mem item member)]
    rfl

theorem semicolon_not_mem_joinItems (plain : ∀ item ∈ items, ';' ∉ item) : ';' ∉ joinItems items := by
  intro member
  rcases mem_joinItems member with ⟨item, inside, here⟩ | space | bar
  · exact plain item inside here
  · exact absurd space (by decide)
  · exact absurd bar (by decide)

end Fields

section Rows

variable {head : List Char} {fragments links : List (List Char)}

theorem joinFields_eq (head fragments links : List Char) :
    joinFields head fragments links =
      (head ++ [' ']) ++ ';' :: ((' ' :: (fragments ++ [' '])) ++ ';' :: (' ' :: links)) := by
  simp [joinFields, List.intercalate_cons_cons, List.intercalate_singleton]

/-- Fields that are joined are read back whatever is in them, as long as it is no semicolon. -/
theorem Row.parse_joinFields {main first second : List Char} {said : RowHead} (head : HeadForm main said)
    (inFirst : ';' ∉ first) (inSecond : ';' ∉ second) :
    parse (joinFields main first second) = .ok ⟨said, fieldItems first, fieldItems second⟩ := by
  have form : RowForm ((([] : List Char) ++ (main ++ [' '])) ++
      ';' :: (([' '] ++ (first ++ [' '])) ++ ';' :: ([' '] ++ (second ++ [])))) said
      ([' '] ++ (first ++ [' '])) ([' '] ++ (second ++ [])) :=
    .intro isBlank_of_mem_nil head isBlank_of_mem_space (by simpa using inFirst)
      (by simpa using inSecond)
  rw [List.nil_append, List.append_nil] at form
  rw [joinFields_eq]
  refine parse_eq_ok_iff.mpr ⟨_, _, form, ?_⟩
  have last := fieldItems_pad second isBlank_of_mem_space isBlank_of_mem_nil
  rw [List.append_nil] at last
  rw [fieldItems_pad first isBlank_of_mem_space isBlank_of_mem_space, last]

/-- The items of a printed row are read back as they were written. -/
theorem Row.parse_joinItems {said : RowHead} (first : HeadForm head said)
    (second : ∀ item ∈ fragments, Printed item) (third : ∀ item ∈ links, Printed item) :
    parse (joinFields head (joinItems fragments) (joinItems links)) = .ok ⟨said, fragments, links⟩ := by
  have inFragments := semicolon_not_mem_joinItems fun item inside => (second item inside).semicolon_not_mem
  have inLinks := semicolon_not_mem_joinItems fun item inside => (third item inside).semicolon_not_mem
  rw [parse_joinFields first inFragments inLinks, fieldItems_of_printed second,
    fieldItems_of_printed third]

/-- The only blank in a printed row is the space. -/
theorem eq_space_of_mem_row (first : Printed head) (second : ∀ item ∈ fragments, Printed item)
    (third : ∀ item ∈ links, Printed item) {c : Char}
    (member : c ∈ joinFields head (joinItems fragments) (joinItems links)) (blank : isBlank c = true) :
    c = ' ' := by
  have solid {text : List Char} (printed : Printed text) : c ∉ text := fun inText => by
    rw [isBlank_of_isItemChar (printed.2 c inText)] at blank
    cases blank
  have inItems {items : List (List Char)} (printed : ∀ item ∈ items, Printed item)
      (inside : c ∈ joinItems items) : c = ' ' := by
    rcases mem_joinItems inside with ⟨item, listed, here⟩ | space | rfl
    · exact absurd here (solid (printed item listed))
    · exact space
    · exact absurd blank (by decide)
  have semicolon : c ≠ ';' := by
    rintro rfl
    exact absurd blank (by decide)
  rw [joinFields_eq] at member
  simp only [List.mem_append, List.mem_cons, List.not_mem_nil, or_false, semicolon, false_or] at member
  rcases member with (inHead | space) | (space | inFragments | space) | space | inLinks
  · exact absurd inHead (solid first)
  · exact space
  · exact space
  · exact inItems second inFragments
  · exact space
  · exact space
  · exact inItems third inLinks

end Rows

end PseudoWord
