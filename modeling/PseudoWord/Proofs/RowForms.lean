import PseudoWord.Proofs.ItemForms

namespace PseudoWord

def Blanks (text : List Char) : Prop := ∀ c ∈ text, isBlank c = true

/-- A text without blanks at its ends. There may be blanks inside. -/
structure Trimmed (text : List Char) : Prop where
  filled : text ≠ []
  first : ∀ c ∈ text.head?, isBlank c = false
  last : ∀ c ∈ text.getLast?, isBlank c = false

/-- What stands between two bars: blanks, or one item with blanks around it. -/
inductive PartForm : List Char → List (List Char) → Prop
  | blank {text : List Char} : Blanks text → PartForm text []
  | item {before text after : List Char} : Blanks before → Trimmed text → '|' ∉ text → Blanks after →
      PartForm (before ++ (text ++ after)) [text]

/-- A field and its items. -/
inductive FieldForm : List Char → List (List Char) → Prop
  | part {text : List Char} {items : List (List Char)} : PartForm text items → FieldForm text items
  | bar {part rest : List Char} {items more : List (List Char)} : PartForm part items →
      FieldForm rest more → FieldForm (part ++ '|' :: rest) (items ++ more)

/-- What items mean, in order. Those without a meaning are left out. -/
inductive Meanings {α : Type} (form : List Char → α → Prop) : List (List Char) → List α → Prop
  | nil : Meanings form [] []
  | read {item : List Char} {items : List (List Char)} {meaning : α} {meanings : List α} :
      form item meaning → Meanings form items meanings →
      Meanings form (item :: items) (meaning :: meanings)
  | skip {item : List Char} {items : List (List Char)} {meanings : List α} :
      (∀ meaning, ¬ form item meaning) → Meanings form items meanings →
      Meanings form (item :: items) meanings

/-- What the items of a field mean. -/
def FieldMeans {α : Type} (form : List Char → α → Prop) (field : List Char) (meanings : List α) :
    Prop :=
  ∃ items, FieldForm field items ∧ Meanings form items meanings

/-- The main part of the first field of a row. The digits after S need not be a number. -/
inductive HeadForm : List Char → RowHead → Prop
  | starts {digits : List Char} : (∀ c ∈ digits, isDecimalDigit c = true) →
      HeadForm ('S' :: digits) .starts
  | node {digits : List Char} {value : Nat} : Spells digits value → value ≤ 2 ^ 64 - 1 →
      HeadForm ('N' :: digits) (.node ⟨value.toUInt64⟩)

/-- A line that is a row, with what its first field says and the two other fields. -/
inductive RowForm : List Char → RowHead → List Char → List Char → Prop
  | intro {before main after fragments links : List Char} {head : RowHead} :
      Blanks before → HeadForm main head → Blanks after → ';' ∉ fragments → ';' ∉ links →
      RowForm ((before ++ (main ++ after)) ++ ';' :: (fragments ++ ';' :: links)) head fragments links

section Trims

variable {before text after : List Char}

theorem isBlank_of_mem_dropBlanks {c : Char} (atHead : c ∈ (dropBlanks text).head?) :
    isBlank c = false := by
  have stops := List.head?_dropWhile_not isBlank text
  rw [Option.mem_def] at atHead
  rw [← dropBlanks, atHead] at stops
  exact stops

theorem dropBlanks_of_first (first : ∀ c ∈ text.head?, isBlank c = false) : dropBlanks text = text := by
  cases text with
  | nil => rfl
  | cons c rest => exact List.dropWhile_cons_of_neg (Bool.eq_false_iff.mp (first c rfl))

theorem Trimmed.trimBlanks (trimmed : Trimmed text) (blankBefore : Blanks before)
    (blankAfter : Blanks after) : trimBlanks (before ++ (text ++ after)) = text := by
  have turned : Blanks after.reverse := fun c member => blankAfter c (List.mem_reverse.mp member)
  have first : ∀ c ∈ (text ++ after).head?, isBlank c = false := by
    obtain ⟨c, rest, rfl⟩ := List.exists_cons_of_ne_nil trimmed.filled
    exact trimmed.first
  have last : ∀ c ∈ text.reverse.head?, isBlank c = false := by
    rw [List.head?_reverse]
    exact trimmed.last
  rw [PseudoWord.trimBlanks, dropBlanks_of_blank blankBefore, dropBlanks_of_first first,
    List.reverse_append, dropBlanks_of_blank turned, dropBlanks_of_first last, List.reverse_reverse]

theorem trimmed_of_solid (filled : text ≠ []) (solid : ∀ c ∈ text, isBlank c = false) : Trimmed text :=
  ⟨filled, fun c atHead => solid c (List.mem_of_head? atHead),
    fun c atLast => solid c (List.mem_of_getLast? atLast)⟩

/-- What is trimmed off are blanks. -/
theorem exists_eq_trimBlanks (text : List Char) :
    ∃ before after, Blanks before ∧ Blanks after ∧ text = before ++ (trimBlanks text ++ after) ∧
      (trimBlanks text ≠ [] → Trimmed (trimBlanks text)) := by
  have cut (text : List Char) : text = text.takeWhile isBlank ++ dropBlanks text :=
    List.takeWhile_append_dropWhile.symm
  have blank (text : List Char) : Blanks (text.takeWhile isBlank) := fun _ => of_mem_takeWhile
  have tail : dropBlanks text =
      trimBlanks text ++ ((dropBlanks text).reverse.takeWhile isBlank).reverse := by
    have turned := congrArg List.reverse (cut (dropBlanks text).reverse)
    rwa [List.reverse_reverse, List.reverse_append] at turned
  refine ⟨text.takeWhile isBlank, _, blank text,
    fun c member => blank _ c (List.mem_reverse.mp member), tail ▸ cut text,
    fun filled => ⟨filled, ?_, ?_⟩⟩
  · intro c atHead
    obtain ⟨first, rest, trimmed⟩ := List.exists_cons_of_ne_nil filled
    have atHead : c ∈ (dropBlanks text).head? := by
      rw [tail, trimmed]
      rwa [trimmed] at atHead
    exact isBlank_of_mem_dropBlanks atHead
  · intro c atLast
    rw [trimBlanks, List.getLast?_reverse] at atLast
    exact isBlank_of_mem_dropBlanks atLast

end Trims

theorem Blanks.append {before after : List Char} (blankBefore : Blanks before)
    (blankAfter : Blanks after) : Blanks (before ++ after) := by
  intro c member
  rcases List.mem_append.mp member with inBefore | inAfter
  · exact blankBefore c inBefore
  · exact blankAfter c inAfter

theorem PartForm.bar_not_mem {text : List Char} {items : List (List Char)}
    (form : PartForm text items) : '|' ∉ text := by
  cases form with
  | blank blank => exact bar_not_mem_of_blank blank
  | item blankBefore _ plain blankAfter =>
    simp only [List.mem_append, not_or]
    exact ⟨bar_not_mem_of_blank blankBefore, plain, bar_not_mem_of_blank blankAfter⟩

theorem PartForm.fieldItems {text : List Char} {items : List (List Char)}
    (form : PartForm text items) : fieldItems text = items := by
  rw [fieldItems_of_not_mem form.bar_not_mem]
  cases form with
  | blank blank =>
    rw [trimBlanks_of_blank blank]
    rfl
  | item blankBefore trimmed _ blankAfter =>
    rw [trimmed.trimBlanks blankBefore blankAfter, List.filter_cons,
      List.isEmpty_eq_false_iff.mpr trimmed.filled]
    rfl

theorem partForm_fieldItems {text : List Char} (plain : '|' ∉ text) :
    PartForm text (fieldItems text) := by
  obtain ⟨before, after, blankBefore, blankAfter, whole, trimmed⟩ := exists_eq_trimBlanks text
  rw [fieldItems_of_not_mem plain]
  by_cases empty : trimBlanks text = []
  · rw [empty] at whole
    rw [empty, whole]
    exact .blank (blankBefore.append blankAfter)
  · have inside : '|' ∉ trimBlanks text := fun member => plain <| by
      rw [whole]
      exact List.mem_append_right before (List.mem_append_left after member)
    have form := PartForm.item blankBefore (trimmed empty) inside blankAfter
    rw [← whole] at form
    rwa [List.filter_cons, List.isEmpty_eq_false_iff.mpr empty]

theorem FieldForm.fieldItems {field : List Char} {items : List (List Char)}
    (form : FieldForm field items) : fieldItems field = items := by
  induction form with
  | part part => exact part.fieldItems
  | bar part _ ih => rw [fieldItems_append_bar, part.fieldItems, ih]

theorem fieldForm_fieldItems (field : List Char) : FieldForm field (fieldItems field) := by
  by_cases bars : '|' ∈ field
  · obtain ⟨first, rest, whole, plain⟩ := List.eq_append_cons_of_mem bars
    have shorter : rest.length < field.length := by
      rw [whole, List.length_append, List.length_cons]
      omega
    rw [whole, fieldItems_append_bar]
    exact .bar (partForm_fieldItems plain) (fieldForm_fieldItems rest)
  · exact .part (partForm_fieldItems bars)
termination_by field.length

section Pads

variable {before text after : List Char} {items : List (List Char)}

theorem PartForm.pad (form : PartForm text items) (blankBefore : Blanks before)
    (blankAfter : Blanks after) : PartForm (before ++ (text ++ after)) items := by
  cases form with
  | blank blank => exact .blank (blankBefore.append (blank.append blankAfter))
  | @item inner text outer blankInner trimmed plain blankOuter =>
    have padded :=
      PartForm.item (blankBefore.append blankInner) trimmed plain (blankOuter.append blankAfter)
    simpa only [List.append_assoc] using padded

/-- Blanks at the ends of a field do not matter. -/
theorem FieldForm.pad (form : FieldForm text items) (blankBefore : Blanks before)
    (blankAfter : Blanks after) : FieldForm (before ++ (text ++ after)) items := by
  have nothing : Blanks [] := fun _ member => absurd member List.not_mem_nil
  induction form generalizing before with
  | part part => exact .part (part.pad blankBefore blankAfter)
  | bar part _ ih =>
    have padded := FieldForm.bar (part.pad blankBefore nothing) (ih nothing)
    simpa only [List.append_assoc, List.append_nil, List.nil_append, List.cons_append] using padded

theorem fieldItems_pad (text : List Char) (blankBefore : Blanks before) (blankAfter : Blanks after) :
    fieldItems (before ++ (text ++ after)) = fieldItems text :=
  ((fieldForm_fieldItems text).pad blankBefore blankAfter).fieldItems

end Pads

section Meanings

variable {α : Type} {form : List Char → α → Prop} {parse? : List Char → Option α}

theorem filterMap_eq_iff (reads : ∀ {item meaning}, parse? item = some meaning ↔ form item meaning)
    {items : List (List Char)} {meanings : List α} :
    items.filterMap parse? = meanings ↔ Meanings form items meanings := by
  constructor
  · rintro rfl
    induction items with
    | nil => exact .nil
    | cons item rest ih =>
      cases read : parse? item with
      | none =>
        rw [List.filterMap_cons_none read]
        exact .skip (fun meaning fits => nomatch read.symm.trans (reads.mpr fits)) ih
      | some meaning =>
        rw [List.filterMap_cons_some read]
        exact .read (reads.mp read) ih
  · intro means
    induction means with
    | nil => rfl
    | read fits _ ih => rw [List.filterMap_cons_some (reads.mpr fits), ih]
    | @skip item _ _ misfits _ ih =>
      have unread : parse? item = none :=
        Option.eq_none_iff_forall_ne_some.mpr fun meaning read => misfits meaning (reads.mp read)
      rw [List.filterMap_cons_none unread, ih]

theorem fieldMeans_iff (reads : ∀ {item meaning}, parse? item = some meaning ↔ form item meaning)
    {field : List Char} {meanings : List α} :
    FieldMeans form field meanings ↔ (fieldItems field).filterMap parse? = meanings := by
  constructor
  · rintro ⟨items, field, means⟩
    rw [field.fieldItems]
    exact (filterMap_eq_iff reads).mpr means
  · exact fun same => ⟨_, fieldForm_fieldItems field, (filterMap_eq_iff reads).mp same⟩

end Meanings

theorem isBlank_of_isDecimalDigit {c : Char} (digit : isDecimalDigit c = true) : isBlank c = false := by
  have separate : decimalDigitRanges.apart blankRanges = true := by decide +kernel
  exact CharRanges.has_of_apart separate digit

/-- There is neither a blank nor a semicolon in what is read as the head of a row. -/
theorem HeadForm.solid {main : List Char} {head : RowHead} (form : HeadForm main head) {c : Char}
    (member : c ∈ main) : isBlank c = false ∧ c ≠ ';' := by
  have digit {c : Char} (digit : isDecimalDigit c = true) : isBlank c = false ∧ c ≠ ';' := by
    refine ⟨isBlank_of_isDecimalDigit digit, ?_⟩
    rintro rfl
    exact absurd digit (by decide +kernel)
  cases form with
  | starts digits =>
    rcases List.mem_cons.mp member with rfl | later
    · decide
    · exact digit (digits c later)
  | node spells _ =>
    rcases List.mem_cons.mp member with rfl | later
    · decide
    · exact digit (isDecimalDigit_of_isDigit (spells.ascii c later))

theorem HeadForm.trimmed {main : List Char} {head : RowHead} (form : HeadForm main head) :
    Trimmed main := by
  have filled : main ≠ [] := by
    cases form <;> exact List.cons_ne_nil _ _
  exact trimmed_of_solid filled fun c member => (form.solid member).1

/-- The first fields that are read are those that are well formed. -/
theorem RowHead.parse_eq_ok_iff {field : List Char} {head : RowHead} :
    parse field = .ok head ↔ HeadForm (trimBlanks field) head := by
  rw [parse]
  constructor
  · intro read
    split at read
    · rename_i kind digits trimmed
      rw [trimmed]
      split at read
      · cases read
      · rename_i decimal
        rw [Bool.not_eq_true', Bool.not_eq_false, List.all_eq_true] at decimal
        split at read
        · rename_i atHead
          cases read
          exact atHead ▸ .starts decimal
        · split at read
          · rename_i atHead
            split at read
            · rename_i value said
              cases read
              obtain ⟨spells, small⟩ := numeral?_size_eq_some_iff.mp said
              exact atHead ▸ .node spells small
            · cases read
          · cases read
    · cases read
  · intro form
    generalize trimBlanks field = main at form
    cases form with
    | starts decimal =>
      rw [← List.all_eq_true] at decimal
      simp [decimal]
    | @node digits value spells small =>
      have decimal : digits.all isDecimalDigit = true :=
        List.all_eq_true.mpr fun c member => isDecimalDigit_of_isDigit (spells.ascii c member)
      have read := numeral?_size_eq_some_iff.mpr ⟨spells, small⟩
      simp [decimal, read]

theorem splitOn_eq_cons_iff {sep : Char} {text first : List Char} {others : List (List Char)} :
    text.splitOn sep = first :: others ↔ sep ∉ first ∧
      (text = first ∧ others = [] ∨
        ∃ rest, text = first ++ sep :: rest ∧ rest.splitOn sep = others) := by
  constructor
  · intro parts
    by_cases cut : sep ∈ text
    · obtain ⟨before, rest, rfl, plain⟩ := List.eq_append_cons_of_mem cut
      rw [List.splitOn_append_cons_self_of_not_mem plain] at parts
      cases parts
      exact ⟨plain, .inr ⟨rest, rfl, rfl⟩⟩
    · rw [List.splitOn_eq_singleton cut] at parts
      cases parts
      exact ⟨cut, .inl ⟨rfl, rfl⟩⟩
  · rintro ⟨plain, ⟨rfl, rfl⟩ | ⟨rest, rfl, rfl⟩⟩
    · exact List.splitOn_eq_singleton plain
    · exact List.splitOn_append_cons_self_of_not_mem plain rest

theorem splitOn_eq_three_iff {text head fragments links : List Char} :
    text.splitOn ';' = [head, fragments, links] ↔
      text = head ++ ';' :: (fragments ++ ';' :: links) ∧
        ';' ∉ head ∧ ';' ∉ fragments ∧ ';' ∉ links := by
  constructor
  · intro parts
    obtain ⟨inHead, ⟨_, impossible⟩ | ⟨middle, rfl, two⟩⟩ := splitOn_eq_cons_iff.mp parts
    · cases impossible
    obtain ⟨inFragments, ⟨_, impossible⟩ | ⟨last, rfl, one⟩⟩ := splitOn_eq_cons_iff.mp two
    · cases impossible
    obtain ⟨inLinks, ⟨rfl, _⟩ | ⟨_, _, none⟩⟩ := splitOn_eq_cons_iff.mp one
    · exact ⟨rfl, inHead, inFragments, inLinks⟩
    · exact absurd none (List.splitOn_ne_nil _ _)
  · rintro ⟨rfl, inHead, inFragments, inLinks⟩
    rw [List.splitOn_append_cons_self_of_not_mem inHead,
      List.splitOn_append_cons_self_of_not_mem inFragments, List.splitOn_eq_singleton inLinks]

/-- The lines that are read are the rows. -/
theorem Row.parse_eq_ok_iff {line : List Char} {row : Row} :
    parse line = .ok row ↔ ∃ fragments links, RowForm line row.head fragments links ∧
      row = ⟨row.head, fieldItems fragments, fieldItems links⟩ := by
  rw [parse]
  constructor
  · intro read
    split at read
    · cases read
    · split at read
      · rename_i first fragments links parts
        obtain ⟨rfl, _, inFragments, inLinks⟩ := splitOn_eq_three_iff.mp parts
        cases said : RowHead.parse first with
        | error fault =>
          rw [said] at read
          cases read
        | ok head =>
          rw [said] at read
          cases read
          obtain ⟨before, after, blankBefore, blankAfter, whole, _⟩ := exists_eq_trimBlanks first
          have main := RowHead.parse_eq_ok_iff.mp said
          have form := RowForm.intro blankBefore main blankAfter inFragments inLinks
          rw [← whole] at form
          exact ⟨fragments, links, form, rfl⟩
      · cases read
  · rintro ⟨fragments, links, form, same⟩
    generalize row.head = head at form same
    subst same
    cases form with
    | @intro before main after _ _ _ blankBefore form blankAfter inFragments inLinks =>
      have trimmed : HeadForm (trimBlanks (before ++ (main ++ after))) head := by
        rwa [form.trimmed.trimBlanks blankBefore blankAfter]
      have plain {text : List Char} (blank : Blanks text) : ';' ∉ text :=
        fun member => absurd (blank _ member) (by decide)
      have inHead : ';' ∉ before ++ (main ++ after) := by
        simp only [List.mem_append, not_or]
        exact ⟨plain blankBefore, fun member => (form.solid member).2 rfl, plain blankAfter⟩
      have parts := splitOn_eq_three_iff.mpr ⟨rfl, inHead, inFragments, inLinks⟩
      have shown :
          ¬ ((before ++ (main ++ after)) ++ ';' :: (fragments ++ ';' :: links)).all isBlank = true :=
        fun blank => absurd (List.all_eq_true.mp blank ';' (by simp)) (by decide)
      rw [if_neg shown, parts]
      simp only [RowHead.parse_eq_ok_iff.mpr trimmed, Except.map]

/-- What is read off a line that is a row: its head, and what the items of its fields mean. -/
theorem RowForm.exists_row {line first second : List Char} {head : RowHead}
    (form : RowForm line head first second) :
    ∃ row : Row, Row.parse line = .ok row ∧ row.head = head ∧
      (∀ fragments, FieldMeans FragmentForm first fragments ↔ row.fragments = fragments) ∧
      ∀ links, FieldMeans LinkForm second links ↔ row.links = links :=
  ⟨⟨head, fieldItems first, fieldItems second⟩,
    Row.parse_eq_ok_iff.mpr ⟨first, second, form, rfl⟩, rfl,
    fun _ => fieldMeans_iff FragmentItem.parse?_eq_some_iff,
    fun _ => fieldMeans_iff LinkItem.parse?_eq_some_iff⟩

end PseudoWord
