import PseudoWord.Table.Export
import PseudoWord.Table.Row

namespace PseudoWord

/-- Whether no range of the one list meets a range of the other. -/
def CharRanges.apart (a b : CharRanges) : Bool :=
  a.all (fun x => b.all (fun y => decide (x.2 < y.1 ∨ y.2 < x.1)))

theorem CharRanges.has_of_apart {a b : CharRanges} (separate : a.apart b = true) {c : Char}
    (inside : a.has c = true) : b.has c = false := by
  refine Bool.eq_false_iff.mpr fun both => ?_
  obtain ⟨x, inA, lower, upper⟩ := exists_of_has inside
  obtain ⟨y, inB, least, most⟩ := exists_of_has both
  have disjoint := List.all_eq_true.mp (List.all_eq_true.mp separate x inA) y inB
  rw [decide_eq_true_eq] at disjoint
  omega

theorem isBlank_of_isWordChar {c : Char} (word : isWordChar c = true) : isBlank c = false := by
  have separate : wordCharRanges.apart blankRanges = true := by decide +kernel
  exact CharRanges.has_of_apart separate word

theorem isWordChar_of_mem_numeral {value : Nat} {c : Char} (member : c ∈ numeral value) :
    isWordChar c = true := by
  have digit := isDigit_of_mem_numeral member
  exact isWordChar_of_isAlphanum (by rw [Char.isAlphanum, digit, Bool.or_true])

/-- The characters of a printed item: word characters and parentheses. -/
def isItemChar (c : Char) : Bool := isWordChar c || c == '(' || c == ')'

theorem isItemChar_cases {c : Char} (printed : isItemChar c = true) :
    isWordChar c = true ∨ c = '(' ∨ c = ')' := by
  simpa [isItemChar, or_assoc] using printed

theorem isBlank_of_isItemChar {c : Char} (printed : isItemChar c = true) : isBlank c = false := by
  rcases isItemChar_cases printed with word | rfl | rfl
  · exact isBlank_of_isWordChar word
  · decide
  · decide

/-- A printed text has none of the characters that separate fields, items and lines. -/
theorem ne_separator_of_isItemChar {c : Char} (printed : isItemChar c = true) :
    c ≠ '|' ∧ c ≠ ';' := by
  rcases isItemChar_cases printed with word | rfl | rfl
  · constructor
    · rintro rfl
      exact absurd word (by decide +kernel)
    · rintro rfl
      exact absurd word (by decide +kernel)
  · decide
  · decide

/-- What is printed as an item. -/
def Printed (text : List Char) : Prop := text ≠ [] ∧ ∀ c ∈ text, isItemChar c = true

theorem printed_singleton {c : Char} (printed : isItemChar c = true) : Printed [c] := by
  refine ⟨List.cons_ne_nil _ _, fun other member => ?_⟩
  rw [List.mem_singleton.mp member]
  exact printed

theorem Printed.bar_not_mem {text : List Char} (printed : Printed text) : '|' ∉ text :=
  fun member => (ne_separator_of_isItemChar (printed.2 _ member)).1 rfl

theorem Printed.semicolon_not_mem {text : List Char} (printed : Printed text) : ';' ∉ text :=
  fun member => (ne_separator_of_isItemChar (printed.2 _ member)).2 rfl

theorem isBlank_of_mem_space : ∀ c ∈ [' '], isBlank c = true := by
  intro c member
  rw [List.mem_singleton.mp member]
  decide

theorem isBlank_of_mem_nil : ∀ c ∈ ([] : List Char), isBlank c = true :=
  fun _ member => absurd member List.not_mem_nil

section Blanks

variable {text : List Char}

theorem dropBlanks_of_blank (blank : ∀ c ∈ text, isBlank c = true) (rest : List Char) :
    dropBlanks (text ++ rest) = dropBlanks rest := List.dropWhile_append_of_pos blank

theorem trimBlanks_of_blank (blank : ∀ c ∈ text, isBlank c = true) : trimBlanks text = [] := by
  have dropped := dropBlanks_of_blank blank []
  rw [List.append_nil] at dropped
  rw [trimBlanks, dropped]
  rfl

end Blanks

section Fields

theorem fieldItems_of_not_mem {text : List Char} (plain : '|' ∉ text) :
    fieldItems text = [trimBlanks text].filter (!·.isEmpty) := by
  rw [fieldItems, List.splitOn_eq_singleton plain]
  rfl

/-- A bar parts the items before it from those after it. -/
theorem fieldItems_append_bar (before rest : List Char) :
    fieldItems (before ++ '|' :: rest) = fieldItems before ++ fieldItems rest := by
  rw [fieldItems, List.splitOn_append_cons_self, List.map_append, List.filter_append]
  rfl

theorem bar_not_mem_of_blank {text : List Char} (blank : ∀ c ∈ text, isBlank c = true) :
    '|' ∉ text := fun member => absurd (blank _ member) (by decide)

end Fields

end PseudoWord
