import PseudoWord.Storage

namespace PseudoWord

namespace Path

variable {p : Path} {before directory : List PathPart} {name stem extension : PathPart}

/-- A stem that stays whole when it is given an extension: it is not a dot alone, and no dot follows its
first character. -/
def IsPlain (stem : PathPart) : Prop := stem ≠ dot ∧ '.' ∉ stem.tail

instance (stem : PathPart) : Decidable (IsPlain stem) :=
  inferInstanceAs (Decidable (stem ≠ dot ∧ '.' ∉ stem.tail))

/-- A name without a dot after its first character is its own stem. Any other is its stem, a dot and an
extension without a dot. -/
theorem stemOf_cases (name : PathPart) :
    ('.' ∉ name.tail ∧ stemOf name = name) ∨
      ∃ extension, stemOf name ≠ [] ∧ '.' ∉ extension ∧ name = stemOf name ++ '.' :: extension := by
  have parted := List.takeWhile_append_dropWhile (p := (· != '.')) (l := name.reverse)
  have undotted : '.' ∉ name.reverse.takeWhile (· != '.') := by
    intro member
    have other := List.all_takeWhile (p := (· != '.')) (l := name.reverse)
    simpa using List.all_eq_true.mp other '.' member
  rw [stemOf]
  cases left : name.reverse.dropWhile (· != '.') with
  | nil =>
    rw [left, List.append_nil] at parted
    rw [parted, List.mem_reverse] at undotted
    exact .inl ⟨fun member => undotted (List.mem_of_mem_tail member), rfl⟩
  | cons c reversed =>
    have dotted : c = '.' := by
      have head := List.head?_dropWhile_not (· != '.') name.reverse
      rw [left] at head
      simpa using head
    rw [left, dotted] at parted
    have whole : name = reversed.reverse ++ '.' :: (name.reverse.takeWhile (· != '.')).reverse := by
      have turned := congrArg List.reverse parted
      rw [List.reverse_reverse, List.reverse_append, List.reverse_cons, List.append_assoc] at turned
      exact turned.symm
    cases reversed with
    | nil =>
      refine .inl ⟨?_, rfl⟩
      rw [whole, List.reverse_nil, List.nil_append, List.tail_cons, List.mem_reverse]
      exact undotted
    | cons last others =>
      exact .inr ⟨_, by simp, by rwa [List.mem_reverse], whole⟩

theorem stemOf_append (filled : stem ≠ []) (undotted : '.' ∉ extension) :
    stemOf (stem ++ '.' :: extension) = stem := by
  have kept : ∀ c ∈ extension.reverse, (c != '.') = true := by
    intro c member
    rw [List.mem_reverse] at member
    exact bne_iff_ne.mpr fun same => undotted (same ▸ member)
  rw [stemOf, List.reverse_append, List.reverse_cons, List.append_assoc,
    List.dropWhile_append_of_pos kept]
  simp [filled]

theorem stemOf_eq_self_iff : stemOf name = name ↔ '.' ∉ name.tail := by
  rcases stemOf_cases name with ⟨undotted, same⟩ | ⟨extension, filled, _, whole⟩
  · exact iff_of_true same undotted
  · obtain ⟨c, rest, stem⟩ := List.exists_cons_of_ne_nil filled
    rw [stem] at whole
    refine iff_of_false (fun same => ?_) (fun undotted => undotted ?_)
    · have lengths := congrArg List.length whole
      rw [← same, stem] at lengths
      simp at lengths
    · rw [whole]
      simp

theorem stemOf_ne_nil (filled : name ≠ []) : stemOf name ≠ [] := by
  rcases stemOf_cases name with ⟨_, same⟩ | ⟨_, filled, _⟩
  · rwa [same]
  · exact filled

theorem dropIdle_suffix (parts : List PathPart) : dropIdle parts <:+ parts := by
  induction parts with
  | nil => exact List.suffix_refl _
  | cons part before ih =>
    rw [dropIdle]
    split
    · exact ih.trans (List.suffix_cons part before)
    · exact List.suffix_refl _

theorem splitName?_append (said : isIdle name = false) (other : name ≠ dotDot) :
    splitName? ⟨before ++ [name]⟩ = some (before, name) := by
  simp [splitName?, dropIdle, said, other]

/-- The name of a path says something and does not lead up, and nothing before it is left out. -/
theorem splitName?_eq_some (named : p.splitName? = some (before, name)) :
    isIdle name = false ∧ name ≠ dotDot ∧ before ++ [name] <+: p.parts := by
  rw [splitName?] at named
  split at named
  · rename_i last reversed kept
    split at named
    · cases named
    · rename_i said
      cases named
      rw [Bool.or_eq_true, not_or] at said
      have prefixed := (dropIdle_suffix p.parts.reverse).reverse
      rw [kept, List.reverse_reverse, List.reverse_cons] at prefixed
      exact ⟨Bool.eq_false_iff.mpr said.1, fun same => said.2 (beq_iff_eq.mpr same), prefixed⟩
  · cases named

theorem stemOf_ne_nil_of_name (said : isIdle name = false) : stemOf name ≠ [] :=
  stemOf_ne_nil fun empty => absurd (empty ▸ said) (by decide)

/-- The stem of a name says something, unless it is a dot alone. -/
theorem isIdle_stemOf (said : isIdle name = false) (more : stemOf name ≠ dot) :
    isIdle (stemOf name) = false := by
  simp [isIdle, stemOf_ne_nil_of_name said, more]

theorem withExtension_append (said : isIdle stem = false) (other : stem ≠ dotDot)
    (extension : List Char) :
    withExtension ⟨directory ++ [stem]⟩ extension = ⟨directory ++ [stemOf stem ++ '.' :: extension]⟩ := by
  rw [withExtension, splitName?_append said other]

/-- A dot alone gives way to the directory that it stands in, which is then given the extension. -/
theorem withExtension_dot_ne (part : PathPart) (different : part ≠ dot) (extension : List Char) :
    withExtension ⟨directory ++ [dot]⟩ extension ≠ ⟨directory ++ [part]⟩ := by
  intro same
  rw [withExtension] at same
  split at same
  · rename_i above last named
    obtain ⟨said, _, prefixed⟩ := splitName?_eq_some named
    have parts := congrArg Path.parts same
    have lengths := congrArg List.length parts
    simp only [List.length_append, List.length_singleton, Nat.add_right_cancel_iff] at lengths
    have whole := prefixed.eq_of_length (by simp [lengths])
    have dots := (List.append_inj' whole rfl).2
    cases dots
    exact absurd said (by decide)
  · have parts := congrArg Path.parts same
    have dots := (List.append_inj' parts rfl).2
    cases dots
    exact different rfl

theorem withExtension_dotDot (extension : List Char) :
    withExtension ⟨directory ++ [dotDot]⟩ extension = ⟨directory ++ [dotDot]⟩ := by
  have nameless : splitName? ⟨directory ++ [dotDot]⟩ = none := by
    simp [splitName?, dropIdle, isIdle, dotDot, dot]
  rw [withExtension, nameless]

theorem snapshot?_eq (named : p.splitName? = some (before, name)) :
    p.snapshot? = some (withExtension ⟨parentParts before ++ [stemOf name]⟩ ['b', 'i', 'n']) := by
  rw [snapshot?, derived?, named, Option.map_some]

theorem languageName_eq (named : p.splitName? = some (before, name)) :
    p.languageName = String.ofList (stemOf name) := by
  rw [languageName, stem?, named, Option.map_some, Option.getD_some]

/-- The snapshot is beside its table under the stem of the table and its own extension, exactly when this
stem is plain. -/
theorem snapshot?_eq_stem_iff (named : p.splitName? = some (before, name)) :
    p.snapshot? = some ⟨parentParts before ++ [stemOf name ++ ['.', 'b', 'i', 'n']]⟩ ↔
      IsPlain (stemOf name) := by
  rw [snapshot?_eq named, Option.some.injEq, IsPlain]
  by_cases single : stemOf name = dot
  · rw [single]
    exact iff_of_false (withExtension_dot_ne _ (by decide) _) fun plain => plain.1 rfl
  · by_cases double : stemOf name = dotDot
    · rw [double, withExtension_dotDot]
      refine iff_of_false (fun same => ?_) (by decide)
      have parts := (List.append_inj' (congrArg Path.parts same) rfl).2
      exact absurd parts (by decide)
    · have said := isIdle_stemOf (splitName?_eq_some named).1 single
      rw [withExtension_append said double, ← stemOf_eq_self_iff]
      constructor
      · intro same
        have parts := (List.append_inj' (congrArg Path.parts same) rfl).2
        exact ⟨single, List.append_cancel_right (List.singleton_inj.mp parts)⟩
      · rintro ⟨_, same⟩
        rw [same]

theorem names_of_length (long : 2 < name.length) : isIdle name = false ∧ name ≠ dotDot := by
  constructor
  · simp only [isIdle, Bool.or_eq_false_iff, List.isEmpty_eq_false_iff, beq_eq_false_iff_ne]
    exact ⟨fun same => absurd long (by simp [same]), fun same => absurd long (by simp [same, dot])⟩
  · exact fun same => absurd long (by simp [same, dotDot])

/-- From the name of a snapshot its stem can be read back. -/
theorem splitName?_snapshot (named : p.splitName? = some (before, name)) (plain : IsPlain (stemOf name))
    {s : Path} (derived : s ∈ p.snapshot?) :
    ∃ around file, s.splitName? = some (around, file) ∧ stemOf file = stemOf name := by
  rw [(snapshot?_eq_stem_iff named).mpr plain] at derived
  cases derived
  have filled := stemOf_ne_nil_of_name (splitName?_eq_some named).1
  have long : 2 < (stemOf name ++ ['.', 'b', 'i', 'n']).length := by
    simp only [List.length_append, List.length_cons]
    omega
  obtain ⟨said, other⟩ := names_of_length long
  exact ⟨_, _, splitName?_append said other, stemOf_append filled (by decide)⟩

/-- Where the stems are names, the snapshots of two tables in one directory are the same exactly when
their stems are the same but for an extension of their own. -/
theorem snapshot?_eq_iff {q : Path} {above : List PathPart} {other : PathPart}
    (named : p.splitName? = some (before, name)) (otherNamed : q.splitName? = some (above, other))
    (beside : parentParts above = parentParts before)
    (names : stemOf name ∉ [dot, dotDot]) (otherNames : stemOf other ∉ [dot, dotDot]) :
    q.snapshot? = p.snapshot? ↔ stemOf (stemOf other) = stemOf (stemOf name) := by
  have extended {r : Path} {around : List PathPart} {last : PathPart}
      (named : r.splitName? = some (around, last)) (names : stemOf last ∉ [dot, dotDot]) :
      r.snapshot? = some ⟨parentParts around ++ [stemOf (stemOf last) ++ ['.', 'b', 'i', 'n']]⟩ := by
    simp only [List.mem_cons, List.not_mem_nil, or_false, not_or] at names
    have said := isIdle_stemOf (splitName?_eq_some named).1 names.1
    rw [snapshot?_eq named, withExtension_append said names.2]
  rw [extended named names, extended otherNamed otherNames, beside, Option.some.injEq, Path.mk.injEq,
    List.append_cancel_left_eq, List.singleton_inj, List.append_cancel_right_eq]

end Path

end PseudoWord
