import Mathlib.Algebra.Ring.Nat
import PseudoWord.Proofs.TextFields

namespace PseudoWord

/-- ASCII digits, at least one, that stand for this number. -/
structure Spells (digits : List Char) (value : Nat) : Prop where
  filled : digits ≠ []
  ascii : ∀ c ∈ digits, c.isDigit = true
  sum : Nat.ofDigitChars 10 digits 0 = value

/-- What may follow the main part of an item: nothing, or decimal digits of any script in
parentheses. -/
inductive TailForm : List Char → Option (List Char) → Prop
  | nothing : TailForm [] none
  | digits {digits : List Char} : digits ≠ [] → (∀ c ∈ digits, isDecimalDigit c = true) →
      TailForm ('(' :: (digits ++ [')'])) (some digits)

/-- What may follow the main part of an item that has a weight: nothing for the weight 1, or a number
in parentheses that a signed 64-bit number can be. -/
inductive WeightForm : List Char → Int64 → Prop
  | unwritten : WeightForm [] 1
  | written {digits : List Char} {value : Nat} : Spells digits value → value ≤ 2 ^ 63 - 1 →
      WeightForm ('(' :: (digits ++ [')'])) (.ofNat value)

/-- A fragment as it may be written: a run of word characters, and its weight. -/
inductive FragmentForm : List Char → FragmentItem → Prop
  | intro {text tail : List Char} {weight : Int64} : text ≠ [] → (∀ c ∈ text, isWordChar c = true) →
      WeightForm tail weight → FragmentForm (text ++ tail) ⟨String.ofList text, weight⟩

/-- An item of the links field as it may be written. The digits after O, inside parentheses or not,
need not be a number. -/
inductive LinkForm : List Char → LinkItem → Prop
  | terminal {digits tail : List Char} {inside : Option (List Char)} :
      (∀ c ∈ digits, isDecimalDigit c = true) → TailForm tail inside →
      LinkForm ('O' :: (digits ++ tail)) .terminal
  | link {digits tail : List Char} {value : Nat} {weight : Int64} : Spells digits value →
      value ≤ 2 ^ 64 - 1 → WeightForm tail weight →
      LinkForm ('N' :: (digits ++ tail)) (.link ⟨value.toUInt64⟩ weight)

section Scans

variable {p : Char → Bool} {text tail : List Char}

/-- A scan stops where the text does if what follows does not begin like it. -/
theorem scan_append (inside : ∀ c ∈ text, p c = true) (stops : ∀ c ∈ tail.head?, p c = false) :
    (text ++ tail).takeWhile p = text ∧ (text ++ tail).dropWhile p = tail := by
  rw [List.takeWhile_append_of_pos inside, List.dropWhile_append_of_pos inside]
  cases tail with
  | nil => exact ⟨List.append_nil text, rfl⟩
  | cons c rest =>
    have outside : ¬ p c = true := Bool.eq_false_iff.mp (stops c rfl)
    rw [List.takeWhile_cons_of_neg outside, List.dropWhile_cons_of_neg outside, List.append_nil]
    exact ⟨rfl, rfl⟩

theorem of_mem_takeWhile {c : Char} (member : c ∈ text.takeWhile p) : p c = true :=
  List.all_eq_true.mp List.all_takeWhile c member

/-- What follows the main part of an item begins with a parenthesis or is empty. -/
theorem TailForm.scan {inside : Option (List Char)} (form : TailForm tail inside)
    (digits : ∀ c ∈ text, p c = true) (stops : p '(' = false) :
    (text ++ tail).takeWhile p = text ∧ (text ++ tail).dropWhile p = tail := by
  refine scan_append digits fun c atHead => ?_
  cases form with
  | nothing => cases atHead
  | digits =>
    cases atHead
    exact stops

end Scans

theorem isWordText_iff {text : List Char} :
    isWordText text = true ↔ text ≠ [] ∧ ∀ c ∈ text, isWordChar c = true := by
  rw [isWordText, Bool.and_eq_true, Bool.not_eq_true', List.isEmpty_eq_false_iff, List.all_eq_true]

theorem numeral?_eq_some_iff {bound value : Nat} {text : List Char} :
    numeral? bound text = some value ↔ Spells text value ∧ value < bound := by
  rw [numeral?]
  constructor
  · intro read
    split at read
    · rename_i digits
      rw [Bool.and_eq_true, Bool.not_eq_true', List.isEmpty_eq_false_iff, List.all_eq_true] at digits
      dsimp only at read
      split at read
      · rename_i below
        cases Option.some.inj read
        exact ⟨⟨digits.1, digits.2, rfl⟩, below⟩
      · cases read
    · cases read
  · rintro ⟨⟨filled, ascii, rfl⟩, below⟩
    have digits : (!text.isEmpty && text.all Char.isDigit) = true := by
      rw [Bool.and_eq_true, Bool.not_eq_true', List.isEmpty_eq_false_iff, List.all_eq_true]
      exact ⟨filled, ascii⟩
    rw [if_pos digits]
    exact if_pos below

theorem numeral?_size_eq_some_iff {value : Nat} {text : List Char} :
    numeral? UInt64.size text = some value ↔ Spells text value ∧ value ≤ 2 ^ 64 - 1 := by
  have whole : UInt64.size = 2 ^ 64 := rfl
  rw [numeral?_eq_some_iff]
  refine and_congr_right fun _ => ?_
  omega

theorem spells_numeral (value : Nat) : Spells (numeral value) value :=
  (numeral?_eq_some_iff.mp (numeral?_numeral (Nat.lt_succ_self value))).1

theorem parenthesized?_eq_some_iff {tail : List Char} {inside : Option (List Char)} :
    parenthesized? tail = some inside ↔ TailForm tail inside := by
  have closes : ∀ c ∈ [')'].head?, isDecimalDigit c = false := by
    rintro _ ⟨⟩
    decide +kernel
  constructor
  · intro read
    rw [parenthesized?.eq_def] at read
    split at read
    · cases Option.some.inj read
      exact .nothing
    · rename_i rest
      have whole := List.takeWhile_append_dropWhile (p := isDecimalDigit) (l := rest)
      dsimp only at read
      split at read
      · rename_i closed
        rw [Bool.and_eq_true, Bool.not_eq_true', List.isEmpty_eq_false_iff, beq_iff_eq] at closed
        cases Option.some.inj read
        have form := TailForm.digits closed.1 fun _ member => of_mem_takeWhile member
        rwa [← closed.2, whole] at form
      · cases read
    · cases read
  · intro form
    cases form with
    | nothing => rfl
    | @digits digits filled decimal =>
      obtain ⟨taken, left⟩ := scan_append decimal closes
      have some : digits.isEmpty = false := List.isEmpty_eq_false_iff.mpr filled
      simp [parenthesized?, taken, left, some]

/-- The tails that give a weight. -/
theorem weightForm_iff {tail : List Char} {weight : Int64} :
    WeightForm tail weight ↔ ∃ inside, TailForm tail inside ∧ weight? inside = some weight := by
  have bound (value : Nat) : value ≤ 2 ^ 63 - 1 ↔ value < weightBound := by
    rw [weightBound]
    omega
  constructor
  · intro form
    cases form with
    | unwritten => exact ⟨none, .nothing, rfl⟩
    | @written digits value spells small =>
      have read := numeral?_eq_some_iff.mpr ⟨spells, (bound value).mp small⟩
      have decimal (c : Char) (member : c ∈ digits) := isDecimalDigit_of_isDigit (spells.ascii c member)
      refine ⟨some digits, .digits spells.filled decimal, ?_⟩
      rw [weight?, read]
      rfl
  · rintro ⟨inside, form, gives⟩
    cases form with
    | nothing =>
      cases Option.some.inj gives
      exact .unwritten
    | digits filled decimal =>
      obtain ⟨value, read, rfl⟩ := Option.map_eq_some_iff.mp gives
      obtain ⟨spells, below⟩ := numeral?_eq_some_iff.mp read
      exact .written spells ((bound value).mpr below)

/-- The fragments that are read are those that are well formed. -/
theorem FragmentItem.parse?_eq_some_iff {item : List Char} {meaning : FragmentItem} :
    parse? item = some meaning ↔ FragmentForm item meaning := by
  have stops : isWordChar '(' = false := by decide +kernel
  constructor
  · intro read
    simp only [parse?, Option.bind_eq_bind, Option.bind_eq_some_iff] at read
    obtain ⟨inside, tail, weight, gives, rest⟩ := read
    split at rest
    · cases rest
    · rename_i filled
      cases Option.some.inj rest
      have form := FragmentForm.intro (fun empty => filled (List.isEmpty_iff.mpr empty))
        (fun c member => of_mem_takeWhile member)
        (weightForm_iff.mpr ⟨inside, parenthesized?_eq_some_iff.mp tail, gives⟩)
      rwa [List.takeWhile_append_dropWhile] at form
  · rintro ⟨filled, words, weight⟩
    obtain ⟨inside, tail, gives⟩ := weightForm_iff.mp weight
    obtain ⟨taken, left⟩ := tail.scan words stops
    simp [parse?, taken, left, parenthesized?_eq_some_iff.mpr tail, gives, filled]

/-- The items of the links field that are read are those that are well formed. -/
theorem LinkItem.parse?_eq_some_iff {item : List Char} {meaning : LinkItem} :
    parse? item = some meaning ↔ LinkForm item meaning := by
  have stops : isDecimalDigit '(' = false := by decide +kernel
  constructor
  · intro read
    cases item with
    | nil => cases read
    | cons kind rest =>
      have whole := List.takeWhile_append_dropWhile (p := isDecimalDigit) (l := rest)
      have decimal : ∀ c ∈ rest.takeWhile isDecimalDigit, isDecimalDigit c = true :=
        fun _ member => of_mem_takeWhile member
      simp only [parse?, Option.bind_eq_bind, Option.bind_eq_some_iff] at read
      obtain ⟨inside, tail, said⟩ := read
      have tail := parenthesized?_eq_some_iff.mp tail
      split at said
      · rename_i atHead
        cases Option.some.inj said
        have form := LinkForm.terminal decimal tail
        rwa [whole, ← atHead] at form
      · split at said
        · rename_i atHead
          simp only [Option.bind_eq_some_iff] at said
          obtain ⟨value, read, weight, gives, same⟩ := said
          cases Option.some.inj same
          obtain ⟨spells, small⟩ := numeral?_size_eq_some_iff.mp read
          have form := LinkForm.link spells small (weightForm_iff.mpr ⟨inside, tail, gives⟩)
          rwa [whole, ← atHead] at form
        · cases said
  · intro form
    cases form with
    | terminal decimal tail =>
      obtain ⟨_, left⟩ := tail.scan decimal stops
      simp [parse?, left, parenthesized?_eq_some_iff.mpr tail]
    | @link digits _ value _ spells small weight =>
      obtain ⟨inside, tail, gives⟩ := weightForm_iff.mp weight
      have decimal (c : Char) (member : c ∈ digits) := isDecimalDigit_of_isDigit (spells.ascii c member)
      obtain ⟨taken, left⟩ := tail.scan decimal stops
      have read := numeral?_size_eq_some_iff.mpr ⟨spells, small⟩
      simp [parse?, taken, left, parenthesized?_eq_some_iff.mpr tail, gives, read]

end PseudoWord
