namespace PseudoWord

/-- The decimal digits of a number, without leading zeros. -/
def numeral (value : Nat) : List Char := Nat.toDigits 10 value

/-- Reads a number below `bound` from ASCII digits alone. Leading zeros are allowed. -/
def numeral? (bound : Nat) (text : List Char) : Option Nat :=
  if !text.isEmpty && text.all Char.isDigit then
    let value := Nat.ofDigitChars 10 text 0
    if value < bound then some value else none
  else none

theorem isDigit_of_mem_numeral {value : Nat} {c : Char} (member : c ∈ numeral value) :
    c.isDigit = true :=
  Nat.isDigit_of_mem_toDigits (by decide) (by decide) member

theorem numeral_ne_nil (value : Nat) : numeral value ≠ [] := Nat.toDigits_ne_nil

/-- What is written is read back. -/
theorem numeral?_numeral {bound value : Nat} (below : value < bound) :
    numeral? bound (numeral value) = some value := by
  have digits : (numeral value).all Char.isDigit = true :=
    List.all_eq_true.mpr (fun _ member => isDigit_of_mem_numeral member)
  have same : Nat.ofDigitChars 10 (numeral value) 0 = value :=
    Nat.ofDigitChars_toDigits (by decide) (by decide)
  simp [numeral?, digits, same, below, numeral_ne_nil]

end PseudoWord
