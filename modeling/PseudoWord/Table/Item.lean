import PseudoWord.Node
import PseudoWord.Text.Blank
import PseudoWord.Text.DecimalDigit
import PseudoWord.Text.Numeral
import PseudoWord.Text.WordChar

namespace PseudoWord

/-- The items of a field: its parts between bars, without the blanks around them and without the
empty ones. -/
def fieldItems (field : List Char) : List (List Char) :=
  ((field.splitOn '|').map trimBlanks).filter (!·.isEmpty)

/-- What may follow the main part of an item: nothing, or decimal digits in parentheses. The digits
are returned as they are written. -/
def parenthesized? : List Char → Option (Option (List Char))
  | [] => some none
  | '(' :: rest =>
    let digits := rest.takeWhile isDecimalDigit
    if !digits.isEmpty && rest.dropWhile isDecimalDigit == [')'] then some (some digits) else none
  | _ => none

/-- The weight that an item gives. It is 1 where none is written; a written one has ASCII digits alone
and is below the bound. -/
def weight? : Option (List Char) → Option Int64
  | none => some 1
  | some digits => (numeral? weightBound digits).map Int64.ofNat

/-- An item of the fragments field. -/
structure FragmentItem where
  text : String
  weight : Int64
deriving DecidableEq

/-- Reads word characters and an optional weight. -/
def FragmentItem.parse? (item : List Char) : Option FragmentItem := do
  let text := item.takeWhile isWordChar
  let digits ← parenthesized? (item.dropWhile isWordChar)
  let weight ← weight? digits
  if text.isEmpty then none else some ⟨String.ofList text, weight⟩

/-- An item of the links field: the mark of a terminating node, or a weighted link. -/
inductive LinkItem where
  | terminal
  | link (target : NodeId) (weight : Int64)
deriving DecidableEq

/-- Reads O or N, decimal digits and an optional weight. After O the digits and the weight only have
to be there in the right form; after N they have to be numbers. -/
def LinkItem.parse? : List Char → Option LinkItem
  | kind :: rest => do
    let digits ← parenthesized? (rest.dropWhile isDecimalDigit)
    if kind = 'O' then some .terminal
    else if kind = 'N' then
      let id ← numeral? UInt64.size (rest.takeWhile isDecimalDigit)
      let weight ← weight? digits
      some (.link ⟨id.toUInt64⟩ weight)
    else none
  | [] => none

end PseudoWord
