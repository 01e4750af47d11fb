import PseudoWord.Table.Item

namespace PseudoWord

/-- What the first field of a row says: that the row lists start nodes, or which node it is about. -/
inductive RowHead where
  | starts
  | node (id : NodeId)
deriving DecidableEq

/-- A row of a transition table, with the items of its two other fields as they are written. -/
structure Row where
  head : RowHead
  fragmentItems : List (List Char)
  linkItems : List (List Char)
deriving DecidableEq

/-- Why a line of a table is skipped. -/
inductive RowFault where
  | blank
  | malformed
  | missingId
deriving DecidableEq

namespace RowHead

/-- Reads S or N and decimal digits, with blanks around them. The digits after S say nothing; those
after N must be a 64-bit number. -/
def parse (field : List Char) : Except RowFault RowHead :=
  match trimBlanks field with
  | kind :: digits =>
    if !digits.all isDecimalDigit then .error .malformed
    else if kind = 'S' then .ok .starts
    else if kind = 'N' then
      match numeral? UInt64.size digits with
      | some id => .ok (.node ⟨id.toUInt64⟩)
      | none => .error .missingId
    else .error .malformed
  | [] => .error .malformed

end RowHead

namespace Row

/-- Reads three fields with semicolons between them. -/
def parse (line : List Char) : Except RowFault Row :=
  if line.all isBlank then .error .blank
  else match line.splitOn ';' with
    | [head, fragments, links] =>
      (RowHead.parse head).map (fun head => ⟨head, fieldItems fragments, fieldItems links⟩)
    | _ => .error .malformed

/-- The fragments of the row; malformed items are left out. -/
def fragments (row : Row) : List FragmentItem := row.fragmentItems.filterMap FragmentItem.parse?

/-- The items of the links field that are well formed. -/
def links (row : Row) : List LinkItem := row.linkItems.filterMap LinkItem.parse?

end Row

namespace LinkItem

/-- The node that a link leads to, whatever its weight. -/
def target? : LinkItem → Option NodeId
  | .terminal => none
  | .link target _ => some target

/-- The target and weight of a link that can be followed. -/
def followed? : LinkItem → Option (NodeId × Int64)
  | .terminal => none
  | .link target weight => if 0 < weight then some (target, weight) else none

end LinkItem

end PseudoWord
