import PseudoWord.Note.Basic
import PseudoWord.Table.Row

namespace PseudoWord

/-- The items of a node row that are left out: first the links, then the fragments. The items of a row
of start nodes are left out silently. -/
def Row.notes (row : Row) : List Note :=
  match row.head with
  | .starts => []
  | .node id =>
    let links := row.linkItems.filter (fun item => (LinkItem.parse? item).isNone)
    let fragments := row.fragmentItems.filter (fun item => (FragmentItem.parse? item).isNone)
    links.map (fun item => .malformedLink (String.ofList item) id) ++
      fragments.map (fun item => .malformedFragment (String.ofList item) id)

/-- What applying a line of a table passes over. -/
def Note.ofLine (line : String) : List Note :=
  match Row.parse line.toList with
  | .ok row => row.notes
  | .error .blank => []
  | .error .malformed => [.malformedRow line]
  | .error .missingId => [.rowWithoutId line]

end PseudoWord
