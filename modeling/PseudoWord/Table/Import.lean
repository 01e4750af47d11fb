import PseudoWord.Graph.Change
import PseudoWord.Table.Row

namespace PseudoWord

/-- Flags a node as initializing, creating it when it is missing. -/
def Graph.markInitializing (g : Graph) (id : NodeId) : Graph :=
  g.put id { g.nodeOrNew id with initializing := true }

/-- The node with the fragments and links of a row added to it. The row makes it terminating when it
says so or when the node has no links after all. -/
def Node.extend (n : Node) (fragments : List FragmentItem) (links : List (NodeId × Int64))
    (terminal : Bool) : Node :=
  let n := fragments.foldl (fun n item => n.addFragment item.text item.weight) n
  let n := links.foldl (fun n link => n.addLink link.1 link.2) n
  { n with terminating := terminal || n.isTerminating }

namespace Graph

/-- Adds what a row says. The targets of its links are created before the links are added. -/
def addRow (g : Graph) (row : Row) : Graph :=
  match row.head with
  | .starts => (row.links.filterMap LinkItem.target?).foldl markInitializing g
  | .node id =>
    let links := row.links.filterMap LinkItem.followed?
    let g := links.foldl (fun g link => g.ensureNode link.1) g
    g.put id ((g.nodeOrNew id).extend row.fragments links (row.links.contains .terminal))

/-- Adds what a line of a table says; a line that is not a row is refused and changes nothing. -/
def applyRow (g : Graph) (line : String) : Change :=
  match Row.parse line.toList with
  | .ok row => ⟨true, g.addRow row⟩
  | .error _ => ⟨false, g⟩

/-- The prepared graph of a table. Lines that are not rows are skipped. -/
def ofTable (lines : List String) : Graph :=
  (lines.foldl (fun g line => (g.applyRow line).graph) empty).prepare

end Graph

end PseudoWord
