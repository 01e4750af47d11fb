import PseudoWord.Graph.Basic

namespace PseudoWord

/-- A table item: a text and its weight in parentheses. -/
def weightedText (text : List Char) (weight : UInt64) : List Char :=
  text ++ '(' :: (numeral weight.toNat ++ [')'])

def joinItems (items : List (List Char)) : List Char := [' ', '|', ' '].intercalate items

def joinFields (head fragments links : List Char) : List Char :=
  [' ', ';', ' '].intercalate [head, fragments, links]

namespace Node

def fragmentsField (n : Node) : List Char :=
  joinItems (n.fragments.weighted.map (fun item => weightedText item.1.toList item.2))

/-- The links with their weights, and the mark of a node on which a word may end. -/
def linksField (n : Node) : List Char :=
  joinItems (n.links.weighted.map (fun item => weightedText item.1.text item.2) ++
    if n.isTerminating then [['O']] else [])

def row (n : Node) : List Char := joinFields n.id.text n.fragmentsField n.linksField

end Node

namespace Graph

def startRow (g : Graph) : List Char :=
  joinFields ['S'] ['_'] (joinItems (g.initializingIds.map NodeId.text))

/-- The lines of the graph's table: the start nodes, then a row for each node in ascending order. -/
def table (g : Graph) : List String :=
  (g.startRow :: g.nodeList.map Node.row).map String.ofList

end Graph

end PseudoWord
