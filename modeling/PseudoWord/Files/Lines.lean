namespace PseudoWord

/-- A line that was ended by a line feed, without the carriage return that may stand before it. -/
def dropReturn (line : List Char) : List Char :=
  if line.getLast? = some '\r' then line.dropLast else line

/-- The lines of pieces between line feeds. The last piece was not ended by one: it stays as it is, and
is no line when it is empty. -/
def linesOfPieces : List (List Char) → List (List Char)
  | [] => []
  | [last] => if last.isEmpty then [] else [last]
  | piece :: rest => dropReturn piece :: linesOfPieces rest

/-- The lines of a text, which end with a line feed or with a carriage return and a line feed. -/
def splitLines (text : String) : List String :=
  (linesOfPieces (text.toList.splitOn '\n')).map String.ofList

/-- The text in which each line is followed by a line feed. -/
def joinLines (lines : List String) : String :=
  String.ofList (lines.flatMap (fun line => line.toList ++ ['\n']))

end PseudoWord
