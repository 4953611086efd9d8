/-!
# Patterns for texts that contain a piece

In a pattern `%` stands for any text, `_` for any character, and a backslash takes away the meaning
of what follows it. In the pattern for a piece, each of the three that occurs in the piece stands
behind a backslash.
-/

namespace Lineage.Sql.Pattern

/-- Put a backslash before every occurrence of a character. -/
def escape (mark : Char) (cs : List Char) : List Char :=
  cs.flatMap fun c => if c = mark then ['\\', c] else [c]

/-- The characters with a meaning, in the order in which they are escaped: the backslash comes
first, or it would be put before the backslashes of the others too. -/
def marks : List Char := ['\\', '%', '_']

/-- The pattern of the texts that contain a piece. -/
def containing (piece : String) : String :=
  String.ofList ('%' :: (marks.foldl (fun cs mark => escape mark cs) piece.toList ++ ['%']))

end Lineage.Sql.Pattern
