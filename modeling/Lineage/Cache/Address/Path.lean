import Lineage.Cache.Address.Host

/-!
# Paths

A path is a list of segments between slashes. Read from left to right, a segment `.` adds nothing
and a segment `..` takes the segment before it away. The points may be escaped.
-/

namespace Lineage.Address

/-- A segment with its escaped points in clear. -/
def clearPoints : List Char → List Char
  | '%' :: '2' :: 'e' :: rest => '.' :: clearPoints rest
  | '%' :: '2' :: 'E' :: rest => '.' :: clearPoints rest
  | c :: rest => c :: clearPoints rest
  | [] => []

/-- Whether a segment stands for the place itself. -/
def isHere (segment : List Char) : Bool := clearPoints segment == ['.']

/-- Whether a segment stands for the place above. -/
def isUp (segment : List Char) : Bool := clearPoints segment == ['.', '.']

/-- Whether a segment names a drive: it is never taken away. -/
def isDrive : List Char → Bool
  | letter :: mark :: rest =>
    letter.isAlpha && (mark == ':' || mark == '|') && (rest.isEmpty || rest.head? == some '\\')
  | _ => false

/-- The segments without the nearest one, which is the first. -/
def climb : List (List Char) → List (List Char)
  | [] => []
  | nearest :: others => if isDrive nearest then nearest :: others else others

/-- The segments of a path that has left the segments of `behind`, nearest first. -/
def walk (behind : List (List Char)) : List (List Char) → List (List Char)
  | [] => behind.reverse
  | [last] =>
    if isUp last then (climb behind).reverse ++ [[]]
    else if isHere last then behind.reverse ++ [[]]
    else behind.reverse ++ [last]
  | segment :: rest =>
    if isUp segment then walk (climb behind) rest
    else if isHere segment then walk behind rest
    else walk (segment :: behind) rest

/-- The segments of what follows the first slash of a path. -/
def segments (path : List Char) : List (List Char) := walk [] (split '/' path)

end Lineage.Address
