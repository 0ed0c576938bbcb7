/-!
Lines of a text. A line ends at a line feed, at a carriage return with or without a line feed behind
it, or at one of the other characters that Unicode or ASCII names as separators of lines, pages and
records.
-/
namespace VectorGraph

def endsLine (c : Char) : Bool :=
  let n := c.toNat
  (0x0A ≤ n && n ≤ 0x0D) || (0x1C ≤ n && n ≤ 0x1E) || n == 0x85 || n == 0x2028 || n == 0x2029

/-- The lines of a text behind `line`, which is read backwards; nothing stands for an empty last
line. -/
def linesFrom : (line : List Char) → List Char → List (List Char)
  | [], [] => []
  | line, [] => [line.reverse]
  | line, '\r' :: '\n' :: rest => line.reverse :: linesFrom [] rest
  | line, c :: rest => if endsLine c then line.reverse :: linesFrom [] rest else linesFrom (c :: line) rest

def splitLines (text : String) : List String := (linesFrom [] text.toList).map String.ofList

end VectorGraph
