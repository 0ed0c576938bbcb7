import VectorGraph.Fragment
import VectorGraph.Text.Hex

/-!
Fragments up to the names of their ids.

An id that was minted consists of a word, a number and a salt with underscores between them. In a
numbered text stands the word with `#` and the place of the id among all ids, which are counted in the
order of their first appearance: through the definitions and then the markup. Two fragments that
differ in the counters and salts of their ids only have the same numbered form.
-/
namespace VectorGraph

namespace Numbering

/-- The words that ids begin with. -/
def words : List String :=
  ["beamGrad", "grad", "color", "mask", "coverage", "glow", "neon", "blur", "fadeMask", "fadeGrad"]

def isSaltChar (c : Char) : Bool := (hexDigit? c).isSome && !c.isUpper

/-- What follows a word with its underscore when an id begins there: the number, an underscore and the
salt, which may be empty. -/
def tail? (cs : List Char) : Option (List Char) :=
  let digits := cs.takeWhile Char.isDigit
  match digits.isEmpty, cs.drop digits.length with
  | false, '_' :: rest => some (digits ++ '_' :: rest.takeWhile isSaltChar)
  | _, _ => none

/-- The word of an id at the front of a text, and the characters of the id. -/
def idAt? (cs : List Char) : Option (String × List Char) :=
  words.findSome? fun word =>
    let lead := word.toList ++ ['_']
    if lead.isPrefixOf cs then (tail? (cs.drop lead.length)).map fun tail => (word, lead ++ tail)
    else none

/-- Numbers the ids of a text. `known` holds the ids seen so far, `done` the numbered text before this
one, last character first. -/
def numberFrom (known : List (List Char)) (done : List Char) :
    List Char → List (List Char) × List Char
  | [] => (known, done.reverse)
  | c :: cs =>
    match idAt? (c :: cs) with
    | some (word, id) =>
      let known := if known.contains id then known else known ++ [id]
      let name := word ++ "#" ++ toString (known.idxOf id + 1)
      numberFrom known (name.toList.reverse ++ done) (cs.drop (id.length - 1))
    | none => numberFrom known (c :: done) cs
termination_by cs => cs.length
decreasing_by
  · simp only [List.length_drop, List.length_cons]
    omega
  · simp

/-- A text with its ids numbered, and the ids seen so far. -/
def number (known : List (List Char)) (text : String) : List (List Char) × String :=
  let (known, cs) := numberFrom known [] text.toList
  (known, String.ofList cs)

end Numbering

/-- The numbered form of a text. -/
def numberedText (text : String) : String := (Numbering.number [] text).2

/-- The numbered form of a fragment. -/
def Fragment.numbered (f : Fragment) : Fragment :=
  let (known, defs) := f.defs.foldl
    (fun (known, defs) d =>
      let (known, d) := Numbering.number known d
      (known, defs ++ [d]))
    ([], [])
  { markup := (Numbering.number known f.markup).2, defs }

end VectorGraph
