import VectorGraph.Digest.Sha1
import VectorGraph.Text.Blank

/-!
Fragments: serialized markup together with the definitions that it refers to.

The definitions of several fragments are merged like ordered sets, the first copy of each being
kept. `Fragment.image` is the byte sequence by which a fragment is identified, and `inputsImage`
the one for all inputs of a node.
-/
namespace VectorGraph

structure Fragment where
  markup : String := ""
  defs : List String := []
  deriving DecidableEq, Repr, Inhabited

namespace Fragment

def empty : Fragment := {}

/-- Whether the markup draws nothing: it holds only blank characters. -/
def isEmpty (f : Fragment) : Bool := isBlankText f.markup

/-- The definitions of the fragment followed by further ones, the first copy of each kept. -/
def withDefs (f : Fragment) (extra : List String) : List String := (f.defs ++ extra).eraseDups

/-- The bytes that identify a fragment: its markup, then every definition after a zero byte. -/
def image (f : Fragment) : ByteArray :=
  f.defs.foldl (fun bytes d => bytes.push 0 ++ d.toUTF8) f.markup.toUTF8

end Fragment

/-- A way to make a short digest of a byte sequence. -/
abbrev Digest := ByteArray → String

/-- Inputs of a node by socket. -/
abbrev Inputs := List (String × Fragment)

/-- The bytes that identify the inputs of a node: for every socket, in the order of the code points,
its name, the digest of its fragment and a semicolon. -/
def inputsImage (digest : Digest) (inputs : Inputs) : ByteArray :=
  (inputs.mergeSort fun a b => !(b.1 < a.1)).foldl
    (fun bytes (socket, f) =>
      bytes ++ socket.toUTF8 ++ "=".toUTF8 ++ (digest f.image).toUTF8 ++ ";".toUTF8)
    ByteArray.empty

end VectorGraph
