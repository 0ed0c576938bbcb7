import VectorGraph.Picture.Png
import VectorGraph.Text.Base64
import VectorGraph.Text.Word

/-!
Pictures in data URIs: `data:image/` with a subtype, `;base64,` and the encoded file.
-/
namespace VectorGraph.DataUri

/-- Why a text holds no picture. -/
inductive Fault where
  /-- The text is not `data:image/…;base64,…`. -/
  | notImageUri
  /-- Something in the encoded part is no ASCII character. -/
  | notAscii
  /-- The encoded part is incomplete. -/
  | badEncoding
  /-- The encoded bytes are no image file. -/
  | unreadable (fault : Png.Fault)
  deriving DecidableEq, Repr

def Fault.message : Fault → String
  | .notImageUri => "Not a base64 image data URI"
  | .notAscii => "The encoded part holds characters outside ASCII"
  | .badEncoding => "The encoded part is incomplete"
  | .unreadable .unknown => "The encoded part is no image file"
  | .unreadable .shortChunk => "A chunk of the image file is too short"
  | .unreadable .broken => "The image file is broken"

/-- The URI of a picture. -/
def encode (p : Picture) : String :=
  "data:image/png;base64," ++ (String.fromUTF8? (Base64.encode (Png.encode p))).getD ""

def isSubtypeChar (c : Char) : Bool := isWordChar c || c == '.' || c == '+' || c == '-'

/-- Drops `word` from the front. -/
def afterWord? (word cs : List Char) : Option (List Char) :=
  if word.isPrefixOf cs then some (cs.drop word.length) else none

/-- The encoded part of an image URI. -/
def payload? (uri : String) : Option String := do
  let rest ← afterWord? "data:image/".toList uri.toList
  if (rest.takeWhile isSubtypeChar).isEmpty then none
  let body ← afterWord? ";base64,".toList (rest.dropWhile isSubtypeChar)
  return String.ofList body

/-- The picture in an image URI. -/
def decode (uri : String) : Except Fault Picture :=
  match payload? uri with
  | none => .error .notImageUri
  | some body =>
    if body.toList.any fun c => c.toNat ≥ 0x80 then .error .notAscii
    else
      match Base64.decode? body.toUTF8 with
      | none => .error .badEncoding
      | some bytes => (Png.decode bytes).mapError .unreadable

end VectorGraph.DataUri
