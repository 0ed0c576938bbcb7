import VectorGraph.Json.Parser
import VectorGraph.Settings.Basic

/-!
Settings files: a JSON object in UTF-8 with one field per setting.

Reading never fails. A field of the wrong type keeps its default, unknown fields are ignored, and a
file that holds no object gives the defaults with a warning.
-/
namespace VectorGraph.Settings

/-- Why a file could not be used. -/
inductive FileFault where
  | notText
  | notJson
  | notAnObject
  deriving DecidableEq, Repr

def FileFault.message : FileFault → String
  | .notText => "the content is not UTF-8"
  | .notJson => "the content is not JSON"
  | .notAnObject => "top-level JSON value is not an object"

/-- The integer under a key, or the default; a truth value is no integer. -/
def wholeAt (fields : Fields) (key : String) (fallback : Int) : Int :=
  match Json.field? fields key with
  | some (.whole n) => n
  | _ => fallback

/-- The truth value under a key, or the default. -/
def flagAt (fields : Fields) (key : String) (fallback : Bool) : Bool :=
  match Json.field? fields key with
  | some (.bool b) => b
  | _ => fallback

def ofFields (fields : Fields) : Settings :=
  let standard : Settings := {}
  { previewResolution := wholeAt fields "preview_resolution" standard.previewResolution
    defaultFidelity := wholeAt fields "default_fidelity" standard.defaultFidelity
    blurSteps := wholeAt fields "blur_steps" standard.blurSteps
    maxCacheEntries := wholeAt fields "max_cache_entries" standard.maxCacheEntries
    idSaltLength := wholeAt fields "id_salt_length" standard.idSaltLength
    concurrentSiblings := flagAt fields "concurrent_siblings" standard.concurrentSiblings
    verbose := flagAt fields "verbose" standard.verbose }

/-- The settings as the fields of an object, in their order in a file. -/
def toFields (s : Settings) : Fields :=
  [("preview_resolution", .whole s.previewResolution), ("default_fidelity", .whole s.defaultFidelity),
    ("blur_steps", .whole s.blurSteps), ("max_cache_entries", .whole s.maxCacheEntries),
    ("id_salt_length", .whole s.idSaltLength), ("concurrent_siblings", .bool s.concurrentSiblings),
    ("verbose", .bool s.verbose)]

/-- The settings in a file's content. -/
def parse (content : String) : Except FileFault Settings :=
  match Json.parse content with
  | none => .error .notJson
  | some (.object fields) => .ok (ofFields fields)
  | some _ => .error .notAnObject

/-- The settings in a file's bytes. -/
def parseBytes (bytes : ByteArray) : Except FileFault Settings :=
  match String.fromUTF8? bytes with
  | none => .error .notText
  | some content => parse content

/-- The settings in the file at `path`, with the lines that are reported; `bytes` are missing when
there is no file. -/
def load (path : String) (bytes : Option ByteArray) : Settings × List String :=
  match bytes with
  | none => ({}, [])
  | some bytes =>
    match parseBytes bytes with
    | .ok s => (s, ["✓ Loaded configuration from " ++ path])
    | .error fault => ({}, ["Warning: Could not load config file: " ++ fault.message])

/-- One line of a file. -/
def line (field : String × Json) : String :=
  let value :=
    match field.2 with
    | .bool b => if b then "true" else "false"
    | .whole n => toString n
    | _ => "null"
  "  \"" ++ field.1 ++ "\": " ++ value

/-- The integers among the settings. -/
def wholes (s : Settings) : List Int :=
  [s.previewResolution, s.defaultFidelity, s.blurSteps, s.maxCacheEntries, s.idSaltLength]

/-- The content of a file with the settings, indented by two; nothing when an integer has more
digits than can be read back. -/
def save? (s : Settings) : Option String :=
  if s.wholes.all fun n => n.natAbs.repr.length ≤ Json.maxDigits then
    some ("\x7b\n" ++ ",\n".intercalate (s.toFields.map line) ++ "\n\x7d")
  else none

/-- The bytes of a file with the settings. -/
def saveBytes? (s : Settings) : Option ByteArray := s.save?.map (·.toUTF8)

end VectorGraph.Settings
