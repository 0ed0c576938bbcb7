import VectorGraph.Number.Extent

/-!
Markup trees and their serialization.

An element without children closes itself; one with children, even if they are empty text, has a
start and an end tag. Attributes are written in the order given, separated by single spaces, and
their values are not escaped.
-/
namespace VectorGraph

/-- Attributes by name, in order. -/
abbrev Attributes := List (String × String)

inductive Markup where
  /-- Serialized markup, taken over as it is. -/
  | raw (text : String)
  | element (name : String) (attributes : Attributes) (children : List Markup)
  deriving Inhabited

namespace Markup

def attributeText (a : String × String) : String := " " ++ a.1 ++ "=\"" ++ a.2 ++ "\""

def attributesText (attributes : Attributes) : String := String.join (attributes.map attributeText)

mutual

def text : Markup → String
  | .raw s => s
  | .element name attributes [] => "<" ++ name ++ attributesText attributes ++ "/>"
  | .element name attributes (child :: rest) =>
    "<" ++ name ++ attributesText attributes ++ ">" ++ text child ++ forestText rest ++
      "</" ++ name ++ ">"

def forestText : List Markup → String
  | [] => ""
  | node :: rest => text node ++ forestText rest

end

/-- An element without children. -/
def leaf (name : String) (attributes : Attributes) : Markup := .element name attributes []

/-- The attributes whose values are given. -/
def given (attributes : List (String × Option String)) : Attributes :=
  attributes.filterMap fun a => a.2.map (a.1, ·)

/-- Serialized markup in a group. -/
def group (attributes : Attributes) (markup : String) : Markup :=
  .element "g" attributes [.raw markup]

/-- A reference to a definition. -/
def reference (id : String) : String := "url(#" ++ id ++ ")"

/-- An image stretched over the square from the origin. -/
def image (href : String) (resolution : Extent) (pixelated : Bool) : Markup :=
  leaf "image" ((if pixelated then [("style", "image-rendering: pixelated")] else []) ++
    [("href", href), ("x", "0"), ("y", "0"), ("width", resolution.attributeText),
      ("height", resolution.attributeText), ("preserveAspectRatio", "none")])

/-- A rectangle over the square from the origin. -/
def square (before : Attributes) (resolution : Extent) (fill : String) : Markup :=
  leaf "rect" (before ++ [("x", "0"), ("y", "0"), ("width", resolution.attributeText),
    ("height", resolution.attributeText), ("fill", fill)])

end Markup

/-- A complete document: the definitions in one block, if there are any, then the markup. The view
is a square of side `viewport`. -/
def svgDocument (markup : String) (defs : List String) (viewport width height : Extent) : String :=
  let side := viewport.literal
  let block := if defs.isEmpty then [] else [Markup.element "defs" [] [.raw (String.join defs)]]
  (Markup.element "svg"
    [("xmlns", "http://www.w3.org/2000/svg"), ("viewBox", "0 0 " ++ side ++ " " ++ side),
      ("width", width.attributeText), ("height", height.attributeText)]
    (block ++ [.raw markup])).text

end VectorGraph
