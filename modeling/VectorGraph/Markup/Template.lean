import VectorGraph.Text.Blank

/-!
Templates for the text that is put in the place of a match.

A match ends with a delimiter. In a template `\1` and `\g<1>` stand for the delimiter and `\g<0>` for
the whole match. Further escapes begin with a backslash, too: `\0` with up to two more octal digits
and any three octal digits up to 377 stand for the character of that number, and `\a`, `\b`, `\f`,
`\n`, `\r`, `\t` and `\v` for control characters. Before any other letter, and before a reference to
something else, a backslash is refused. Two backslashes are one; before any other character a
backslash stands for itself.
-/
namespace VectorGraph

inductive TemplatePart where
  | char (c : Char)
  | matched
  | delimiter
  deriving DecidableEq, Repr

abbrev Template := List TemplatePart

namespace Template

/-- The text without escapes, as it is. -/
def plain (text : List Char) : Template := text.map .char

/-- What stands for a match with the given text and delimiter. -/
def fill (t : Template) (text : List Char) (delimiter : Char) : List Char :=
  t.flatMap fun
    | .char c => [c]
    | .matched => text
    | .delimiter => [delimiter]

/-! ## Reading -/

def isOctal (c : Char) : Bool := '0' ≤ c && c ≤ '7'

/-- The number of a row of digits to a base. -/
def numeral (base : Nat) (digits : List Char) : Nat :=
  digits.foldl (fun n c => n * base + (c.toNat - '0'.toNat)) 0

/-- What the reference with a number stands for. -/
def reference? : Nat → Option TemplatePart
  | 0 => some .matched
  | 1 => some .delimiter
  | _ => none

/-- Digits without the single underscores that may stand between them. -/
def ungrouped? : List Char → Option (List Char)
  | [] => none
  | [c] => if c.isDigit then some [c] else none
  | c :: '_' :: rest => if c.isDigit then (ungrouped? rest).map (c :: ·) else none
  | c :: d :: rest => if c.isDigit then (ungrouped? (d :: rest)).map (c :: ·) else none

/-- What the name of a group stands for: a number, perhaps with a sign and blanks around it. -/
def group? (name : List Char) : Option TemplatePart :=
  let core := ((name.dropWhile isBlankChar).reverse.dropWhile isBlankChar).reverse
  match core with
  | '+' :: digits => (ungrouped? digits).bind fun ds => reference? (numeral 10 ds)
  | '-' :: digits => (ungrouped? digits).bind fun ds =>
    if numeral 10 ds = 0 then reference? 0 else none
  | digits => (ungrouped? digits).bind fun ds => reference? (numeral 10 ds)

/-- The control character that a letter stands for. -/
def control? : Char → Option Char
  | 'a' => some '\x07'
  | 'b' => some '\x08'
  | 'f' => some '\x0c'
  | 'n' => some '\n'
  | 'r' => some '\r'
  | 't' => some '\t'
  | 'v' => some '\x0b'
  | _ => none

/-- What a backslash and a digit stand for, and what follows. -/
def numbered? (c : Char) (cs : List Char) : Option (Template × List Char) :=
  if c = '0' then
    let more := (cs.take 2).takeWhile isOctal
    some ([.char (Char.ofNat (numeral 8 more))], cs.drop more.length)
  else
    let three := c :: cs.take 2
    if three.length = 3 && three.all isOctal then
      if numeral 8 three ≤ 0o377 then some ([.char (Char.ofNat (numeral 8 three))], cs.drop 2)
      else none
    else
      let two := c :: (cs.take 1).takeWhile Char.isDigit
      (reference? (numeral 10 two)).map fun part => ([part], cs.drop (two.length - 1))

/-- What a backslash and the characters behind it stand for, and what follows. -/
def escape? : List Char → Option (Template × List Char)
  | [] => none
  | 'g' :: '<' :: cs =>
    if (cs.dropWhile (· != '>')).isEmpty then none
    else
      (group? (cs.takeWhile (· != '>'))).map fun part => ([part], (cs.dropWhile (· != '>')).drop 1)
  | '\\' :: cs => some ([.char '\\'], cs)
  | c :: cs =>
    if c.isDigit then numbered? c cs
    else
      match control? c with
      | some d => some ([.char d], cs)
      | none => if c.isAlpha then none else some ([.char '\\', .char c], cs)

theorem length_numbered? {c : Char} {cs : List Char} {t : Template} {rest : List Char}
    (h : numbered? c cs = some (t, rest)) : rest.length ≤ cs.length := by
  simp only [numbered?] at h
  split at h
  · obtain ⟨-, rfl⟩ := Prod.mk.inj (Option.some.inj h)
    simp
  · split at h
    · split at h
      · obtain ⟨-, rfl⟩ := Prod.mk.inj (Option.some.inj h)
        simp
      · cases h
    · obtain ⟨part, -, eq⟩ := Option.map_eq_some_iff.1 h
      obtain ⟨-, rfl⟩ := Prod.mk.inj eq
      simp

theorem length_escape? {cs : List Char} {t : Template} {rest : List Char}
    (h : escape? cs = some (t, rest)) : rest.length ≤ cs.length := by
  unfold escape? at h
  split at h
  · cases h
  · next cs =>
    split at h
    · cases h
    · obtain ⟨part, -, eq⟩ := Option.map_eq_some_iff.1 h
      obtain ⟨-, rfl⟩ := Prod.mk.inj eq
      have := (List.dropWhile_sublist (l := cs) (· != '>')).length_le
      simp only [List.length_drop, List.length_cons]
      omega
  · obtain ⟨-, rfl⟩ := Prod.mk.inj (Option.some.inj h)
    simp
  · next c cs _ _ =>
    split at h
    · have := length_numbered? h
      simp only [List.length_cons]
      omega
    · split at h
      · obtain ⟨-, rfl⟩ := Prod.mk.inj (Option.some.inj h)
        simp
      · split at h
        · cases h
        · obtain ⟨-, rfl⟩ := Prod.mk.inj (Option.some.inj h)
          simp

/-- The template that a text describes; nothing if an escape is refused. -/
def read? : List Char → Option Template
  | [] => some []
  | c :: cs =>
    if c = '\\' then
      match _found : escape? cs with
      | some (t, rest) => (read? rest).map (t ++ ·)
      | none => none
    else (read? cs).map (.char c :: ·)
termination_by cs => cs.length
decreasing_by
  · have := length_escape? _found
    simp only [List.length_cons]
    omega
  · simp

end Template

end VectorGraph
