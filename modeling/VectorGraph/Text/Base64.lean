/-!
Base64.

Reading skips every character outside the alphabet. Padding ends the data once two characters of a
group are there and the group is full with the padding; otherwise the last group has to be
complete.
-/
namespace VectorGraph.Base64

def letter (n : UInt8) : UInt8 :=
  if n < 26 then n + 65
  else if n < 52 then n + 71
  else if n < 62 then n - 4
  else if n == 62 then 43
  else 47

/-- The value of a character of the alphabet. -/
def value? (c : UInt8) : Option UInt8 :=
  if 65 ≤ c && c ≤ 90 then some (c - 65)
  else if 97 ≤ c && c ≤ 122 then some (c - 71)
  else if 48 ≤ c && c ≤ 57 then some (c + 4)
  else if c == 43 then some 62
  else if c == 47 then some 63
  else none

/-- Encodes the bytes from `i` on, in `groups` groups of three. -/
def encodeFrom (bytes : ByteArray) : Nat → Nat → ByteArray → ByteArray
  | 0, _, out => out
  | groups + 1, i, out =>
    let left := bytes.size - i
    let a := bytes.get! i
    let b := if 1 < left then bytes.get! (i + 1) else 0
    let c := if 2 < left then bytes.get! (i + 2) else 0
    let out := out.push (letter (a >>> 2))
    let out := out.push (letter (((a &&& 3) <<< 4) ||| (b >>> 4)))
    let out := out.push (if 1 < left then letter (((b &&& 15) <<< 2) ||| (c >>> 6)) else 61)
    let out := out.push (if 2 < left then letter (c &&& 63) else 61)
    encodeFrom bytes groups (i + 3) out

/-- The letters of a byte sequence. -/
def encode (bytes : ByteArray) : ByteArray :=
  encodeFrom bytes ((bytes.size + 2) / 3) 0 (ByteArray.emptyWithCapacity ((bytes.size + 2) / 3 * 4))

/-- Reads `count` letters from `i` on. `filled` characters of the current group were read and
`carry` holds their bits that are not written yet; `pads` counts the padding since the last letter.
Nothing is returned for a group that the text leaves incomplete. -/
def decodeFrom (text : ByteArray) :
    Nat → Nat → Nat → UInt8 → Nat → ByteArray → Option ByteArray
  | 0, _, filled, _, _, out => if filled = 0 then some out else none
  | count + 1, i, filled, carry, pads, out =>
    let c := text.get! i
    if c == 61 then
      if 2 ≤ filled then
        if 4 ≤ filled + (pads + 1) then some out
        else decodeFrom text count (i + 1) filled carry (pads + 1) out
      else decodeFrom text count (i + 1) filled carry pads out
    else
      match value? c with
      | none => decodeFrom text count (i + 1) filled carry pads out
      | some v =>
        match filled with
        | 0 => decodeFrom text count (i + 1) 1 v 0 out
        | 1 => decodeFrom text count (i + 1) 2 (v &&& 15) 0 (out.push ((carry <<< 2) ||| (v >>> 4)))
        | 2 => decodeFrom text count (i + 1) 3 (v &&& 3) 0 (out.push ((carry <<< 4) ||| (v >>> 2)))
        | _ => decodeFrom text count (i + 1) 0 0 0 (out.push ((carry <<< 6) ||| v))

/-- The bytes that a text of ASCII characters stands for. -/
def decode? (text : ByteArray) : Option ByteArray :=
  decodeFrom text text.size 0 0 0 0 ByteArray.empty

end VectorGraph.Base64
