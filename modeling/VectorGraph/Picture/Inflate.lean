import VectorGraph.Picture.Deflate
import VectorGraph.Picture.Huffman

/-!
Reading compressed data (RFC 1950 and 1951) as it is asked for.

A `Stream` goes from phase to phase. It stops as soon as the next byte would be more than was asked
for, so what stands in the compressed data behind the last byte, up to the next one, is read and
checked, too. Given more input, or asked for more output, the stream goes on where it stopped.
-/
namespace VectorGraph.Deflate

/-- The codes of a block. -/
structure Codes where
  literals : Code
  distances : Code

/-- What comes next in the compressed data, or in the output. -/
inductive Phase where
  | header
  | block
  /-- Bytes of a stored block. -/
  | stored (left : Nat)
  | symbol (codes : Codes)
  /-- A byte to be written. -/
  | literal (codes : Codes) (byte : UInt8)
  /-- Bytes to be taken from `distance` before the end of the output. -/
  | copy (codes : Codes) (left distance : Nat)
  | checksum
  | ended

/-! ## Reading bits -/

/-- The header names the method and the size of the window, and wants no dictionary. -/
def readHeader (r : Reader) : Except Stop (Phase × Reader) := do
  let (method, r) ← r.bits 8
  let (flags, r) ← r.bits 8
  if (method * 256 + flags) % 31 = 0 ∧ method % 16 = 8 ∧ method / 16 ≤ 7 ∧ flags / 32 % 2 = 0 then
    return (.block, r)
  else throw .faulty

/-- A stored block begins with its length and the complement of that. -/
def readStored (r : Reader) : Except Stop (Phase × Reader) := do
  let (length, r) ← r.align.bits 16
  let (complement, r) ← r.bits 16
  if length + complement = 65535 then return (.stored length, r) else throw .faulty

/-- The order in which the lengths of the code for lengths are written. -/
def lengthOrder : List Nat := [16, 17, 18, 0, 8, 7, 9, 6, 10, 5, 11, 4, 12, 3, 13, 2, 14, 1, 15]

/-- Reads a given number of lengths of three bits. -/
def readShortLengths : Nat → Reader → Except Stop (List Nat × Reader)
  | 0, r => .ok ([], r)
  | count + 1, r => do
    let (n, r) ← r.bits 3
    let (rest, r) ← readShortLengths count r
    return (n :: rest, r)

/-- The number of bits behind a symbol for a repeated length. -/
def repetitionBits (symbol : Nat) : Nat := if symbol = 16 then 2 else if symbol = 17 then 3 else 7

/-- What such a symbol repeats, and how often at least: the last known length, or zero. -/
def repetition (symbol : Nat) (known : List Nat) : Except Stop (Nat × Nat) :=
  if symbol = 16 then
    match known with
    | last :: _ => .ok (last, 3)
    | [] => .error .faulty
  else .ok (0, if symbol = 17 then 3 else 11)

/-- Reads lengths until `total` are there; `known` holds those read, last first. Every symbol adds at
least one. -/
def readLengths (code : Code) (total : Nat) :
    Nat → List Nat → Reader → Except Stop (List Nat × Reader)
  | 0, _, _ => .error .faulty
  | fuel + 1, known, r =>
    if total ≤ known.length then .ok (known.reverse, r)
    else do
      let (symbol, r) ← code.read r
      if symbol < 16 then readLengths code total fuel (symbol :: known) r
      else
        let (more, r) ← r.bits (repetitionBits symbol)
        let (length, least) ← repetition symbol known
        if total < known.length + least + more then throw .faulty
        readLengths code total fuel (List.replicate (least + more) length ++ known) r

/-- A block may begin with its codes. There has to be a code for the end of the block. -/
def readCodes (r : Reader) : Except Stop (Phase × Reader) := do
  let (literals, r) ← r.bits 5
  let (distances, r) ← r.bits 5
  let (short, r) ← r.bits 4
  let literals := literals + 257
  let distances := distances + 1
  if 286 < literals ∨ 30 < distances then throw .faulty
  let (short, r) ← readShortLengths (short + 4) r
  let short := lengthOrder.zip short
  let code ← Code.ofLengthLengths ((List.range 19).map fun i =>
    ((short.find? (·.1 == i)).map (·.2)).getD 0)
  let total := literals + distances
  let (lengths, r) ← readLengths code total (total + 1) [] r
  if lengths[256]?.getD 0 = 0 then throw .faulty
  return (.symbol ⟨← Code.ofSymbolLengths (lengths.take literals),
    ← Code.ofSymbolLengths (lengths.drop literals)⟩, r)

/-- The codes of a block that brings none. -/
def fixedCodes : Codes where
  literals := .ofLengths (List.replicate 144 8 ++ List.replicate 112 9 ++ List.replicate 24 7 ++
    List.replicate 8 8)
  distances := .ofLengths (List.replicate 32 5)

/-- A block begins with two numbers: whether it is the last one, and its form. -/
def readBlock (r : Reader) : Except Stop (Bool × Phase × Reader) := do
  let (last, r) ← r.bits 1
  let (form, r) ← r.bits 2
  let (phase, r) ←
    match form with
    | 0 => readStored r
    | 1 => .ok (.symbol fixedCodes, r)
    | 2 => readCodes r
    | _ => .error .faulty
  return (last == 1, phase, r)

/-- Base and number of further bits of the lengths of copies, from symbol 257 on. -/
def lengthTable : Array (Nat × Nat) :=
  #[(3, 0), (4, 0), (5, 0), (6, 0), (7, 0), (8, 0), (9, 0), (10, 0), (11, 1), (13, 1), (15, 1),
    (17, 1), (19, 2), (23, 2), (27, 2), (31, 2), (35, 3), (43, 3), (51, 3), (59, 3), (67, 4),
    (83, 4), (99, 4), (115, 4), (131, 5), (163, 5), (195, 5), (227, 5), (258, 0)]

/-- Base and number of further bits of the distances of copies. -/
def distanceTable : Array (Nat × Nat) :=
  #[(1, 0), (2, 0), (3, 0), (4, 0), (5, 1), (7, 1), (9, 2), (13, 2), (17, 3), (25, 3), (33, 4),
    (49, 4), (65, 5), (97, 5), (129, 6), (193, 6), (257, 7), (385, 7), (513, 8), (769, 8),
    (1025, 9), (1537, 9), (2049, 10), (3073, 10), (4097, 11), (6145, 11), (8193, 12), (12289, 12),
    (16385, 13), (24577, 13)]

/-- The value of a base with further bits. -/
def readExtended (table : Array (Nat × Nat)) (i : Nat) (r : Reader) : Except Stop (Nat × Reader) :=
  match table[i]? with
  | none => .error .faulty
  | some (base, further) => do
    let (more, r) ← r.bits further
    return (base + more, r)

/-- A symbol is a byte, the end of the block, or the length of a copy, which its distance follows. -/
def readSymbol (codes : Codes) (r : Reader) : Except Stop (Phase × Reader) := do
  let (symbol, r) ← codes.literals.read r
  if symbol < 256 then return (.literal codes symbol.toUInt8, r)
  if symbol = 256 then return (.block, r)
  let (length, r) ← readExtended lengthTable (symbol - 257) r
  let (i, r) ← codes.distances.read r
  let (distance, r) ← readExtended distanceTable i r
  return (.copy codes length distance, r)

/-- The checksum of the output ends the data. -/
def readChecksum (expected : Nat) (r : Reader) : Except Stop (Phase × Reader) := do
  let (a, r) ← r.bits 8
  let (b, r) ← r.bits 8
  let (c, r) ← r.bits 8
  let (d, r) ← r.bits 8
  if ((a * 256 + b) * 256 + c) * 256 + d = expected then return (.ended, r) else throw .faulty

/-! ## Streams -/

structure Stream where
  input : ByteArray
  /-- The number of bits taken in. -/
  position : Nat := 0
  output : ByteArray := ByteArray.empty
  /-- Whether the block is the last one. -/
  isLast : Bool := false
  phase : Phase := .header

namespace Stream

/-- Goes on as the next bits say. -/
def readBits (s : Stream) (limit : Nat) (next : Reader → Except Stop (Phase × Reader)) :
    Stream × Option Stop :=
  match next ⟨s.input, limit, s.position⟩ with
  | .ok (phase, r) => ({ s with phase, position := r.position }, none)
  | .error stop => (s, some stop)

/-- Appends `count` bytes, each taken from `distance` before the end. -/
def copyBack (distance : Nat) : Nat → ByteArray → ByteArray
  | 0, out => out
  | count + 1, out => copyBack distance count (out.push (out[out.size - distance]?.getD 0))

/-- One step with `limit` bytes of the input towards an output of `wanted` bytes. -/
def step (limit wanted : Nat) (s : Stream) : Stream × Option Stop :=
  match s.phase with
  | .header => s.readBits limit readHeader
  | .block =>
    if s.isLast then ({ s with phase := .checksum, position := (s.position + 7) / 8 * 8 }, none)
    else
      match readBlock ⟨s.input, limit, s.position⟩ with
      | .ok (isLast, phase, r) => ({ s with isLast, phase, position := r.position }, none)
      | .error stop => (s, some stop)
  | .stored left =>
    if left = 0 then ({ s with phase := .block }, none)
    else if wanted ≤ s.output.size then (s, some .full)
    else
      let start := s.position / 8
      let count := min left (min (wanted - s.output.size) (limit - start))
      if count = 0 then (s, some .starved)
      else
        ({ s with
          phase := .stored (left - count)
          position := s.position + 8 * count
          output := s.output ++ s.input.extract start (start + count) }, none)
  | .symbol codes => s.readBits limit (readSymbol codes)
  | .literal codes byte =>
    if wanted ≤ s.output.size then (s, some .full)
    else ({ s with phase := .symbol codes, output := s.output.push byte }, none)
  | .copy codes left distance =>
    if wanted ≤ s.output.size then (s, some .full)
    else if s.output.size < distance then (s, some .faulty)
    else
      let count := min left (wanted - s.output.size)
      ({ s with
        phase := if left = count then .symbol codes else .copy codes (left - count) distance
        output := copyBack distance count s.output }, none)
  | .checksum => s.readBits limit (readChecksum (adler32 s.output))
  | .ended => (s, some .finished)

/-- Steps until the stream stops. -/
def run (limit wanted : Nat) : Nat → Stream → Stream × Stop
  | 0, s => (s, .faulty)
  | fuel + 1, s =>
    match s.step limit wanted with
    | (s, none) => run limit wanted fuel s
    | (s, some stop) => (s, stop)

/-- Goes on until `wanted` bytes are there, if `limit` bytes of the input are enough. A step takes a
bit or writes a byte, save the one that ends a stored block and the one that ends the last. -/
def advance (limit wanted : Nat) (s : Stream) : Stream × Stop :=
  s.run limit wanted (16 * limit + wanted + 4)

/-- How many whole bytes of the first `limit` ones are left. -/
def left (s : Stream) (limit : Nat) : Nat := limit - (s.position + 7) / 8

end Stream

end VectorGraph.Deflate
