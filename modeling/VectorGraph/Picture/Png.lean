import VectorGraph.Picture.Basic
import VectorGraph.Picture.Inflate

/-!
PNG files with eight bits per channel and unfiltered rows.

Grey, colour and colour with alpha are read; every picture is written as colour with alpha.

A file is read in three parts. The chunks before the pixel data have to be complete, with the right
checksums. Of the pixel data no more is read than the rows need, the missing rows of a stream that
ends behind a row are zero, and the checksums of the chunks do not count. Behind the pixel data a chunk
may be missing, but not be cut short.
-/
namespace VectorGraph.Png

def signature : ByteArray := ⟨#[0x89, 0x50, 0x4E, 0x47, 0x0D, 0x0A, 0x1A, 0x0A]⟩

def crcEntry (n : Nat) : UInt32 :=
  (List.range 8).foldl
    (fun (c : UInt32) _ => if c &&& 1 == 1 then (0xEDB88320 : UInt32) ^^^ (c >>> 1) else c >>> 1) n.toUInt32

def crcTable : Array UInt32 := (Array.range 256).map crcEntry

/-- The cyclic redundancy check of a chunk. -/
def crc32 (bytes : ByteArray) : Nat :=
  let c := bytes.foldl
    (fun (c : UInt32) byte =>
      crcTable[((c ^^^ byte.toUInt32) &&& 0xFF).toNat]! ^^^ (c >>> 8))
    0xFFFFFFFF
  (c ^^^ 0xFFFFFFFF).toNat

/-- The byte at a place; zero behind the last one. -/
def byteAt (bytes : ByteArray) (i : Nat) : Nat := (bytes[i]?.getD 0).toNat

/-- The number that four bytes stand for, the highest first. -/
def number (bytes : ByteArray) (i : Nat) : Nat :=
  ((byteAt bytes i * 256 + byteAt bytes (i + 1)) * 256 + byteAt bytes (i + 2)) * 256 +
    byteAt bytes (i + 3)

def chunk (name : String) (body : ByteArray) : ByteArray :=
  let content := name.toUTF8 ++ body
  Deflate.bigEndian 4 body.size ++ content ++ Deflate.bigEndian 4 (crc32 content)

/-- The rows of a picture, each after a zero for "not filtered". -/
def rows (p : Picture) : ByteArray :=
  let bytes := p.bytes
  let stride := 4 * p.width
  (List.range p.height).foldl
    (fun out y => (out.push 0) ++ bytes.extract (y * stride) ((y + 1) * stride)) ByteArray.empty

def encode (p : Picture) : ByteArray :=
  let header := Deflate.bigEndian 4 p.width ++ Deflate.bigEndian 4 p.height ++
    ⟨#[8, 6, 0, 0, 0]⟩
  signature ++ chunk "IHDR" header ++ chunk "IDAT" (Deflate.store (rows p)) ++
    chunk "IEND" ByteArray.empty

/-! ## Reading -/

/-- Why there is no picture in a file. -/
inductive Fault where
  /-- The file is none that is known. -/
  | unknown
  /-- A chunk is too short for what it has to hold. -/
  | shortChunk
  /-- There is a picture in the file, but it cannot be read. -/
  | broken
  deriving DecidableEq, Repr

/-- A chunk in a file: where its body begins, and how long it should be. -/
structure Chunk where
  name : String
  start : Nat
  length : Nat

def isNameByte (b : UInt8) : Bool := (Char.ofNat b.toNat).isAlphanum || b == 0x5F

/-- The chunk that begins at a place, if a length and a name stand there. -/
def chunkAt? (bytes : ByteArray) (i : Nat) : Option Chunk :=
  let name := (bytes.extract (i + 4) (i + 8)).toList
  if name.length = 4 && name.all isNameByte then
    some ⟨String.ofList (name.map fun b => Char.ofNat b.toNat), i + 8, number bytes i⟩
  else none

namespace Chunk

/-- The place behind the body. -/
def stop (c : Chunk) : Nat := c.start + c.length

def isWhole (c : Chunk) (bytes : ByteArray) : Bool := c.stop ≤ bytes.size

def body (c : Chunk) (bytes : ByteArray) : ByteArray := bytes.extract c.start c.stop

/-- Whether the right checksum follows the body. -/
def isSound (c : Chunk) (bytes : ByteArray) : Bool :=
  c.stop + 4 ≤ bytes.size && crc32 (bytes.extract (c.start - 4) c.stop) = number bytes c.stop

end Chunk

/-- The number of channels of a picture with eight bits in each, by its colour type. -/
def channelsOf? : Nat → Option Nat
  | 0 => some 1
  | 2 => some 3
  | 6 => some 4
  | _ => none

/-- What the chunks around the pixel data say about a picture. -/
structure Sketch where
  width : Nat := 0
  height : Nat := 0
  channels : Option Nat := none
  isInterlaced : Bool := false
  /-- The colour that stands for a transparent pixel. -/
  clear : Option (List Nat) := none

namespace Sketch

/-- Takes in the header of the picture. -/
def withHeader (k : Sketch) (body : ByteArray) : Except Fault Sketch := do
  if body.size < 13 then throw .shortChunk
  if byteAt body 11 ≠ 0 then throw .unknown
  return { k with
    width := number body 0
    height := number body 4
    channels := (if byteAt body 8 = 8 then channelsOf? (byteAt body 9) else none) <|> k.channels
    isInterlaced := k.isInterlaced || byteAt body 12 ≠ 0 }

/-- Takes in the transparent colour, of which two bytes are given for every channel. -/
def withClear (k : Sketch) (body : ByteArray) : Except Fault Sketch :=
  match k.channels with
  | some 4 | none => .ok k
  | some channels =>
    if body.size < 2 * channels then .error .unknown
    else .ok { k with clear := (List.range channels).map fun i => byteAt body (2 * i + 1) }

/-- Takes in a chunk. -/
def withChunk (k : Sketch) (name : String) (body : ByteArray) : Except Fault Sketch :=
  match name with
  | "IHDR" => k.withHeader body
  | "tRNS" => k.withClear body
  | "gAMA" => if body.size < 4 then .error .unknown else .ok k
  | "cHRM" => if body.size % 4 ≠ 0 then .error .unknown else .ok k
  | "sRGB" => if body.size < 1 then .error .shortChunk else .ok k
  | "pHYs" => if body.size < 9 then .error .shortChunk else .ok k
  | _ => .ok k

end Sketch

/-- Reads the chunks up to the pixel data; there is none if the end of the file comes first. -/
def readOpening (bytes : ByteArray) : Nat → Nat → Sketch → Except Fault (Sketch × Option Chunk)
  | 0, _, _ => .error .unknown
  | fuel + 1, i, k =>
    match chunkAt? bytes i with
    | none => .error .unknown
    | some c =>
      if c.name == "IDAT" then .ok (k, some c)
      else if c.name == "IEND" then .ok (k, none)
      else if !c.isWhole bytes then .error .broken
      else do
        let k ← k.withChunk c.name (c.body bytes)
        if c.isSound bytes then readOpening bytes fuel (c.stop + 4) k else throw .unknown

/-- The chunks of pixel data that follow one another, from the given one on. -/
def dataChunks (bytes : ByteArray) : Nat → Chunk → List Chunk
  | 0, c => [c]
  | fuel + 1, c =>
    match chunkAt? bytes (c.stop + 4) with
    | some next => if next.name == "IDAT" then c :: dataChunks bytes fuel next else [c]
    | none => [c]

/-- Reads the chunks behind the pixel data. -/
def readClosing (bytes : ByteArray) : Nat → Nat → Sketch → Except Fault Sketch
  | 0, _, k => .ok k
  | fuel + 1, i, k =>
    match chunkAt? bytes i with
    | none => .ok k
    | some c =>
      if c.name == "IEND" then .ok k
      else if !c.isWhole bytes then .error .broken
      else do
        let k ← (k.withChunk c.name (c.body bytes)).mapError fun
          | .unknown => .broken
          | fault => fault
        readClosing bytes fuel (c.stop + 4) k

/-! ## Pixel data -/

/-- The places at which the reading of a piece of data pauses. A reader takes at most 65536 bytes at
once. -/
def pauses (size : Nat) : List Nat :=
  (List.range ((size + 65535) / 65536)).map fun i => min size (65536 * (i + 1))

/-- The bytes of the pixel data, and the pauses in it, each with the end of the chunk it is in. -/
def gather (bytes : ByteArray) (chunks : List Chunk) : ByteArray × List (Nat × Nat) :=
  chunks.foldl
    (fun (data, places) c =>
      let body := c.body bytes
      (data ++ body, places ++ (pauses body.size).map fun i => (data.size + i, c.stop)))
    (ByteArray.empty, [])

/-- Reads the last `missing` of the rows of `stride` bytes while there are whole bytes among the first
`limit` ones of the stream, and tells how many are still missing. None is missed any more when the
stream ends behind a row. -/
def readRows (stride height limit : Nat) :
    (missing : Nat) → Deflate.Stream → Except Fault (Nat × Deflate.Stream)
  | 0, s => .ok (0, s)
  | missing + 1, s =>
    if s.left limit = 0 then .ok (missing + 1, s)
    else
      let start := (height - (missing + 1)) * stride
      match s.advance limit (start + stride) with
      | (_, .faulty) => .error .broken
      | (s, stop) =>
        if s.output.size < start + stride then .ok (missing + 1, s)
        else if byteAt s.output start ≠ 0 then .error .broken
        else
          match stop with
          | .finished => .ok (0, s)
          | .starved => .ok (missing, s)
          | _ => readRows stride height limit missing s

/-- Reads rows from pause to pause. The answer holds the end of the chunk in which the last one was
read. -/
def readData (stride height : Nat) : List (Nat × Nat) → (missing : Nat) → Deflate.Stream →
    Except Fault (ByteArray × Nat)
  | [], _, _ => .error .broken
  | (limit, stop) :: rest, missing, s => do
    let (missing, s) ← readRows stride height limit missing s
    if missing = 0 then return (s.output, stop)
    readData stride height rest missing s

/-- The pixel at `i` in data with the given number of channels. -/
def pixelAt (data : ByteArray) (channels i : Nat) : Pixel :=
  let value (j : Nat) : UInt8 := data[i + j]?.getD 0
  if channels = 1 then ⟨value 0, value 0, value 0, 255⟩
  else if channels = 3 then ⟨value 0, value 1, value 2, 255⟩
  else ⟨value 0, value 1, value 2, value 3⟩

/-- The pixel at `i`, where one colour may stand for a transparent pixel. -/
def Sketch.pixelAt (k : Sketch) (data : ByteArray) (channels i : Nat) : Pixel :=
  let pixel := Png.pixelAt data channels i
  match k.clear with
  | none => pixel
  | some color =>
    if (List.range channels).map (fun j => byteAt data (i + j)) = color then { pixel with a := 0 }
    else pixel

/-- The picture in a file. -/
def decode (bytes : ByteArray) : Except Fault Picture := do
  if bytes.extract 0 8 != signature then throw .unknown
  let (k, first) ← readOpening bytes bytes.size 8 {}
  match k.channels with
  | none => throw .unknown
  | some channels =>
    if k.width = 0 || k.height = 0 then throw .unknown
    if k.isInterlaced then throw .broken
    let chunks :=
      match first with
      | some c => dataChunks bytes bytes.size c
      | none => []
    let (packed, places) := gather bytes chunks
    let stride := 1 + channels * k.width
    let (data, stop) ← readData stride k.height places k.height { input := packed }
    let closing ← readClosing bytes bytes.size (stop + 4) k
    return .generate k.width k.height fun x y =>
      closing.pixelAt data channels (y * stride + 1 + x * channels)

end VectorGraph.Png
