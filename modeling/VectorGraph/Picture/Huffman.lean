/-!
Bits of compressed data, and the canonical Huffman codes written in them.

Bits are taken from each byte lowest first. The data may arrive in pieces: a reader sees the bytes that
are there so far and says so when it would need more.
-/
namespace VectorGraph.Deflate

/-- Why the reading of compressed data stops. -/
inductive Stop where
  /-- All that was asked for is there. -/
  | full
  /-- More compressed bytes are needed. -/
  | starved
  /-- The compressed data has come to its end. -/
  | finished
  /-- The bytes are no compressed data. -/
  | faulty
  deriving DecidableEq, Repr

/-- Compressed bytes of which the first `limit` are there, and a position counted in bits. -/
structure Reader where
  bytes : ByteArray
  limit : Nat
  position : Nat

namespace Reader

def bit (r : Reader) : Except Stop (Nat × Reader) :=
  match if r.position / 8 < r.limit then r.bytes[r.position / 8]? else none with
  | some byte =>
    .ok (byte.toNat / Nat.pow 2 (r.position % 8) % 2, { r with position := r.position + 1 })
  | none => .error .starved

/-- The next bits as a number, the first one lowest. -/
def bits : Nat → Reader → Except Stop (Nat × Reader)
  | 0, r => .ok (0, r)
  | count + 1, r => do
    let (low, r) ← r.bit
    let (high, r) ← bits count r
    return (low + 2 * high, r)

/-- Moves on to the next whole byte. -/
def align (r : Reader) : Reader := { r with position := (r.position + 7) / 8 * 8 }

end Reader

/-! ## Codes -/

/-- A canonical code: how many symbols have a code of each length, and the symbols by length. -/
structure Code where
  counts : Array Nat
  symbols : Array Nat
  /-- The number of bits of the longest code. -/
  depth : Nat

namespace Code

/-- The code in which symbol `i` has a code of `lengths[i]` bits, zero meaning none. -/
def ofLengths (lengths : List Nat) : Code where
  counts := ((List.range 16).map fun n => if n = 0 then 0 else lengths.count n).toArray
  symbols := ((List.range 16).flatMap fun n =>
    if n = 0 then []
    else lengths.zipIdx.filterMap fun (l, i) => if l = n then some i else none).toArray
  depth := lengths.foldl max 1

/-- How many of the `2 ^ 15` rows of fifteen bits begin with one of the codes. -/
def covered (lengths : List Nat) : Nat :=
  lengths.foldl (fun rows l => if l = 0 then rows else rows + Nat.pow 2 (15 - l)) 0

/-- Whether every row of bits begins with exactly one of the codes. -/
def isComplete (lengths : List Nat) : Bool := covered lengths == Nat.pow 2 15

/-- A code for symbols: complete, or with one code of one bit, or without any. -/
def ofSymbolLengths (lengths : List Nat) : Except Stop Code :=
  let given := lengths.filter (· != 0)
  if isComplete lengths || given.isEmpty || given == [1] then .ok (ofLengths lengths)
  else .error .faulty

/-- A code for the lengths of other codes: complete, or without any code. In the latter every bit
stands for the length zero. -/
def ofLengthLengths (lengths : List Nat) : Except Stop Code :=
  if isComplete lengths then .ok (ofLengths lengths)
  else if lengths.all (· == 0) then .ok ⟨#[0, 2], #[0, 0], 1⟩
  else .error .faulty

/-- Reads a symbol that has at most `left` more bits: `first` is the smallest code of the length tried
and `index` the place of its symbol. -/
def readFrom (code : Code) : (left length value first index : Nat) → Reader →
    Except Stop (Nat × Reader)
  | 0, _, _, _, _, _ => .error .faulty
  | left + 1, length, value, first, index, r => do
    let (bit, r) ← r.bit
    let value := value + bit
    let count := code.counts[length]?.getD 0
    if value < first + count then return (code.symbols[index + (value - first)]?.getD 0, r)
    else code.readFrom left (length + 1) (2 * value) (2 * (first + count)) (index + count) r

def read (code : Code) (r : Reader) : Except Stop (Nat × Reader) :=
  code.readFrom code.depth 1 0 0 0 r

end Code

end VectorGraph.Deflate
