/-!
Data in the deflate format, uncompressed: stored blocks between a header and a checksum (RFC 1950 and
1951).
-/
namespace VectorGraph.Deflate

/-- A number as `count` bytes, the highest first. -/
def bigEndian (count n : Nat) : ByteArray :=
  (List.range count).foldl
    (fun bytes i => bytes.push (n / Nat.pow 256 (count - 1 - i) % 256).toUInt8) ByteArray.empty

/-- The checksum behind the data: two sums modulo 65521. -/
def adler32 (bytes : ByteArray) : Nat :=
  let (a, b) := bytes.foldl
    (fun ((a, b) : UInt32 × UInt32) byte =>
      let a := (a + byte.toUInt32) % 65521
      (a, (b + a) % 65521))
    (1, 0)
  b.toNat * 65536 + a.toNat

/-- The stored blocks of the bytes from `start` on, at most 65535 in each. -/
def storedBlocks (bytes : ByteArray) : Nat → Nat → ByteArray → ByteArray
  | 0, _, out => out
  | fuel + 1, start, out =>
    let length := min 65535 (bytes.size - start)
    let last := start + length ≥ bytes.size
    let complement := 65535 - length
    let header := ByteArray.empty
      |>.push (if last then 1 else 0)
      |>.push (length % 256).toUInt8 |>.push (length / 256).toUInt8
      |>.push (complement % 256).toUInt8 |>.push (complement / 256).toUInt8
    let out := out ++ header ++ bytes.extract start (start + length)
    if last then out else storedBlocks bytes fuel (start + length) out

/-- The data uncompressed, with header and checksum. -/
def store (bytes : ByteArray) : ByteArray :=
  storedBlocks bytes (bytes.size / 65535 + 1) 0 (ByteArray.empty |>.push 0x78 |>.push 0x01) ++
    bigEndian 4 (adler32 bytes)

end VectorGraph.Deflate
