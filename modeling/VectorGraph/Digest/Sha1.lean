import VectorGraph.Text.Hex

/-!
The SHA-1 digest (FIPS 180-4): 160 bits over the message in blocks of 64 bytes, written as 40
hexadecimal digits.
-/
namespace VectorGraph.Sha1

/-- The chaining value. -/
structure State where
  a : UInt32
  b : UInt32
  c : UInt32
  d : UInt32
  e : UInt32

def initial : State := ⟨0x67452301, 0xEFCDAB89, 0x98BADCFE, 0x10325476, 0xC3D2E1F0⟩

def rotate (x : UInt32) (n : UInt32) : UInt32 := (x <<< n) ||| (x >>> (32 - n))

/-- The message with a one bit, zeros up to 8 bytes before a block's end, and its length in bits. -/
def pad (message : ByteArray) : ByteArray :=
  let zeros := (119 - message.size % 64) % 64
  let padded := (List.range zeros).foldl (fun bytes _ => bytes.push 0) (message.push 0x80)
  let bits := 8 * message.size
  (List.range 8).foldl (fun bytes i => bytes.push (bits / Nat.pow 256 (7 - i) % 256).toUInt8) padded

def word (bytes : ByteArray) (i : Nat) : UInt32 :=
  ((bytes.get! i).toUInt32 <<< 24) ||| ((bytes.get! (i + 1)).toUInt32 <<< 16) |||
    ((bytes.get! (i + 2)).toUInt32 <<< 8) ||| (bytes.get! (i + 3)).toUInt32

/-- Extends the schedule by `count` words. -/
def extend : Nat → Array UInt32 → Array UInt32
  | 0, w => w
  | count + 1, w =>
    let t := w.size
    extend count
      (w.push (rotate (w[t - 3]! ^^^ w[t - 8]! ^^^ w[t - 14]! ^^^ w[t - 16]!) 1))

/-- The 80 words of a block that starts at `start`. -/
def schedule (bytes : ByteArray) (start : Nat) : Array UInt32 :=
  extend 64 ((Array.range 16).map fun i => word bytes (start + 4 * i))

def choose (t : Nat) (b c d : UInt32) : UInt32 :=
  if t < 20 then (b &&& c) ||| ((~~~b) &&& d)
  else if t < 40 then b ^^^ c ^^^ d
  else if t < 60 then (b &&& c) ||| (b &&& d) ||| (c &&& d)
  else b ^^^ c ^^^ d

def constant (t : Nat) : UInt32 :=
  if t < 20 then 0x5A827999
  else if t < 40 then 0x6ED9EBA1
  else if t < 60 then 0x8F1BBCDC
  else 0xCA62C1D6

/-- The last `count` of the 80 rounds. -/
def rounds (w : Array UInt32) : Nat → UInt32 → UInt32 → UInt32 → UInt32 → UInt32 → State
  | 0, a, b, c, d, e => ⟨a, b, c, d, e⟩
  | count + 1, a, b, c, d, e =>
    let t := 79 - count
    rounds w count (rotate a 5 + choose t b c d + e + constant t + w[t]!) a (rotate b 30) c d

def compress (s : State) (bytes : ByteArray) (start : Nat) : State :=
  let r := rounds (schedule bytes start) 80 s.a s.b s.c s.d s.e
  ⟨s.a + r.a, s.b + r.b, s.c + r.c, s.d + r.d, s.e + r.e⟩

/-- Takes in `count` blocks from `start` on. -/
def blocks (bytes : ByteArray) : Nat → Nat → State → State
  | 0, _, s => s
  | count + 1, start, s => blocks bytes count (start + 64) (compress s bytes start)

def hexWord (w : UInt32) : List Char :=
  (List.range 8).map fun i =>
    hexChar (w.toNat / Nat.pow 16 (7 - i) % 16)

/-- The digest of a message in hexadecimal. -/
def hex (message : ByteArray) : String :=
  let bytes := pad message
  let s := blocks bytes (bytes.size / 64) 0 initial
  String.ofList (hexWord s.a ++ hexWord s.b ++ hexWord s.c ++ hexWord s.d ++ hexWord s.e)

end VectorGraph.Sha1
