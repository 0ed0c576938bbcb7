/-!
Hexadecimal digits. Both cases are read, the lower one is written. Bytes are written as two digits
each, the high half first.
-/
namespace VectorGraph

def hexDigit? (c : Char) : Option Nat :=
  if '0' ≤ c ∧ c ≤ '9' then some (c.toNat - '0'.toNat)
  else if 'a' ≤ c ∧ c ≤ 'f' then some (c.toNat - 'a'.toNat + 10)
  else if 'A' ≤ c ∧ c ≤ 'F' then some (c.toNat - 'A'.toNat + 10)
  else none

/-- The digit for a number below sixteen. -/
def hexChar (n : Nat) : Char := if n < 10 then Char.ofNat (48 + n) else Char.ofNat (87 + n)

/-- `n` in hexadecimal, filled up with zeros on the left to `width`. -/
def hexDigits (width n : Nat) : List Char :=
  let digits := Nat.toDigits 16 n
  List.replicate (width - digits.length) '0' ++ digits

/-- The bytes that rows of digits stand for; a last digit without a partner is left out. -/
def bytesOfHex (digits : List Char) : ByteArray := go digits ByteArray.empty
where
  go : List Char → ByteArray → ByteArray
    | high :: low :: rest, out =>
      go rest (out.push ((hexDigit? high).getD 0 * 16 + (hexDigit? low).getD 0).toUInt8)
    | _, out => out

/-- Bytes in hexadecimal. -/
def hexOfBytes (bytes : ByteArray) : String :=
  String.ofList (bytes.foldl (fun out b => hexChar (b.toNat % 16) :: hexChar (b.toNat / 16) :: out)
    []).reverse

end VectorGraph
