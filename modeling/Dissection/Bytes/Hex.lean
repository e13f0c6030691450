import Dissection.Bytes.Basic

namespace Dissection.Hex

def digit (value : Nat) : Char :=
  if value < 10 then Char.ofNat (48 + value) else Char.ofNat (87 + value)

def value? (c : Char) : Option Nat :=
  if '0' ≤ c ∧ c ≤ '9' then some (c.toNat - 48)
  else if 'a' ≤ c ∧ c ≤ 'f' then some (c.toNat - 87)
  else if 'A' ≤ c ∧ c ≤ 'F' then some (c.toNat - 55)
  else none

def padded : Nat → Nat → List Char
  | 0, _ => []
  | count + 1, number => padded count (number / 16) ++ [digit (number % 16)]

/-- The count of digits of a number, at least one. -/
def width (number : Nat) : Nat :=
  Nat.log2 number / 4 + 1

def number (least value : Nat) : String :=
  String.ofList (padded (max least (width value)) value)

def literal (least value : Nat) : String :=
  "0x" ++ number least value

def digits (bytes : Bytes) : List Char :=
  bytes.flatMap fun byte => [digit (byte.toNat / 16), digit (byte.toNat % 16)]

/-- The text of a byte string, two digits per byte. -/
def ofBytes (bytes : Bytes) : String :=
  String.ofList (digits bytes)

/-- The byte string that a row of digits spells: digits in pairs and nothing else. -/
def bytes? : List Char → Option Bytes
  | [] => some []
  | high :: low :: rest => do
      let upper ← value? high
      let lower ← value? low
      let bytes ← bytes? rest
      some ((upper * 16 + lower).toUInt8 :: bytes)
  | [_] => none

end Dissection.Hex

namespace Dissection.Bytes

/-- Splits off lines of sixteen bytes, at most `room` of them. -/
def linesUpTo : Nat → Bytes → List Bytes
  | 0, _ => []
  | _ + 1, [] => []
  | room + 1, byte :: rest =>
      (byte :: rest).take 16 :: linesUpTo room (rest.drop 15)

/-- The bytes in lines of sixteen; the last line may be shorter. -/
def lines (bytes : Bytes) : List Bytes :=
  linesUpTo bytes.length bytes

/-- The text of a dump, without a line break at its end. -/
def dump (bytes : Bytes) : String :=
  "\n".intercalate <| (lines bytes).zipIdx.map fun (line, row) =>
    Hex.number 4 (row * 16) ++ "  " ++ Hex.ofBytes line

def describe (bytes : Bytes) : String :=
  "ByteView \x7b len: " ++ toString bytes.length ++ " \x7d"

end Dissection.Bytes
