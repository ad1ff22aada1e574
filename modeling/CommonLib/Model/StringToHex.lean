import CommonLib.Library.ByteOrder

/-! `string_to_hex` of `String.cpp`. -/

namespace CommonLib.Utils

/-- A digit as `std::hex` and `std::uppercase` print it. -/
def hexDigit (n : ℕ) : Char :=
  ['0', '1', '2', '3', '4', '5', '6', '7', '8', '9', 'A', 'B', 'C', 'D', 'E', 'F'].getD n '0'

/-- What the loop prints for a character, with `std::setw(2)` and `std::setfill('0')`. -/
def hexEntry (c : UInt8) : List Char :=
  ['0', 'x', hexDigit (c.toNat / 16), hexDigit (c.toNat % 16), ' ']

def stringToHex (str : Bytes) : List Char :=
  let result := str.flatMap hexEntry
  if result.isEmpty then result else result.dropLast

end CommonLib.Utils
