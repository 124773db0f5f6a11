import Backrun.Text.Numeral

/-!
# Bytes

Keys and stored values are lists of bytes, ordered as lists are: byte by byte,
a shorter list before its extensions.  Text becomes bytes by UTF-8, and bytes
become text only if they are well-formed UTF-8.
-/

namespace Backrun

/-- A key or a stored value. -/
abbrev Bytes := List UInt8

namespace Bytes

/-- The UTF-8 bytes of a text. -/
def ofString (s : String) : Bytes := s.toList.flatMap String.utf8EncodeChar

/-- The text whose UTF-8 bytes these are, if there is one. -/
def toString? (b : Bytes) : Option String := String.fromUTF8? b.toByteArray

/-- Reading the bytes of a text gives the text back. -/
@[simp]
theorem toString?_ofString (s : String) : (ofString s).toString? = some s := by
  have h : (ofString s).toByteArray = s.toByteArray := by
    show s.toList.utf8Encode = _
    simp
  simp only [toString?, String.fromUTF8?, h, s.isValidUTF8, dite_true]
  rfl

/-- The eight bytes of a 64-bit number, most significant first, so that the
order of the bytes is the order of the numbers. -/
def bigEndian (n : UInt64) : Bytes :=
  [7, 6, 5, 4, 3, 2, 1, 0].map fun place => UInt8.ofNat (n.toNat / Nat.pow 256 place)

/-- The two lower-case hexadecimal digits of a byte. -/
def hexDigits (b : UInt8) : List Char :=
  [(b.toNat / 16).digitChar, (b.toNat % 16).digitChar]

/-- Bytes as lower-case hexadecimal text. -/
def toHex (b : Bytes) : String := String.ofList (b.flatMap hexDigits)

/-- Reads bytes from pairs of hexadecimal digits of either case. -/
def ofHexDigits? : List Char → Option Bytes
  | [] => some []
  | [_] => none
  | a :: b :: rest =>
      match Numeral.digitIn? 16 a, Numeral.digitIn? 16 b, ofHexDigits? rest with
      | some high, some low, some bytes => some (UInt8.ofNat (16 * high + low) :: bytes)
      | _, _, _ => none

/-- Reads bytes from hexadecimal text. -/
def ofHex? (s : String) : Option Bytes := ofHexDigits? s.toList

end Bytes

end Backrun
