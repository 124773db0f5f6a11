import Backrun.Codec.Basic

/-!
# Denominations

The name of an asset: 3 to 128 bytes, a letter first, then letters, digits and
the marks `/ : . _ -`.  The names are ASCII, so their order is that of their bytes
and none of them contains a zero byte.
-/

namespace Backrun

/-- What is wrong with a denomination. -/
inductive DenomFault where
  | length
  | firstLetter
  | character (c : Char)
  deriving DecidableEq, Repr

namespace DenomFault

/-- The fault of `raw` in words. -/
def message (raw : String) : DenomFault → String
  | .length => "denom '" ++ raw ++ "' must be 3-128 characters"
  | .firstLetter => "denom '" ++ raw ++ "' must start with a letter"
  | .character c =>
      "denom '" ++ raw ++ "' contains invalid character '" ++ String.singleton c ++ "'"

end DenomFault

namespace Denom

/-- The characters that may follow the first letter. -/
def isTailChar (c : Char) : Bool :=
  c.isAlphanum || c == '/' || c == ':' || c == '.' || c == '_' || c == '-'

/-- What is wrong with `raw` as a denomination, the length first and then the first
character that may not stand where it stands. -/
def fault? (raw : String) : Option DenomFault :=
  if raw.utf8ByteSize < 3 ∨ 128 < raw.utf8ByteSize then some .length
  else
    match raw.toList with
    | [] => some .firstLetter
    | c :: cs =>
        if c.isAlpha then (cs.find? fun d => !isTailChar d).map .character
        else some .firstLetter

end Denom

/-- The name of an asset. -/
structure Denom where
  text : String
  valid : Denom.fault? text = none
  deriving DecidableEq

namespace Denom

instance : Repr Denom := ⟨fun d _ => repr d.text⟩

/-- The denomination with the given name, or what is wrong with it. -/
def ofString (raw : String) : Except DenomFault Denom :=
  match h : fault? raw with
  | none => .ok ⟨raw, h⟩
  | some f => .error f

/-- The bytes of the name. -/
def bytes (d : Denom) : Bytes := Bytes.ofString d.text

end Denom

instance : Codec Denom where
  toJson d := .text d.text
  ofJson?
    | .text s => (Denom.ofString s).toOption
    | _ => none

end Backrun
