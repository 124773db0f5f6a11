import Backrun.Codec.Basic

/-!
# Accounts

The address of an account: 1 to 128 bytes of lower-case ASCII letters and digits.
-/

namespace Backrun

/-- What is wrong with an account address. -/
inductive AccountFault where
  | length
  | character
  deriving DecidableEq, Repr

namespace AccountFault

/-- The fault of `raw` in words. -/
def message (raw : String) : AccountFault → String
  | .length => "account address must be 1-128 characters"
  | .character => "account address '" ++ raw ++ "' must be lowercase alphanumeric"

end AccountFault

namespace Account

/-- The characters of an address. -/
def isAddressChar (c : Char) : Bool := c.isLower || c.isDigit

/-- What is wrong with `raw` as an address. -/
def fault? (raw : String) : Option AccountFault :=
  if raw.utf8ByteSize = 0 ∨ 128 < raw.utf8ByteSize then some .length
  else if raw.toList.all isAddressChar then none
  else some .character

end Account

/-- The address of an account. -/
structure Account where
  text : String
  valid : Account.fault? text = none
  deriving DecidableEq

namespace Account

instance : Repr Account := ⟨fun a _ => repr a.text⟩

/-- The account with the given address, or what is wrong with it. -/
def ofString (raw : String) : Except AccountFault Account :=
  match h : fault? raw with
  | none => .ok ⟨raw, h⟩
  | some f => .error f

/-- The bytes of the address. -/
def bytes (a : Account) : Bytes := Bytes.ofString a.text

end Account

instance : Codec Account where
  toJson a := .text a.text
  ofJson?
    | .text s => (Account.ofString s).toOption
    | _ => none

end Backrun
