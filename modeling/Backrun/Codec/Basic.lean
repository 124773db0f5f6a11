import Backrun.Json.Reader
import Backrun.Json.Writer
import Backrun.Text.Bytes

/-!
# Records

A record type says how its values become JSON and which JSON it reads.  Reading
is more lenient than writing: a record may be given by field names, in any order
and with further members, or by position.  Stored bytes are the one-line form.
-/

namespace Backrun

/-- Types whose values are written as JSON. -/
class Codec (α : Type) where
  /-- The written form of a value. -/
  toJson : α → Json
  /-- The value that a JSON value stands for. -/
  ofJson? : Json → Option α

export Codec (toJson ofJson?)

namespace Codec

/-- The stored bytes of a value. -/
def encode {α : Type} [Codec α] (a : α) : Bytes :=
  Bytes.ofString (String.ofList (toJson a).render)

/-- The value of a document. -/
def ofText? {α : Type} [Codec α] (cs : List Char) : Option α :=
  match Json.ofText? cs with
  | some j => ofJson? j
  | none => none

/-- The value of stored bytes.  All of them have to be text: this also asks it of the strings in
members that belong to no field, which an engine passes over without reading them. -/
def decode? {α : Type} [Codec α] (b : Bytes) : Option α :=
  match b.toString? with
  | some s => ofText? s.toList
  | none => none

end Codec

/-! ## Plain values -/

instance : Codec Bool where
  toJson b := .bool b
  ofJson?
    | .bool b => some b
    | _ => none

instance : Codec String where
  toJson s := .text s
  ofJson?
    | .text s => some s
    | _ => none

instance : Codec UInt64 where
  toJson n := .number (.integer n.toNat)
  ofJson?
    | .number (.integer (.ofNat n)) => if n < UInt64.size then some (UInt64.ofNat n) else none
    | _ => none

instance : Codec UInt32 where
  toJson n := .number (.integer n.toNat)
  ofJson?
    | .number (.integer (.ofNat n)) => if n < UInt32.size then some (UInt32.ofNat n) else none
    | _ => none

namespace Codec

/-- Reads every item of a list, or none if one cannot be read. -/
def readAll {α : Type} [Codec α] : List Json → Option (List α)
  | [] => some []
  | j :: js =>
      match ofJson? j, readAll js with
      | some a, some as => some (a :: as)
      | _, _ => none

end Codec

instance {α : Type} [Codec α] : Codec (List α) where
  toJson as := .array (as.map toJson)
  ofJson?
    | .array js => Codec.readAll js
    | _ => none

/-- An optional value is written as `null` when absent. -/
def Codec.optionJson {α : Type} [Codec α] : Option α → Json
  | some a => toJson a
  | none => .null

/-! ## Fields -/

/-- The fields of a record as they were given, one entry for each declared name. -/
structure Fields where
  /-- Whether they were given by name. -/
  named : Bool
  values : List (Option Json)

namespace Fields

/-- Pairs the declared names with items in order; the last names may go without. -/
def positional : List String → List Json → Option (List (Option Json))
  | [], [] => some []
  | [], _ :: _ => none
  | _ :: names, [] => (positional names []).map (none :: ·)
  | _ :: names, j :: js => (positional names js).map (some j :: ·)

/-- The declared fields of a JSON value. A declared name may not occur twice; other
members are ignored. -/
def ofJson? (names : List String) : Json → Option Fields
  | .object members =>
      if names.any fun name => 1 < members.countP fun m => m.1 == name then none
      else some ⟨true, names.map fun name => members.lookup name⟩
  | .array items => (positional names items).map fun values => ⟨false, values⟩
  | _ => none

/-- A field that has to be there. -/
def required {α : Type} [Codec α] : Option Json → Option α
  | some j => Codec.ofJson? j
  | none => none

/-- A field with a value of its own when it is missing. -/
def withDefault {α : Type} [Codec α] (default : α) : Option Json → Option α
  | some j => Codec.ofJson? j
  | none => some default

/-- A field that may be `null`, and may be missing if fields are given by name. -/
def optional {α : Type} [Codec α] (named : Bool) : Option Json → Option (Option α)
  | some .null => some none
  | some j => (Codec.ofJson? j).map some
  | none => if named then some none else none

end Fields

end Backrun
