/-!
# TOML documents

A document is a tree of tables.  While it is read, each table remembers how it came
to be, because that decides what may still be added to it: a table with a header of
its own is closed to dotted keys from elsewhere, and no table gets two headers.
-/

namespace Backrun

/-- A TOML value. -/
inductive Toml where
  | text (value : String)
  | boolean (value : Bool)
  /-- A number or a time. No setting holds one, so its value is not kept. -/
  | scalar
  | array (items : List Toml)
  | table (members : List (String × Toml))
  deriving Repr

namespace Toml

/-! ## Tables under construction -/

/-- How a table came to be. -/
inductive Origin where
  /-- It has a header, or is the document itself. -/
  | header
  /-- It lies on the way to a table with a header. -/
  | passed
  /-- It lies on the way of a dotted key. -/
  | dotted
  deriving DecidableEq, Repr

/-- A node of a document under construction. -/
inductive Node where
  | value (v : Toml)
  | table (origin : Origin) (members : List (String × Node))
  /-- An array of tables with headers, the last one first. -/
  | tables (items : List (List (String × Node)))

/-- The members of a table under construction. -/
abbrev Members := List (String × Node)

namespace Members

/-- Puts a node in the place of the one with the same name. -/
def replace (name : String) (node : Node) (ms : Members) : Members :=
  ms.map fun m => if m.1 == name then (name, node) else m

/-- Changes the table at the end of a path. Tables that are missing on the way are created
with the given origin; dotted keys do not pass through tables with headers. -/
def descend (created : Origin) (change : Origin → Members → Option Members) :
    List String → Origin → Members → Option Members
  | [], origin, ms => change origin ms
  | name :: path, _, ms =>
      match ms.lookup name with
      | none => do
          let inner ← descend created change path created []
          return ms ++ [(name, .table created inner)]
      | some (.table origin inner) =>
          if created = .dotted ∧ origin = .header then none
          else do
            let inner ← descend created change path origin inner
            return replace name (.table origin inner) ms
      | some (.tables (last :: earlier)) => do
          let last ← descend created change path .header last
          return replace name (.tables (last :: earlier)) ms
      | some (.tables []) => none
      | some (.value _) => none

/-- Sets a member under a dotted key, which must not have been set before. -/
def assign (path : List String) (name : String) (v : Toml) (ms : Members) : Option Members :=
  let set := fun origin inner =>
    if (origin == .dotted) == path.isEmpty then none
    else if (inner.lookup name).isSome then none
    else some (inner ++ [(name, .value v)])
  descend .dotted set path .header ms

/-- Gives a table its header. -/
def openTable (path : List String) (name : String) (ms : Members) : Option Members :=
  let create := fun _ inner =>
    match List.lookup name inner with
    | none => some (inner ++ [(name, .table .header [])])
    | some (.table .passed members) => some (replace name (.table .header members) inner)
    | some _ => none
  descend .passed create path .header ms

/-- Adds a table to an array of tables. -/
def openItem (path : List String) (name : String) (ms : Members) : Option Members :=
  let create := fun _ inner =>
    match List.lookup name inner with
    | none => some (inner ++ [(name, .tables [[]])])
    | some (.tables items) => some (replace name (.tables ([] :: items)) inner)
    | some _ => none
  descend .passed create path .header ms

/-- Sets a member of the table at the end of a path of headers. -/
def assignUnder (header path : List String) (name : String) (v : Toml) (ms : Members) :
    Option Members :=
  descend .passed (fun _ inner => assign path name v inner) header .header ms

end Members

mutual

/-- The value of a finished node. -/
def Node.close : Node → Toml
  | .value v => v
  | .table _ members => .table (closeMembers members)
  | .tables items => .array (closeItems items)

/-- The members of a finished table. -/
def closeMembers : List (String × Node) → List (String × Toml)
  | [] => []
  | (name, node) :: rest => (name, node.close) :: closeMembers rest

/-- The tables of a finished array of tables, put in order. -/
def closeItems : List (List (String × Node)) → List Toml
  | [] => []
  | members :: earlier => closeItems earlier ++ [.table (closeMembers members)]

end

end Toml

end Backrun
