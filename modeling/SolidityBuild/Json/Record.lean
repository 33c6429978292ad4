import SolidityBuild.Json.Basic
import SolidityBuild.ByName

/-! # Records in JSON: named fields, and documents that can be kept

    A record is an object, where unknown names are skipped and a known one may stand only
    once, or an array of the fields' values in order. What is skipped may be nested to any
    depth; what is kept may not.
-/

namespace SolidityBuild.Json

/-- The number of containers that a kept value may lie in, its own included. -/
def depthLimit : Nat := 127

/-- The values of a member name in an object. -/
def valuesOf (name : String) (members : List (Literal × Json)) : List Json :=
  members.filterMap fun (n, v) => if n = .text name then some v else none

/-- The value of a field in an object: none when it is missing, refused when it is
    repeated. -/
def field? (name : String) (members : List (Literal × Json)) : Option (Option Json) :=
  match valuesOf name members with
  | [] => some none
  | [v] => some (some v)
  | _ => none

/-- The values of a record's fields in the order of `names`; an array gives the first ones,
    and all of them unless `partial?` allows fewer. -/
def fields? (names : List String) (partial? : Bool) : Json → Option (List (Option Json))
  | .object members =>
    if members.all fun (name, _) => name.text?.isSome then
      names.mapM fun name => field? name members
    else none
  | .array items =>
    if items.length = names.length || partial? && items.length < names.length then
      some (items.map some ++ List.replicate (names.length - items.length) none)
    else none
  | _ => none

/-- A text that must be there. -/
def text? : Option Json → Option String
  | some (.string s) => s.text?
  | _ => none

/-- A text that may be missing or null. -/
def optionalText? : Option Json → Option (Option String)
  | none => some none
  | some .null => some none
  | some (.string s) => s.text?.map some
  | _ => none

/-- A signed 64-bit integer that must be there. -/
def int64? : Option Json → Option Int
  | some (.number n) => n.toInt64?
  | _ => none

mutual

/-- The value as it is kept: names are sorted and unique, and numbers settled. None when it
    is nested too deep, a number is too large or a string stands for no text. -/
def kept? (depth : Nat) : Json → Option Json
  | .null => some .null
  | .bool b => some (.bool b)
  | .number n => n.settle?.map .number
  | .string s => s.text?.map ofString
  | .array items =>
    match depth with
    | 0 => none
    | depth + 1 => (keptItems? depth items).map .array
  | .object members =>
    match depth with
    | 0 => none
    | depth + 1 => (keptMembers? depth members).map fun pairs => record (ByName.sort pairs)

/-- The items as they are kept. -/
def keptItems? (depth : Nat) : List Json → Option (List Json)
  | [] => some []
  | v :: rest => do
    let v ← kept? depth v
    let rest ← keptItems? depth rest
    pure (v :: rest)

/-- The members as they are kept, in the order in which they stand. -/
def keptMembers? (depth : Nat) : List (Literal × Json) → Option (List (String × Json))
  | [] => some []
  | (name, v) :: rest => do
    let name ← name.text?
    let v ← kept? depth v
    let rest ← keptMembers? depth rest
    pure ((name, v) :: rest)

end

end SolidityBuild.Json
