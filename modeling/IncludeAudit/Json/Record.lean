import IncludeAudit.Json.Reader

/-! # Records in JSON documents

A record is written as an object, in which unknown members do not matter and known ones come once at
most, or as an array of its fields in their order, from which fields at the end may be missing.
-/
namespace IncludeAudit.Json

/-- The text of a string. -/
def text? : Json → Option String
  | string text? => text?
  | _ => none

/-- The items of an array. -/
def items : Json → Option (List Json)
  | array items => some items
  | _ => none

/-- An array whose items are all read by `f`. -/
def listOf? {α : Type} (f : Json → Option α) : Json → Option (List α)
  | array items => items.mapM f
  | _ => none

/-- A list of texts. -/
def texts? : Json → Option (List String) := listOf? text?

/-- A value that may be `null`, which counts as missing. -/
def optional? {α : Type} (f : Json → Option α) : Option Json → Option (Option α)
  | none => some none
  | some null => some none
  | some j => (f j).map some

/-- A value that stands for `fallback` when it is missing. -/
def defaulted? {α : Type} (fallback : α) (f : Json → Option α) : Option Json → Option α
  | none => some fallback
  | some j => f j

/-- The values of the fields of a record, in the order of their names; a field may be missing. -/
def fields? (names : List String) : Json → Option (List (Option Json))
  | object members =>
    if members.all (fun m => m.1.isSome)
        && names.all fun n => (members.filter fun m => m.1 = some n).length ≤ 1 then
      some (names.map fun n => (members.find? fun m => m.1 = some n).map (·.2))
    else none
  | array items =>
    if items.length ≤ names.length then
      some (items.map some ++ List.replicate (names.length - items.length) none)
    else none
  | _ => none

/-- The members of an object that is a table: each name stands for a text. -/
def table? : Json → Option (List (String × Json))
  | object members => members.mapM fun (name?, j) => name?.map fun name => (name, j)
  | _ => none

end IncludeAudit.Json
