import IncludeAudit.Yaml.Basic

/-! # Records in YAML documents

In a record, what is not written stands for an empty record and for an empty list, any scalar is a
text, and the words for nothing count only where a value may be missing.
-/
namespace IncludeAudit.Yaml

/-- The text of a scalar of any kind. -/
def text? (document y : Yaml) : Option String :=
  match target? document y with
  | some (scalar _ _ _ text) => some text
  | _ => none

/-- A list of texts. -/
def texts? (document y : Yaml) : Option (List String) :=
  match target? document y with
  | some (sequence _ items) => items.mapM (text? document)
  | some (scalar _ _ true "") => some []
  | _ => none

/-- The tag of a value that is missing. -/
def nullTag : String := "tag:yaml.org,2002:null"

/-- The plain scalars that stand for a missing value. -/
def nullWords : List String := ["null", "Null", "NULL", "~"]

/-- A text that may be missing. A tag for missing values asks for one of their words, and any other
tag makes the word a text. -/
def optionalText? (document y : Yaml) : Option (Option String) :=
  match target? document y with
  | some (scalar _ tag? isPlain text) =>
    if !isPlain then some (some text)
    else match tag? with
      | none => if text.isEmpty || nullWords.contains text then some none else some (some text)
      | some tag =>
        if tag ≠ nullTag then some (some text)
        else if nullWords.contains text then some none
        else none
  | _ => none

/-- The values of the fields of a record, in the order of their names; a field may be missing. No
field may be given twice; entries with other names do not matter. -/
def fields? (document : Yaml) (names : List String) (y : Yaml) : Option (List (Option Yaml)) :=
  match target? document y with
  | some (mapping _ entries) => do
    let keys ← entries.mapM fun e => text? document e.1
    let members := keys.zip (entries.map (·.2))
    if names.all fun n => (keys.filter (· = n)).length ≤ 1 then
      some (names.map fun n => (members.find? fun m => m.1 = n).map (·.2))
    else none
  | some (scalar _ _ true "") => some (names.map fun _ => none)
  | _ => none

/-- The value of a field that stands for `fallback` when it is missing. -/
def defaulted? {α : Type} (fallback : α) (f : Yaml → Option α) : Option Yaml → Option α
  | none => some fallback
  | some y => f y

end IncludeAudit.Yaml
