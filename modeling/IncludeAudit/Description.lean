import IncludeAudit.Error
import IncludeAudit.Json.Record
import IncludeAudit.Text.Part
import Std.Data.TreeMap

/-! # The description of a build

A description lists the targets of a build by label. A label may carry the toolchain that a target
is built with, in parentheses at its end; a target is looked up without it.
-/
namespace IncludeAudit

/-- One target of a build. -/
structure Target where
  type : String := ""
  sources : List String := []
  includeDirs : List String := []
  defines : List String := []
  /-- Flags for all sources. -/
  cflags : List String := []
  /-- Flags for C sources. -/
  cflagsC : List String := []
  /-- Flags for all other sources. -/
  cflagsCc : List String := []
  metadata : Std.TreeMap String Json := {}
deriving Inhabited

namespace Target

/-- What a target is called in a report: the template it was made by if that is known, else its
type. -/
def entity (t : Target) : String :=
  match t.metadata.get? "template" with
  | some (.array (.string (some name) :: _)) => name
  | _ => t.type

/-- Reads the metadata of a target, whose values are kept as they are. They lie three levels deep in
the document. -/
def metadataOf? (j : Json) : Option (Std.TreeMap String Json) := do
  let members ← j.table?
  if members.all fun m => m.2.isKept (Json.depthLimit - 3) then
    some (members.foldl (fun table m => table.insert m.1 m.2) {})
  else none

/-- Reads a target. Every field may be missing. -/
def ofJson? (j : Json) : Option Target := do
  let fields ← j.fields? ["type", "sources", "include_dirs", "defines", "cflags", "cflags_c",
    "cflags_cc", "metadata"]
  match fields with
  | [type, sources, includeDirs, defines, cflags, cflagsC, cflagsCc, metadata] =>
    let texts := Json.defaulted? [] Json.texts?
    some {
      type := ← Json.defaulted? "" Json.text? type
      sources := ← texts sources
      includeDirs := ← texts includeDirs
      defines := ← texts defines
      cflags := ← texts cflags
      cflagsC := ← texts cflagsC
      cflagsCc := ← texts cflagsCc
      metadata := ← Json.defaulted? {} metadataOf? metadata }
  | _ => none

end Target

/-- A label without its toolchain. -/
def removeToolchain (label : String) : String := Text.beforeLast '(' label

/-- The targets of a build, in the order of their labels. -/
structure Description where
  targets : Std.TreeMap String Target
deriving Inhabited

namespace Description

/-- The description of some targets; the last one with a label counts. -/
def ofList (targets : List (String × Target)) : Description :=
  ⟨targets.foldl (fun table t => table.insert t.1 t.2) {}⟩

/-- Reads a description. -/
def parse (text : String) : Except Error Description :=
  match (do (← (← Json.parse? text).table?).mapM fun m => do some (m.1, ← Target.ofJson? m.2)) with
  | some targets => .ok (ofList targets)
  | none => .error .json

/-- Reads the description in a file. -/
def load (fs : FileSystem) (file : Path) : Except Error Description :=
  match fs.read file with
  | .error e => .error (.unreadable file e)
  | .ok text => (parse text).mapError (.inFile file)

/-- The labels and targets in their order. -/
def items (d : Description) : List (String × Target) := d.targets.toList

/-- The target with a label, whose toolchain does not matter. -/
def get (d : Description) (label : String) : Except Error Target :=
  match d.targets.get? (removeToolchain label) with
  | some t => .ok t
  | none => .error (.unknownTarget label)

/-- The targets that a condition holds for. -/
def filter (d : Description) (condition : Target → Bool) : Description :=
  ⟨d.targets.filter fun _ t => condition t⟩

/-- The number of targets. -/
def size (d : Description) : Nat := d.targets.size

end Description

end IncludeAudit
