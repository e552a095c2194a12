import IncludeAudit.Error
import IncludeAudit.Json.Record
import Std.Data.HashMap

/-! # Overlays of files

While an overlay is active a compiler opens files at other places than the ones they stand for; a
table leads from the opened, physical path back to the logical one. The table is written as a flat
list of pairs or in the form that the compiler itself reads.
-/
namespace IncludeAudit

/-- Logical paths by physical ones, both as text. -/
structure Overlay where
  table : Std.HashMap String String
deriving Inhabited

namespace Overlay

/-- No overlay. -/
def empty : Overlay := ⟨{}⟩

/-- The overlay of some pairs of a physical and a logical path; the last pair of a physical path
counts. -/
def ofPairs (pairs : List (String × String)) : Overlay :=
  ⟨pairs.foldl (fun table p => table.insert p.1 p.2) {}⟩

/-- The logical path of a physical one, or `fallback` if there is none. -/
def resolve (o : Overlay) (physical fallback : String) : String := o.table.getD physical fallback

/-- The number of physical paths. -/
def size (o : Overlay) : Nat := o.table.size

/-- The pairs of a flat list. A pair is a record of a `target`, which is the physical path, and a
`source`, which is the logical one. -/
def flatPairs? : Json → Option (List (String × String)) :=
  Json.listOf? fun j => do
    match ← j.fields? ["target", "source"] with
    | [target, source] => some (← (← target).text?, ← (← source).text?)
    | _ => none

/-- A file of a compiler's overlay: its name and the physical path it is read from. -/
def file? (j : Json) : Option (String × String) := do
  match ← j.fields? ["name", "external-contents"] with
  | [name, contents] => some (← (← name).text?, ← (← contents).text?)
  | _ => none

/-- A root of a compiler's overlay: its type, its path, and its files. -/
def root? (j : Json) : Option (String × Path × List (String × String)) := do
  match ← j.fields? ["type", "name", "contents"] with
  | [type, name, contents] =>
    some (← (← type).text?, ⟨← (← name).text?⟩,
      ← Json.defaulted? [] (Json.listOf? file?) contents)
  | _ => none

/-- The pairs of a root. Only roots that are directories have any. -/
def rootPairs : String × Path × List (String × String) → List (String × String)
  | (type, name, files) =>
    if type = "directory" then files.map fun (file, physical) => (physical, (name.join ⟨file⟩).text)
    else []

/-- The pairs of a compiler's overlay. -/
def nestedPairs? (j : Json) : Option (List (String × String)) := do
  match ← j.fields? ["roots"] with
  | [roots] => some ((← Json.listOf? root? (← roots)).flatMap rootPairs)
  | _ => none

/-- The pairs of a document of either form. -/
def pairs? (j : Json) : Option (List (String × String)) := (flatPairs? j).or (nestedPairs? j)

/-- Reads an overlay. Since its form shows only at the end, the whole document has to be one that
can be kept. -/
def parse (text : String) : Except Error Overlay :=
  match (do
      let j ← Json.parse? text
      if j.isKept Json.depthLimit then pairs? j else none) with
  | some pairs => .ok (ofPairs pairs)
  | none => .error .json

/-- Reads the overlay in a file. -/
def load (fs : FileSystem) (file : Path) : Except Error Overlay :=
  match fs.read file with
  | .error e => .error (.unreadable file e)
  | .ok text => (parse text).mapError (.inFile file)

end Overlay

end IncludeAudit
