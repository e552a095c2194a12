import IncludeAudit.CommandLine.Outcome
import IncludeAudit.Recorded

/-! # The program

The program sees the files at and below the working directory and the paths that its arguments name,
and the marks of source roots above them. It starts no compiler: the output for a source is read
from the file beside it that has the ending `.i`.
-/
namespace IncludeAudit.Program

/-- The names of the directories on the way to a path without `..`, and its own. -/
def names (p : Path) : List (List Char) :=
  p.normalize.components.filterMap fun
    | .name cs => some cs
    | _ => none

/-- What lies at a path and below it. Links are not followed. -/
partial def entriesBelow (p : Path) : IO (List (List (List Char) × Entry)) := do
  let file := System.mkFilePath [p.text]
  if !(← file.pathExists) then return []
  match (← file.symlinkMetadata).type with
  | .dir =>
    let mut found := [(names p, Entry.directory)]
    for e in ← file.readDir do
      found := found ++ (← entriesBelow (p.join ⟨e.fileName⟩))
    return found
  | .file =>
    let text ← try IO.FS.readFile file catch _ => pure ""
    return [(names p, .file text)]
  | _ => return []

/-- The directories above a path, and the marks of source roots in them. -/
def entriesAbove (p : Path) : IO (List (List (List Char) × Entry)) := do
  let mut found := []
  for d in p.ancestors.tail do
    found := found ++ (names d, Entry.directory) :: (← entriesBelow (d.join Workspace.rootMarker))
  return found

/-- The files that a demand may need. -/
def snapshot (paths : List Path) : IO FileSystem := do
  let here : Path := ⟨(← IO.currentDir).toString⟩
  let mut found := []
  for p in here :: paths.map here.absolutize do
    found := found ++ (← entriesBelow p) ++ (← entriesAbove p)
  return ⟨found, names here⟩

end IncludeAudit.Program

open IncludeAudit in
/-- Meets the demand that the arguments make. -/
def main (args : List String) : IO UInt32 := do
  match CommandLine.Request.parse? args with
  | none =>
    CommandLine.usage.forM IO.eprintln
    return 2
  | some r =>
    let outcome := r.run (Machine.ofRecords (← Program.snapshot r.paths))
    outcome.output.forM IO.println
    (outcome.errorOutput fun _ message => "WARN " ++ message).forM IO.eprintln
    return outcome.status.toUInt32
