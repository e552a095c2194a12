import IncludeAudit.Machine

/-! # Recorded compiler output

A machine on which no compiler is run. What the compiler would put out for a source is taken from
a file beside it.
-/
namespace IncludeAudit

/-- The ending of the files with recorded output. -/
def recordEnding : String := ".i"

/-- The program that puts out what is recorded for its last argument. -/
def recordedOutput (fs : FileSystem) : Program := fun directory args =>
  if args.head? = some "--version" then { stdout := "recorded output\n".toUTF8.toList }
  else
    match { fs with workingDirectory := directory }.read ⟨args.getLastD "" ++ recordEnding⟩ with
    | .ok text => { stdout := text.toUTF8.toList }
    | .error _ => { succeeded := false }

/-- The machine with some files and a file `clang` in the root, where programs are looked for. Every
file stands for the program that puts out what is recorded. -/
def Machine.ofRecords (fs : FileSystem) : Machine where
  files := { fs with entries := (["clang".toList], .file "") :: fs.entries }
  searchPath := [⟨"/"⟩]
  executable? _ := some (recordedOutput fs)

end IncludeAudit
