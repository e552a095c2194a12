import IncludeAudit.FileSystem

/-! # Machines

A machine on which programs can be run: its files, and which of them are programs. A program is
started by its path, or by a name without separator that is looked for in some directories. What it
writes depends on nothing but the directory it runs in and its arguments.
-/
namespace IncludeAudit

/-- What a finished program leaves behind. -/
structure ProcessOutput where
  stdout : List UInt8 := []
  stderr : List UInt8 := []
  succeeded : Bool := true
  /-- How it ended, in the words of the operating system. -/
  ending : String := if succeeded then "exit status: 0" else "exit status: 1"
deriving DecidableEq, Inhabited

/-- A program, as a function of the directory it runs in and its arguments. -/
abbrev Program := List (List Char) → List String → ProcessOutput

/-- A machine. -/
structure Machine where
  files : FileSystem
  /-- The directories in which programs are looked for by their names. -/
  searchPath : List Path
  /-- Files that are programs, by the names of their directories and their own. -/
  executable? : List (List Char) → Option Program

namespace Machine

/-- Whether a text holds the character NUL. -/
def holdsNul (s : String) : Bool := s.toList.contains '\x00'

/-- The directory in which a program runs. -/
def runDirectory (m : Machine) : Option Path → Except OsError (List (List Char))
  | none => .ok m.files.workingDirectory
  | some d => match m.files.locate d with
    | .ok (names, .directory) => .ok names
    | .ok (_, .file _) => .error .notADirectory
    | .error e => .error e

/-- The program at a path that is followed from a directory. A directory, and a file that is no
program, may not be run. -/
def programAt (m : Machine) (directory : List (List Char)) (path : Path) :
    Except OsError Program := do
  match ← { m.files with workingDirectory := directory }.locate path with
  | (_, .directory) => throw .permissionDenied
  | (names, .file _) => (m.executable? names).elim (throw .permissionDenied) pure

/-- The first program with a name in some directories. Directories that lack the name are passed
over, and so is what may not be run, which is remembered if no program is found. -/
def findProgram (m : Machine) (directory : List (List Char)) (name : Path) :
    List Path → Except OsError Program
  | [] => .error .notFound
  | d :: rest =>
    match m.programAt directory (d.join name) with
    | .error .notFound | .error .notADirectory => m.findProgram directory name rest
    | .error .permissionDenied =>
      (m.findProgram directory name rest).mapError fun e =>
        if e = .notFound then .permissionDenied else e
    | found => found

/-- The program that a name or a path starts in a directory. -/
def program (m : Machine) (directory : List (List Char)) (path : Path) : Except OsError Program :=
  if path.chars.isEmpty || path.chars.contains '/' then m.programAt directory path
  else m.findProgram directory path m.searchPath

/-- Runs a program in a directory, or in the working directory if none is given. -/
def run (m : Machine) (path : Path) (directory? : Option Path) (args : List String) :
    Except OsError ProcessOutput := do
  if holdsNul path.text || (directory?.any fun d => holdsNul d.text) || args.any holdsNul then
    throw .nulInCommand
  let directory ← m.runDirectory directory?
  let program ← m.program directory path
  pure (program directory args)

end Machine

end IncludeAudit
