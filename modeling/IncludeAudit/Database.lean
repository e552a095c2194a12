import IncludeAudit.Command.Basic
import IncludeAudit.Command.ShellWords
import IncludeAudit.Error
import IncludeAudit.Json.Record
import Std.Data.HashMap

/-! # The database of recorded commands

Recorded compiler commands by the source they compile. A source may have several commands, which
keep the order in which they were recorded.
-/
namespace IncludeAudit

/-- One record of a database document. -/
structure DatabaseEntry where
  directory : Path
  file : String
  arguments? : Option (List String) := none
  /-- The command as one line for a shell; it counts if there are no arguments. -/
  command? : Option String := none
deriving DecidableEq, Inhabited, Repr

namespace DatabaseEntry

/-- Reads a record. -/
def ofJson? (j : Json) : Option DatabaseEntry := do
  match ← j.fields? ["directory", "file", "arguments", "command"] with
  | [directory, file, arguments, command] =>
    some {
      directory := ⟨← (← directory).text?⟩
      file := ← (← file).text?
      arguments? := ← Json.optional? Json.texts? arguments
      command? := ← Json.optional? Json.text? command }
  | _ => none

/-- The arguments of a record. -/
def arguments (e : DatabaseEntry) : Except Error (List String) :=
  match e.arguments?, e.command? with
  | some arguments, _ => .ok arguments
  | none, some command => match ShellWords.split? command with
    | some arguments => .ok arguments
    | none => .error (.unclosedQuote e.file)
  | none, none => .error (.noArguments e.file)

/-- The recorded command; a relative directory is one below `base`. -/
def toCommand (base : Path) (e : DatabaseEntry) : Except Error CompileCommand :=
  e.arguments.map fun arguments =>
    ⟨if e.directory.isAbsolute then e.directory else base.absolutize e.directory, e.file, arguments⟩

end DatabaseEntry

/-- Commands by the canonical path of their source. -/
structure Database where
  commands : Std.HashMap Path (List CompileCommand)
deriving Inhabited

namespace Database

/-- No commands. -/
def empty : Database := ⟨{}⟩

/-- The database with one command more, behind those of the same source. -/
def insert (db : Database) (c : CompileCommand) : Database :=
  ⟨db.commands.insert c.sourcePath (db.commands.getD c.sourcePath [] ++ [c])⟩

/-- The database of some commands. -/
def ofList (cs : List CompileCommand) : Database := cs.foldl insert empty

/-- The commands of a source in the order of their insertion. -/
def commandsFor (db : Database) (source : Path) : List CompileCommand :=
  db.commands.getD source.normalize []

/-- The number of sources. -/
def size (db : Database) : Nat := db.commands.size

/-- Reads a database document. -/
def parse (text : String) (base : Path) : Except Error Database :=
  match (Json.parse? text).bind (Json.listOf? DatabaseEntry.ofJson?) with
  | none => .error .json
  | some entries => (entries.mapM (DatabaseEntry.toCommand base)).map ofList

/-- The usual name of a file with a database. -/
def fileName : String := "compile_commands.json"

/-- The file meant by a path: the path itself, or the file of the usual name in a directory. -/
def locate (fs : FileSystem) (path : Path) : Path :=
  if fs.isDirectory path then path.join ⟨fileName⟩ else path

/-- Loads a database. Relative directories of its records are relative to where its file lies. -/
def load (fs : FileSystem) (path : Path) : Except Error Database :=
  let file := locate fs path
  match fs.read file with
  | .error e => .error (.unreadable file e)
  | .ok text =>
    let base := fs.currentPath.absolutize (file.parent?.getD ⟨"."⟩)
    (parse text base).mapError (.inFile file)

end Database

end IncludeAudit
