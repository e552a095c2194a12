import IncludeAudit.Path.Basic
import IncludeAudit.Text.Utf8

/-! # File systems as data

The file systems here have no symbolic links. A path is followed component by component: every step
but the last has to lead into a directory, so `x/..` names something only if `x` does. Names and
paths may only have so many bytes: the bytes of a path are counted before it is followed, those of a
name when its turn comes.
-/
namespace IncludeAudit

/-- Why the operating system refuses a request. -/
inductive OsError where
  | notFound
  | permissionDenied
  | notADirectory
  | isADirectory
  /-- A path, or a name in it, with too many bytes. -/
  | nameTooLong
  /-- A path with the character NUL in it. -/
  | nulInPath
  /-- A command with the character NUL in it. -/
  | nulInCommand
deriving DecidableEq, Inhabited, Repr

namespace OsError

/-- What the operating system says. -/
def text : OsError → String
  | notFound => "No such file or directory (os error 2)"
  | permissionDenied => "Permission denied (os error 13)"
  | notADirectory => "Not a directory (os error 20)"
  | isADirectory => "Is a directory (os error 21)"
  | nameTooLong => "File name too long (os error 36)"
  | nulInPath => "file name contained an unexpected NUL byte"
  | nulInCommand => "nul byte found in provided data"

end OsError

/-- What a path leads to. -/
inductive Entry where
  | file (contents : String)
  | directory
deriving DecidableEq, Inhabited, Repr

/-- Names of nested directories, outermost first, and what lies there. -/
structure FileSystem where
  entries : List (List (List Char) × Entry)
  /-- The directory that relative paths start from. -/
  workingDirectory : List (List Char)
deriving Inhabited

namespace FileSystem

/-- The most bytes that a name in a directory can have. -/
def maxName : Nat := 255

/-- The most bytes that a path can have. -/
def maxPath : Nat := 4095

/-- What lies under given names below the root. -/
def entry? (fs : FileSystem) (names : List (List Char)) : Option Entry :=
  if names.isEmpty then some .directory else (fs.entries.find? fun e => e.1 = names).map (·.2)

/-- Follows components from a directory. -/
def follow (fs : FileSystem) (names : List (List Char)) :
    List Component → Except OsError (List (List Char) × Entry)
  | [] => .ok (names, .directory)
  | .root :: rest => fs.follow [] rest
  | .here :: rest => fs.follow names rest
  | .up :: rest => fs.follow names.dropLast rest
  | .name n :: rest =>
    if maxName < Text.byteCount n then .error .nameTooLong
    else match fs.entry? (names ++ [n]) with
      | none => .error .notFound
      | some .directory => fs.follow (names ++ [n]) rest
      | some (.file contents) =>
        if rest.isEmpty then .ok (names ++ [n], .file contents) else .error .notADirectory

/-- A path that can only lead to a directory, since it ends in a separator or in `/.`. -/
def asksForDirectory (p : Path) : Bool :=
  match (Component.segments p.chars).reverse with
  | last :: _ :: _ => last = [] ∨ last = ['.']
  | _ => false

/-- The names under which a path's target lies, and the target. -/
def locate (fs : FileSystem) (p : Path) : Except OsError (List (List Char) × Entry) :=
  if p.chars.contains '\x00' then .error .nulInPath
  else if p.chars.isEmpty then .error .notFound
  else if maxPath < Text.byteCount p.chars then .error .nameTooLong
  else
    match fs.follow fs.workingDirectory p.components with
    | .ok (names, .file contents) =>
      if asksForDirectory p then .error .notADirectory else .ok (names, .file contents)
    | found => found

/-- Whether a path leads to a regular file. -/
def isFile (fs : FileSystem) (p : Path) : Bool :=
  match fs.locate p with
  | .ok (_, .file _) => true
  | _ => false

/-- Whether a path leads to a directory. -/
def isDirectory (fs : FileSystem) (p : Path) : Bool :=
  match fs.locate p with
  | .ok (_, .directory) => true
  | _ => false

/-- The contents of a file. -/
def read (fs : FileSystem) (p : Path) : Except OsError String :=
  match fs.locate p with
  | .ok (_, .file contents) => .ok contents
  | .ok (_, .directory) => .error .isADirectory
  | .error e => .error e

/-- The path of the working directory. -/
def currentPath (fs : FileSystem) : Path :=
  .ofChars (Component.render (.root :: fs.workingDirectory.map .name))

end FileSystem

end IncludeAudit
