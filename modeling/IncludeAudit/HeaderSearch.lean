import IncludeAudit.FileSystem
import IncludeAudit.Path.Normal

/-! # The search for headers

Where a compiler finds the file of an inclusion directive. The path of a found file is spelled as
a compiler spells it: the directory as written, joined with the text of the directive.
-/
namespace IncludeAudit

/-- The directories in which one run of the compiler searches. -/
structure HeaderSearch where
  /-- The directory that relative paths start from. -/
  workingDir : Path
  /-- Directories for quoted directives only, searched before the others. -/
  quotePaths : List Path
  includePaths : List Path
deriving DecidableEq, Inhabited, Repr

namespace HeaderSearch

/-- A list of directories without those that repeat an earlier one, in whatever spelling. -/
def distinct (dirs : List Path) : List Path :=
  dirs.foldl (fun found d => if found.any (·.same d) then found else found ++ [d]) []

/-- A search that visits no directory of a list twice. -/
def ofDirectories (workingDir : Path) (quotePaths includePaths : List Path) : HeaderSearch :=
  ⟨workingDir, distinct quotePaths, distinct includePaths⟩

/-- The header in the first of some directories that has it. -/
def find? (s : HeaderSearch) (fs : FileSystem) (dirs : List Path) (header : String) : Option Path :=
  (dirs.map fun d => d.join ⟨header⟩).find? fun p => fs.isFile (s.workingDir.join p)

/-- The directories searched for a directive of a file; a quoted directive tries the directory of
that file first. -/
def directories (s : HeaderSearch) (angled : Bool) (includer? : Option Path) : List Path :=
  if angled then s.includePaths
  else (includer?.bind Path.parent?).toList ++ s.quotePaths ++ s.includePaths

/-- The file that a directive of `includer?` opens. -/
def resolve (s : HeaderSearch) (fs : FileSystem) (header : String) (angled : Bool)
    (includer? : Option Path) : Option Path :=
  s.find? fs (s.directories angled includer?) header

/-- The directories behind the first one that holds a file; none if no directory does. -/
def behind? (includer : Path) : List Path → Option (List Path)
  | [] => none
  | d :: rest =>
    if d.normalize.isAncestorOf includer.normalize then some rest else behind? includer rest

/-- The file that an `#include_next` of `includer` opens. The search goes on behind the first
directory that holds the includer; if there is none it is the ordinary search. -/
def resolveNext (s : HeaderSearch) (fs : FileSystem) (header : String) (angled : Bool)
    (includer : Path) : Option Path :=
  match behind? includer s.includePaths with
  | some dirs => s.find? fs dirs header
  | none => s.resolve fs header angled (some includer)

end HeaderSearch

end IncludeAudit
