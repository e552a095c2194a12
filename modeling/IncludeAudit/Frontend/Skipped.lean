import IncludeAudit.HeaderSearch
import IncludeAudit.Tree

/-! # Files of skipped directives

A compiler does not enter a file again that protects itself against that, and then its output does
not say which file the directive meant. A directive that is searched for in the same way as an
earlier one whose file was entered means that file; for any other the headers are searched.
-/
namespace IncludeAudit

/-- How a directive's file is searched for. -/
structure SearchKey where
  keyword : Keyword
  angled : Bool
  spelling : String
  /-- The directory of the including file, in its components, if the search depends on it. -/
  includerDir? : Option (List Component)
deriving DecidableEq, Inhabited, Repr

namespace SearchKey

/-- The key of a directive of a file. -/
def ofDirective (d : Inclusion) (includer : Path) : SearchKey where
  keyword := d.keyword
  angled := d.angled
  spelling := d.spelling
  includerDir? :=
    if !d.angled || d.keyword = .next then includer.parent?.map Path.components else none

end SearchKey

/-- The file that a search finds for a directive of a file. -/
def HeaderSearch.ofDirective (s : HeaderSearch) (fs : FileSystem) (d : Inclusion)
    (includer : Path) : Option Path :=
  match d.keyword with
  | .next => s.resolveNext fs d.spelling d.angled includer
  | _ => s.resolve fs d.spelling d.angled (some includer)

/-- Files that were entered, by the searches that found them, latest first. -/
abbrev EnteredFiles := List (SearchKey × Path)

namespace EnteredFiles

/-- The file that was first entered for a key. -/
def file? (entered : EnteredFiles) (key : SearchKey) : Option Path :=
  (entered.find? fun e => e.1 = key).map (·.2)

/-- Notes the file of a key unless one is known. -/
def note (entered : EnteredFiles) (key : SearchKey) (file : Path) : EnteredFiles :=
  if (entered.file? key).isSome then entered else (key, file) :: entered

end EnteredFiles

namespace HeaderSearch

/-- What a directive at a location becomes, and the files known after it. -/
def fillDirective (s : HeaderSearch) (fs : FileSystem) (entered : EnteredFiles) (d : Inclusion)
    (includer : Path) : Inclusion × EnteredFiles :=
  let key := SearchKey.ofDirective d includer
  match d.file? with
  | some file => (d, entered.note key file)
  | none => ({ d with file? := (entered.file? key).or (s.ofDirective fs d includer) }, entered)

/-- What a node becomes apart from its children. Only directives with a location are looked at. -/
def fillKind (s : HeaderSearch) (fs : FileSystem) (entered : EnteredFiles) (kind : NodeKind)
    (location? : Option Location) : NodeKind × EnteredFiles :=
  match kind, location? with
  | .inclusion d, some location =>
    let (d, entered) := s.fillDirective fs entered d ⟨location.file⟩
    (.inclusion d, entered)
  | kind, _ => (kind, entered)

mutual

/-- Fills in the files of a tree, each node before the nodes below it. -/
def fill (s : HeaderSearch) (fs : FileSystem) (entered : EnteredFiles) : Node → Node × EnteredFiles
  | ⟨kind, location?, children⟩ =>
    let (kind, entered) := s.fillKind fs entered kind location?
    let (children, entered) := s.fillAll fs entered children
    (⟨kind, location?, children⟩, entered)

/-- Fills in the files of some trees, one after the other. -/
def fillAll (s : HeaderSearch) (fs : FileSystem) (entered : EnteredFiles) :
    List Node → List Node × EnteredFiles
  | [] => ([], entered)
  | n :: rest =>
    let (n, entered) := s.fill fs entered n
    let (rest, entered) := s.fillAll fs entered rest
    (n :: rest, entered)

end

/-- The tree with the files of its skipped directives. -/
def fillSkipped (s : HeaderSearch) (fs : FileSystem) (n : Node) : Node := (s.fill fs [] n).1

end HeaderSearch

end IncludeAudit
