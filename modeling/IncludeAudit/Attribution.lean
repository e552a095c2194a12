import IncludeAudit.Overlay
import IncludeAudit.Path.Normal
import IncludeAudit.Path.Set
import IncludeAudit.Text.Part
import IncludeAudit.Tree

/-! # The directory that served a directive

The path of the opened file ends in what its directive says, and what stands before that is the
directory that served the directive.
-/
namespace IncludeAudit

/-- Why a directive does not count for any directory. -/
inductive IgnoreReason where
  /-- It stands in no file. -/
  | noLocation
  /-- The file it opened is not known. -/
  | unresolved
  /-- The file it opened is given by an absolute path, so it lies outside the analysed tree. -/
  | outsideTree
deriving DecidableEq, Inhabited, Repr

/-- What a directive says about include directories. -/
inductive Attribution where
  | used (directory : Path)
  | ignored (reason : IgnoreReason)
deriving DecidableEq, Inhabited, Repr

namespace Attribution

/-- The directory that served a directive. -/
def directory? : Attribution → Option Path
  | used d => some d
  | ignored _ => none

end Attribution

namespace Overlay

/-- Attributes a directive at a location. The overlay turns the path of the opened file into the one
that the directive was meant for. -/
def attributionOf (o : Overlay) (location? : Option Location) (d : Inclusion) : Attribution :=
  match location?, d.file? with
  | none, _ => .ignored .noLocation
  | some _, none => .ignored .unresolved
  | some _, some file =>
    if file.isAbsolute then .ignored .outsideTree
    else
      .used (Path.normalize ⟨Text.removeSuffix (o.resolve file.text file.text) d.spelling⟩)

/-- The attributions of all directives of a translation unit, in the order of the text. -/
def attributions (o : Overlay) (u : TranslationUnit) : List Attribution :=
  u.inclusions.map fun (location?, d) => o.attributionOf location? d

/-- The directories that serve some directive of a translation unit. -/
def usedDirectories (o : Overlay) (u : TranslationUnit) : PathSet :=
  .insertAll ∅ ((o.attributions u).filterMap Attribution.directory?)

end Overlay

end IncludeAudit
