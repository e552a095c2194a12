import IncludeAudit.Proofs.Frontend.Skipped
import IncludeAudit.Proofs.Preprocessed.Outline
import IncludeAudit.Proofs.Tree.Walk

/-! # The order of the directives

Three parts of the program go over the directives of a translation unit: the builder when their
lines are fed to it (`Builder.met`), filling in, which carries the files entered so far from one to
the next (`HeaderSearch.fillList`), and the walk over the finished tree.  They meet the directives
in the same order.  The builder takes a directive out of its frame when a file is entered for it and
puts it back only when the file has ended, so for the builder this is not plain from the
definitions; it is read off the outline, which is written down line by line.
-/
namespace IncludeAudit

/-- The directive that a node is, with its location. -/
def NodeKind.directiveAt? (location? : Option Location) :
    NodeKind → Option (Option Location × Inclusion)
  | .inclusion d => some (location?, d)
  | _ => none

theorem Node.inclusions_eq_outline (depth : Nat) (n : Node) :
    n.inclusions = (n.outline depth).filterMap fun e => e.kind.directiveAt? e.location? := by
  have hnode : (fun m : Node => m.inclusion?.map fun d => (m.location?, d)) =
      (fun x => x.1.directiveAt? x.2) ∘ fun m : Node => (m.kind, m.location?) := by
    funext m
    obtain ⟨_ | _ | _ | _, _, _⟩ := m <;> rfl
  rw [inclusions, hnode, ← List.filterMap_map, map_preorder_eq_outline depth, List.filterMap_map]
  rfl

namespace Preprocessed

namespace Builder

/-- The directive of a line, with the file that the text behind the line enters for it. -/
def directive? (b : Builder) (rest : List Line) : Line → Option (Option Location × Inclusion)
  | .inclusion keyword spelling angled =>
    some (b.location?, ⟨keyword, spelling, angled, enteredNext? rest⟩)
  | _ => none

/-- The directives of some lines, as the builder meets them. -/
def met (b : Builder) : List Line → List (Option Location × Inclusion)
  | [] => []
  | l :: rest => (b.directive? rest l).toList ++ (b.feed l).met rest

end Builder

namespace Agrees

variable {s : Scan} {b : Builder}

theorem directives_emit (h : Agrees s b) (rest : List Line) (l : Line) :
    ((s.emit rest l).filterMap fun e => e.kind.directiveAt? e.location?) =
      (b.directive? rest l).toList := by
  cases l with
  | marker line file enters leaves => cases enters <;> rfl
  | inclusion keyword spelling angled =>
    rw [Builder.directive?, ← h.location?]
    rfl
  | define name => rfl
  | text => rfl
  | blank => rfl

/-- The scan writes down the directives as the builder meets them. -/
theorem directives_outline (h : Agrees s b) (ls : List Line) :
    ((s.outline ls).filterMap fun e => e.kind.directiveAt? e.location?) = b.met ls := by
  induction ls generalizing s b with
  | nil => rfl
  | cons l ls ih =>
    rw [Scan.outline, List.filterMap_append, h.directives_emit, ih (h.feed l), Builder.met]

end Agrees

end Preprocessed

/-- The walk over the finished tree has the directives as the builder met them. -/
theorem TranslationUnit.inclusions_ofPreprocessed (output : String) (mainFile : Path) :
    (ofPreprocessed output mainFile).inclusions =
      (Preprocessed.Builder.start mainFile).met
        ((Text.lines output.toList).map Preprocessed.Line.classify) := by
  have hstart := Preprocessed.Agrees.start mainFile
  rw [inclusions, Node.inclusions_eq_outline 0, ofPreprocessed, hstart.outline_foldl_feed,
    Preprocessed.Builder.outlineWith_of_not_pending rfl, List.filterMap_append,
    hstart.directives_outline]
  rfl

/-- **The walk over a tree ends, and what it has given then is the order of the text**: the node,
and behind it what its children give, from first to last, so that it comes through each place of the
tree once.  In this order filling in carries the files it knows from directive to directive, and in
this order the builder has met the directives of a text. -/
theorem Walk.yields_preorder (n : Node) :
    (∀ ns, (Walk.ofRoot n).Yields ns ↔ ns = n.preorder) ∧
      n.preorder = n :: n.children.flatMap Node.preorder ∧
      n.ListsEachOnce n.preorder ∧
      (∀ (s : HeaderSearch) (fs : FileSystem) (entered : EnteredFiles),
        ((s.fill fs entered n).1.inclusions, (s.fill fs entered n).2) =
          s.fillList fs entered n.inclusions) ∧
      ∀ (output : String) (mainFile : Path),
        (TranslationUnit.ofPreprocessed output mainFile).inclusions =
          (Preprocessed.Builder.start mainFile).met
            ((Text.lines output.toList).map Preprocessed.Line.classify) :=
  ⟨fun _ => yields_ofRoot_iff, n.preorder_eq, n.listsEachOnce_preorder,
    fun s fs entered => s.fill_inclusions fs entered n, TranslationUnit.inclusions_ofPreprocessed⟩

end IncludeAudit
