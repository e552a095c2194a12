import IncludeAudit.Proofs.Frontend.Skipped

/-! # The tree that filling in leaves

Filling in reads and writes files of directives and nothing else, so the tree before and the tree
after are equal once all files are taken out (`unopened_fillSkipped`).  Which file a directive gets
is told from the tree before: the files that searches find on the way are never looked at again
(`fillSkipped_directives`).
-/
namespace IncludeAudit

/-- What a node stands for, without the file that was opened for it. -/
def NodeKind.unopened : NodeKind → NodeKind
  | .inclusion d => .inclusion d.unopened
  | .unit path => .unit path
  | .region path => .region path
  | .define name => .define name

namespace Node

mutual

/-- The tree without the files of its directives. -/
def unopened : Node → Node
  | ⟨kind, location?, children⟩ => ⟨kind.unopened, location?, unopenedAll children⟩

/-- Some trees without the files of their directives. -/
def unopenedAll : List Node → List Node
  | [] => []
  | n :: rest => n.unopened :: unopenedAll rest

end

end Node

namespace HeaderSearch

/-! ## What stays -/

section

variable (s : HeaderSearch) (fs : FileSystem)

/-- Filling in a file leaves everything else of the directive alone. -/
theorem unopened_fillDirective (entered : EnteredFiles) (d : Inclusion) (includer : Path) :
    (s.fillDirective fs entered d includer).1.unopened = d.unopened := by
  unfold fillDirective
  cases d.file? <;> rfl

theorem unopened_fillKind (entered : EnteredFiles) (kind : NodeKind) (location? : Option Location) :
    (s.fillKind fs entered kind location?).1.unopened = kind.unopened := by
  cases kind with
  | inclusion d =>
    cases location? with
    | none => rfl
    | some location =>
      exact congrArg NodeKind.inclusion (s.unopened_fillDirective fs entered d ⟨location.file⟩)
  | unit path => rfl
  | region path => rfl
  | define name => rfl

mutual

/-- So the filled tree is the tree that was read, up to the files of its directives. -/
theorem unopened_fill (entered : EnteredFiles) : (n : Node) →
    (s.fill fs entered n).1.unopened = n.unopened
  | ⟨kind, location?, children⟩ => by
    have hkind := s.unopened_fillKind fs entered kind location?
    have hchildren := unopenedAll_fillAll (s.fillKind fs entered kind location?).2 children
    rw [fill, Node.unopened, Node.unopened, hkind, hchildren]

theorem unopenedAll_fillAll (entered : EnteredFiles) : (ns : List Node) →
    Node.unopenedAll (s.fillAll fs entered ns).1 = Node.unopenedAll ns
  | [] => rfl
  | n :: ns => by
    have hn := unopened_fill entered n
    have hns := unopenedAll_fillAll (s.fill fs entered n).2 ns
    rw [fillAll, Node.unopenedAll, Node.unopenedAll, hn, hns]

end

/-- Filling in keeps the shape of a tree, and all of it but the files of its directives. -/
theorem unopened_fillSkipped (n : Node) : (s.fillSkipped fs n).unopened = n.unopened :=
  s.unopened_fill fs [] n

end

/-! ## What is filled in -/

/-- Among some directives `file` is the one that was entered first by the search with a key. -/
def EnteredFirst (key : SearchKey) (file : Path) (passed : List (Option Location × Inclusion)) :
    Prop :=
  ∃ before location d after, passed = before ++ (some location, d) :: after ∧
    SearchKey.ofDirective d ⟨location.file⟩ = key ∧ d.file? = some file ∧
      ∀ l e, (some l, e) ∈ before → e.file?.isSome → SearchKey.ofDirective e ⟨l.file⟩ ≠ key

/-- A directive tells of a search if it has its key and entered a file. -/
theorem enteredFile?_eq_some_iff {key : SearchKey} {file : Path} {location : Location}
    {d : Inclusion} : enteredFile? key (some location, d) = some file ↔
      SearchKey.ofDirective d ⟨location.file⟩ = key ∧ d.file? = some file := by
  rw [enteredFile?]
  by_cases hkey : SearchKey.ofDirective d ⟨location.file⟩ = key
  · simp [hkey]
  · simp [hkey]

theorem enteredFile?_eq_none_iff {key : SearchKey} {location : Location} {d : Inclusion} :
    enteredFile? key (some location, d) = none ↔
      (d.file?.isSome → SearchKey.ofDirective d ⟨location.file⟩ ≠ key) := by
  rw [enteredFile?]
  by_cases hkey : SearchKey.ofDirective d ⟨location.file⟩ = key
  · cases d.file? <;> simp [hkey]
  · simp [hkey]

/-- The file that is remembered for a search is the first one that a directive with its key
entered. -/
theorem firstEntered?_eq_some_iff {key : SearchKey} {file : Path}
    {passed : List (Option Location × Inclusion)} :
    firstEntered? key passed = some file ↔ EnteredFirst key file passed := by
  rw [firstEntered?, List.findSome?_eq_some_iff]
  constructor
  · rintro ⟨before, ⟨_ | location, d⟩, after, hpassed, hfile, hbefore⟩
    · cases hfile
    · obtain ⟨hkey, hd⟩ := enteredFile?_eq_some_iff.1 hfile
      exact ⟨before, location, d, after, hpassed, hkey, hd,
        fun l e he => enteredFile?_eq_none_iff.1 (hbefore _ he)⟩
  · rintro ⟨before, location, d, after, hpassed, hkey, hd, hbefore⟩
    refine ⟨before, (some location, d), after, hpassed, enteredFile?_eq_some_iff.2 ⟨hkey, hd⟩, ?_⟩
    rintro ⟨_ | l, e⟩ he
    · rfl
    · exact enteredFile?_eq_none_iff.2 (hbefore l e he)

/-- For any other search nothing is remembered. -/
theorem firstEntered?_eq_none_iff {key : SearchKey}
    {passed : List (Option Location × Inclusion)} :
    firstEntered? key passed = none ↔ ∀ file, ¬ EnteredFirst key file passed := by
  rw [Option.eq_none_iff_forall_not_mem]
  exact forall_congr' fun file => not_congr firstEntered?_eq_some_iff

variable {s : HeaderSearch} {fs : FileSystem} {passed : List (Option Location × Inclusion)}
  {location? : Option Location} {d : Inclusion}

/-- Filling in looks only at directives that have a location and lack a file. -/
theorem filled_of_settled (h : location? = none ∨ d.file?.isSome) :
    s.filled fs passed (location?, d) = (location?, d) := by
  rcases h with rfl | hfile
  · rw [filled, Option.bind_none, Option.or_none]
  · rw [filled, Option.or_of_isSome hfile]

theorem filled_of_file?_eq_none (location : Location) (h : d.file? = none) :
    s.filled fs passed (some location, d) = (some location, { d with
      file? := (firstEntered? (SearchKey.ofDirective d ⟨location.file⟩) passed).or
        (s.ofDirective fs d ⟨location.file⟩) }) := by
  rw [filled, h, Option.none_or, Option.bind_some]

/-- Two searches find the same for a directive of a file if they do so in the way in which its
keyword is searched for. -/
theorem ofDirective_eq_of_keyword {t : HeaderSearch} {gs : FileSystem} {includer : Path}
    (hnext : d.keyword = .next →
      t.resolveNext gs d.spelling d.angled includer = s.resolveNext fs d.spelling d.angled includer)
    (hother : d.keyword ≠ .next → t.resolve gs d.spelling d.angled (some includer) =
      s.resolve fs d.spelling d.angled (some includer)) :
    t.ofDirective gs d includer = s.ofDirective fs d includer := by
  by_cases hkeyword : d.keyword = .next
  · rw [ofDirective_of_next _ _ hkeyword, ofDirective_of_next _ _ hkeyword, hnext hkeyword]
  · rw [ofDirective_of_ne_next _ _ hkeyword, ofDirective_of_ne_next _ _ hkeyword, hother hkeyword]

/-- A search matters to a directive only by what it finds for that directive. -/
theorem filled_congr {t : HeaderSearch} {gs : FileSystem}
    (h : ∀ location, location? = some location →
      t.ofDirective gs d ⟨location.file⟩ = s.ofDirective fs d ⟨location.file⟩) :
    t.filled gs passed (location?, d) = s.filled fs passed (location?, d) := by
  cases location? with
  | none => rfl
  | some location => rw [filled, filled, Option.bind_some, Option.bind_some, h location rfl]

/-- **What filling in does to a tree.**  The tree keeps all but files.  A directive outside of every
file, or with a file, keeps what it has.  Any other one gets the file of the first directive before
it that was entered by the same search.  If there is none, it gets what is found for itself, behind
the directory of its own file if it is an `#include_next` and in all directories otherwise; no
search for another directive has a part in that. -/
theorem fillSkipped_directives (s : HeaderSearch) (fs : FileSystem) (n : Node) :
    (s.fillSkipped fs n).unopened = n.unopened ∧
    ∀ i location? d, n.inclusions[i]? = some (location?, d) →
      ∃ file?, (s.fillSkipped fs n).inclusions[i]? = some (location?, { d with file? := file? }) ∧
        (location? = none ∨ d.file?.isSome → file? = d.file?) ∧
        (∀ location, location? = some location → d.file? = none →
          (∀ file, EnteredFirst (SearchKey.ofDirective d ⟨location.file⟩) file
            (n.inclusions.take i) → file? = some file) ∧
          ((∀ file, ¬ EnteredFirst (SearchKey.ofDirective d ⟨location.file⟩) file
            (n.inclusions.take i)) →
            (d.keyword = .next →
              file? = s.resolveNext fs d.spelling d.angled ⟨location.file⟩) ∧
            (d.keyword ≠ .next →
              file? = s.resolve fs d.spelling d.angled (some ⟨location.file⟩)))) ∧
        ∀ (t : HeaderSearch) (gs : FileSystem),
          (∀ location, location? = some location →
            (d.keyword = .next → t.resolveNext gs d.spelling d.angled ⟨location.file⟩ =
              s.resolveNext fs d.spelling d.angled ⟨location.file⟩) ∧
            (d.keyword ≠ .next → t.resolve gs d.spelling d.angled (some ⟨location.file⟩) =
              s.resolve fs d.spelling d.angled (some ⟨location.file⟩))) →
          (t.fillSkipped gs n).inclusions[i]? = (s.fillSkipped fs n).inclusions[i]? := by
  refine ⟨s.unopened_fillSkipped fs n, ?_⟩
  intro i location? d hi
  have hfilled : ∀ (t : HeaderSearch) (gs : FileSystem), (t.fillSkipped gs n).inclusions[i]? =
      some (t.filled gs (n.inclusions.take i) (location?, d)) := by
    intro t gs
    rw [getElem?_inclusions_fillSkipped, hi, Option.map_some]
  refine ⟨(s.filled fs (n.inclusions.take i) (location?, d)).2.file?, hfilled s fs, ?_, ?_, ?_⟩
  · intro hsettled
    rw [filled_of_settled hsettled]
  · rintro location rfl hfile
    rw [filled_of_file?_eq_none location hfile]
    refine ⟨fun file hfirst => ?_, fun hnone => ?_⟩
    · rw [firstEntered?_eq_some_iff.2 hfirst]
      rfl
    · rw [firstEntered?_eq_none_iff.2 hnone, Option.none_or]
      exact ⟨fun hkeyword => ofDirective_of_next s fs hkeyword _,
        fun hkeyword => ofDirective_of_ne_next s fs hkeyword _⟩
  · intro t gs hsearch
    rw [hfilled, hfilled, filled_congr fun location hlocation =>
      ofDirective_eq_of_keyword (hsearch location hlocation).1 (hsearch location hlocation).2]

end HeaderSearch

/-! ## A sample

A header is entered, met again in the same directory, and searched for from another one and behind
the directory of a file.
-/
namespace Sample

def includedFiles : FileSystem where
  entries := [(["inc".toList], .directory), (["inc".toList, "a".toList], .directory),
    (["inc".toList, "a".toList, "x.h".toList], .file ""),
    (["inc".toList, "b".toList], .directory),
    (["inc".toList, "b".toList, "x.h".toList], .file "")]
  workingDirectory := []

def headers : HeaderSearch := .ofDirectories ⟨"/"⟩ [] [⟨"inc/a"⟩, ⟨"inc/b"⟩]

/-- The directive `#include "x.h"` on a line, and the file it opened. -/
def quotedX (file : String) (line : Nat) (file? : Option Path) (children : List Node) : Node :=
  ⟨.inclusion ⟨.plain, "x.h", false, file?⟩, some ⟨file, line⟩, children⟩

/-- The directive `#include_next <x.h>` on a line. -/
def nextX (file : String) (line : Nat) : Node :=
  ⟨.inclusion ⟨.next, "x.h", true, none⟩, some ⟨file, line⟩, []⟩

def skippingTree : Node :=
  ⟨.unit ⟨"src/m.c"⟩, none, [
    quotedX "src/m.c" 1 (some ⟨"inc/q/x.h"⟩) [
      ⟨.region ⟨"inc/q/x.h"⟩, none, [quotedX "inc/q/x.h" 1 none []]⟩],
    quotedX "src/m.c" 2 none [],
    ⟨.region ⟨"inc/a/x.h"⟩, none, [nextX "inc/a/x.h" 1]⟩]⟩

theorem inclusions_skippingTree : skippingTree.inclusions = [
    (some ⟨"src/m.c", 1⟩, ⟨.plain, "x.h", false, some ⟨"inc/q/x.h"⟩⟩),
    (some ⟨"inc/q/x.h", 1⟩, ⟨.plain, "x.h", false, none⟩),
    (some ⟨"src/m.c", 2⟩, ⟨.plain, "x.h", false, none⟩),
    (some ⟨"inc/a/x.h", 1⟩, ⟨.next, "x.h", true, none⟩)] := by
  rw [Node.inclusions, Node.preorder_eq_nodes]
  decide +kernel

end Sample

/-- The second directive stands in a directory of its own and gets what is found there, the third
one the file that was entered by its search, and the last one what is found behind the directory of
its file. -/
theorem HeaderSearch.fillSkipped_directives_sample :
    (Sample.headers.fillSkipped Sample.includedFiles Sample.skippingTree).inclusions[1]? =
      some (some ⟨"inc/q/x.h", 1⟩, ⟨.plain, "x.h", false, some ⟨"inc/a/x.h"⟩⟩) ∧
    (Sample.headers.fillSkipped Sample.includedFiles Sample.skippingTree).inclusions[2]? =
      some (some ⟨"src/m.c", 2⟩, ⟨.plain, "x.h", false, some ⟨"inc/q/x.h"⟩⟩) ∧
    (Sample.headers.fillSkipped Sample.includedFiles Sample.skippingTree).inclusions[3]? =
      some (some ⟨"inc/a/x.h", 1⟩, ⟨.next, "x.h", true, some ⟨"inc/b/x.h"⟩⟩) := by
  obtain ⟨_, h⟩ := fillSkipped_directives Sample.headers Sample.includedFiles Sample.skippingTree
  rw [Sample.inclusions_skippingTree] at h
  obtain ⟨searched?, hsearched, _, hsearch, _⟩ := h 1 _ _ rfl
  obtain ⟨entered?, hentered, _, hentry, _⟩ := h 2 _ _ rfl
  obtain ⟨behind?, hbehind, _, hnext, _⟩ := h 3 _ _ rfl
  have hfound : searched? = some ⟨"inc/a/x.h"⟩ := by
    rw [((hsearch _ rfl rfl).2 (firstEntered?_eq_none_iff.1 (by decide +kernel))).2 (by decide)]
    decide +kernel
  have hknown : entered? = some ⟨"inc/q/x.h"⟩ := by
    apply (hentry _ rfl rfl).1
    apply firstEntered?_eq_some_iff.1
    decide +kernel
  have hpassed : behind? = some ⟨"inc/b/x.h"⟩ := by
    rw [((hnext _ rfl rfl).2 (firstEntered?_eq_none_iff.1 (by decide +kernel))).1 rfl]
    decide +kernel
  rw [hsearched, hentered, hbehind, hfound, hknown, hpassed]
  exact ⟨rfl, rfl, rfl⟩

end IncludeAudit
