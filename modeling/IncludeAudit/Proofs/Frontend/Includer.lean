import IncludeAudit.Frontend.Skipped
import IncludeAudit.Proofs.Preprocessed.Nesting

/-! # The file that a directive is searched from

A quoted directive is first searched for in the directory of its file, and an `#include_next` behind
the directory that holds its file.  Filling in takes that file from the location of the directive;
`fillIn` takes it from the tree, as the file nearest around the directive.  Where everything is
located in the file that it lies in, there is no difference (`fill_eq_fillIn`), and so there is none
on text whose markers keep to the nesting of its files.
-/
namespace IncludeAudit

namespace HeaderSearch

open Preprocessed (HoldsLocated SitsIn StandsForLine)

variable (s : HeaderSearch) (fs : FileSystem)

mutual

/-- Fills in the files of a tree as `fill` does, but searches for each directive from the file
nearest around it, whichever file its location names. -/
def fillIn (around : Path) (entered : EnteredFiles) : Node → Node × EnteredFiles
  | ⟨kind, location?, children⟩ =>
    let place? := location?.map fun l => { l with file := around.text }
    let (filled, entered) := s.fillKind fs entered kind place?
    let (children, entered) := fillAllIn (kind.contents?.getD around) entered children
    (⟨filled, location?, children⟩, entered)

/-- Fills in the files of some trees with a file around them, one after the other. -/
def fillAllIn (around : Path) (entered : EnteredFiles) : List Node → List Node × EnteredFiles
  | [] => ([], entered)
  | n :: rest =>
    let (n, entered) := fillIn around entered n
    let (rest, entered) := fillAllIn around entered rest
    (n :: rest, entered)

end

/-- A node that is located in a file is filled in as in that file. -/
theorem fillKind_eq_of_sitsIn {around : Path} (entered : EnteredFiles) {kind : NodeKind}
    {location? : Option Location} {children : List Node}
    (h : SitsIn around ⟨kind, location?, children⟩) :
    s.fillKind fs entered kind location? =
      s.fillKind fs entered kind (location?.map fun l => { l with file := around.text }) := by
  cases kind with
  | inclusion d =>
    cases location? with
    | none => rfl
    | some l =>
      have hfile : l.file = around.text := (h.own (.inl ⟨d, rfl⟩)).located l rfl
      rw [Option.map_some, ← hfile]
  | unit path => rfl
  | region path => rfl
  | define name => rfl

/-- What is below a node sits in the file of that node, or in the one around if it has none. -/
theorem sitsIn_of_mem_children {around : Path} {kind : NodeKind} {location? : Option Location}
    {children : List Node} (h : SitsIn around ⟨kind, location?, children⟩) :
    ∀ c ∈ children, SitsIn (kind.contents?.getD around) c := by
  intro c hc
  refine ⟨fun hw => ?_, fun m hm => h.below m (.child hc hm)⟩
  obtain ⟨file, hfile, hlocated⟩ := h.below _ .self c hc hw
  rwa [show kind.contents? = some file from hfile]

mutual

/-- Where locations agree with the nesting, the includer that is taken from the location of a
directive is the file in which it lies. -/
theorem fill_eq_fillIn (around : Path) (entered : EnteredFiles) : (n : Node) → SitsIn around n →
    s.fill fs entered n = s.fillIn fs around entered n
  | ⟨kind, location?, children⟩, h => by
    have hkind := s.fillKind_eq_of_sitsIn fs entered h
    have hchildren := fillAll_eq_fillAllIn (kind.contents?.getD around)
      (s.fillKind fs entered kind location?).2 children (sitsIn_of_mem_children h)
    simp only [fill, fillIn, ← hkind, hchildren]

/-- The same for some trees in one file. -/
theorem fillAll_eq_fillAllIn (around : Path) (entered : EnteredFiles) : (ns : List Node) →
    (∀ n ∈ ns, SitsIn around n) → s.fillAll fs entered ns = s.fillAllIn fs around entered ns
  | [], _ => rfl
  | n :: ns, h => by
    have hn := fill_eq_fillIn around entered n (h n (List.mem_cons_self ..))
    have hns := fillAll_eq_fillAllIn around (s.fill fs entered n).2 ns
      fun m hm => h m (List.mem_cons_of_mem n hm)
    simp only [fillAll, fillAllIn, ← hn, hns]

end

end HeaderSearch

namespace TranslationUnit

open Preprocessed

/-- **Locations agree with nesting.**  On text whose markers keep to the nesting of its files,
whatever stands for a line lies directly in the main file or in an entered one.  Its location names
the file that it lies in, and if it has none, that file is no real one.  So filling in searches for
each directive from the file that contains it. -/
theorem located_ofPreprocessed (output : String) (mainFile : Path)
    (h : KeepsNesting mainFile ((Text.lines output.toList).map Line.classify)) :
    (ofPreprocessed output mainFile).root.kind = .unit mainFile ∧
    (∀ n : Node, n.Within (ofPreprocessed output mainFile).root →
      ∀ c ∈ n.children, StandsForLine c →
        (n = (ofPreprocessed output mainFile).root ∨ ∃ file, n.kind = .region file) ∧
        (∀ l, c.location? = some l → l.file = n.path.text) ∧
        (c.location? = none → isPseudoFile n.path.text = true)) ∧
    ∀ (s : HeaderSearch) (fs : FileSystem),
      s.fillSkipped fs (ofPreprocessed output mainFile).root =
        (s.fillIn fs mainFile [] (ofPreprocessed output mainFile).root).1 := by
  have hsound := (Builder.Sound.start mainFile).foldl_feed
    ((Text.lines output.toList).map Line.classify)
  have hshaped : Shaped mainFile (ofPreprocessed output mainFile).root := hsound.shaped_finish
  have hlocated : ∀ m : Node, m.Within (ofPreprocessed output mainFile).root → HoldsLocated m :=
    Builder.holdsLocated_finish h
  refine ⟨hshaped.kind, ?_, ?_⟩
  · intro n hn c hc hw
    obtain ⟨file, hfile, hin⟩ := hlocated n hn c hc hw
    rw [Node.path_of_contents? hfile]
    refine ⟨?_, hin.located, hin.pseudo⟩
    cases hn with
    | self => exact .inl rfl
    | child hd hn => exact .inr ((hshaped.below _ hd n hn).parent c hc hw)
  · intro s fs
    have hroot : SitsIn mainFile (ofPreprocessed output mainFile).root := by
      refine ⟨fun hw => ?_, hlocated⟩
      rcases hw with ⟨_, hkind⟩ | ⟨_, hkind⟩ <;> cases hshaped.kind.symm.trans hkind
    exact congrArg Prod.fst (s.fill_eq_fillIn fs mainFile [] _ hroot)

end TranslationUnit

/-! ## A sample

A macro definition comes from no file, and a header in a directory of its own asks for another one.
-/
namespace Sample

open Preprocessed

def nestedText : String :=
  "# 1 \"src/m.c\"\n# 1 \"<built-in>\" 1\n#define M 1\n# 1 \"src/m.c\" 2\n#include \"d/a.h\"\n" ++
    "# 1 \"src/d/a.h\" 1\n#include \"b.h\"\n# 2 \"src/d/a.h\"\n# 2 \"src/m.c\" 2\n"

def builtIn : Node := ⟨.region ⟨"<built-in>"⟩, none, [⟨.define "M", none, []⟩]⟩

def header : Node :=
  ⟨.region ⟨"src/d/a.h"⟩, none,
    [⟨.inclusion ⟨.plain, "b.h", false, none⟩, some ⟨"src/d/a.h", 1⟩, []⟩]⟩

def nestedRoot : Node :=
  ⟨.unit ⟨"src/m.c"⟩, none, [builtIn,
    ⟨.inclusion ⟨.plain, "d/a.h", false, some ⟨"src/d/a.h"⟩⟩, some ⟨"src/m.c", 1⟩, [header]⟩]⟩

theorem classify_nestedText : (Text.lines nestedText.toList).map Line.classify =
    [.marker 1 "src/m.c" false false, .marker 1 "<built-in>" true false, .define "M",
      .marker 1 "src/m.c" false true, .inclusion .plain "d/a.h" false,
      .marker 1 "src/d/a.h" true false, .inclusion .plain "b.h" false,
      .marker 2 "src/d/a.h" false false, .marker 2 "src/m.c" false true] := by
  decide +kernel

theorem root_nestedText :
    (TranslationUnit.ofPreprocessed nestedText ⟨"src/m.c"⟩).root = nestedRoot := by
  rw [TranslationUnit.ofPreprocessed, classify_nestedText]
  rfl

theorem within_nestedRoot : builtIn.Within nestedRoot ∧ header.Within nestedRoot :=
  ⟨.child (List.mem_cons_self ..) .self,
    .child (List.mem_cons_of_mem _ (List.mem_cons_self ..)) (.child (List.mem_cons_self ..) .self)⟩

end Sample

open Preprocessed in
theorem TranslationUnit.located_ofPreprocessed_sample :
    KeepsNesting ⟨"src/m.c"⟩ ((Text.lines Sample.nestedText.toList).map Line.classify) ∧
    (∀ c ∈ Sample.header.children, StandsForLine c →
      ∀ l, c.location? = some l → l.file = "src/d/a.h") ∧
    (∀ c ∈ Sample.builtIn.children, StandsForLine c →
      c.location? = none → isPseudoFile "<built-in>" = true) ∧
    ∀ (s : HeaderSearch) (fs : FileSystem),
      s.fillSkipped fs Sample.nestedRoot =
        (s.fillIn fs ⟨"src/m.c"⟩ [] Sample.nestedRoot).1 := by
  have h : KeepsNesting ⟨"src/m.c"⟩
      ((Text.lines Sample.nestedText.toList).map Line.classify) := by
    rw [Sample.classify_nestedText]
    decide +kernel
  obtain ⟨_, hlocated, hfill⟩ := located_ofPreprocessed Sample.nestedText ⟨"src/m.c"⟩ h
  rw [Sample.root_nestedText] at hlocated hfill
  obtain ⟨hbuiltIn, hheader⟩ := Sample.within_nestedRoot
  exact ⟨h, fun c hc hw => (hlocated _ hheader c hc hw).2.1,
    fun c hc hw => (hlocated _ hbuiltIn c hc hw).2.2, hfill⟩

end IncludeAudit
