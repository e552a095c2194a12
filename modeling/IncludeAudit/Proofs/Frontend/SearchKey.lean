import IncludeAudit.Frontend.Skipped
import IncludeAudit.Proofs.HeaderSearch
import IncludeAudit.Proofs.Path.Holds

/-! # Searches with equal keys

A search key keeps of the including file at most the directory above it.  That is all a search looks
at (`resolve_quoted_congr`), for an `#include_next` as well, unless one of the directories is named
like the file itself (`behind?_congr_of_parent`).  So directives with equal keys are found the same
file (`ofDirective_congr`).  The spelling of the directory is not in the key and can only matter by
its length (`not_forall_ofDirective_eq`).
-/
namespace IncludeAudit

namespace HeaderSearch

variable {s : HeaderSearch} {fs : FileSystem} {header : String} {f g : Path}

/-- The path of a header in the directory above a file, as the system is asked for it. -/
def besideFile? (s : HeaderSearch) (header : String) (f : Path) : Option Path :=
  f.parent?.map fun dir => s.workingDir.join (dir.join ⟨header⟩)

theorem components_join_congr {d e : Path} (hde : d.components = e.components) (p : Path) :
    (d.join p).components = (e.join p).components := by
  cases hp : p.isAbsolute with
  | true => rw [Path.join_of_isAbsolute d hp, Path.join_of_isAbsolute e hp]
  | false => exact Path.components_join_congr_left hde hp

/-- A search for a quoted header depends on the directory of the file alone. -/
theorem resolve_quoted_congr (hdir : f.parent?.map Path.components = g.parent?.map Path.components)
    (hfits : ∀ p ∈ s.besideFile? header f, ∀ q ∈ s.besideFile? header g,
      (FileSystem.Fits p ↔ FileSystem.Fits q)) :
    (s.resolve fs header false (some f)).map Path.components =
      (s.resolve fs header false (some g)).map Path.components := by
  rw [besideFile?, besideFile?] at hfits
  rw [resolve, resolve, find?_eq, find?_eq, directories, directories, if_neg Bool.false_ne_true,
    if_neg Bool.false_ne_true, Option.bind_some, Option.bind_some]
  cases hf : f.parent? with
  | none =>
    rw [hf, Option.map_none] at hdir
    rw [Option.map_eq_none_iff.1 hdir.symm]
  | some d =>
    obtain ⟨e, hg, hed⟩ : ∃ e, g.parent? = some e ∧ e.components = d.components :=
      Option.map_eq_some_iff.1 (by rw [← hdir, hf, Option.map_some])
    rw [hf, hg] at hfits
    have hhas := has_congr fs hed.symm (hfits _ rfl _ rfl)
    rw [hg, Option.toList_some, Option.toList_some, List.append_assoc, List.append_assoc,
      List.singleton_append, List.singleton_append]
    -- either both directories have the header or the rest of the search is the same
    by_cases hd : has fs s.workingDir header d = true
    · rw [List.find?_cons_of_pos hd, List.find?_cons_of_pos (hhas ▸ hd), Option.map_some,
        Option.map_some, Option.map_some, Option.map_some, components_join_congr hed.symm]
    · rw [List.find?_cons_of_neg hd, List.find?_cons_of_neg (hhas ▸ hd)]

/-- Includers that lie in the same directories go on behind the same one. -/
theorem behind?_congr {dirs : List Path} (h : ∀ d ∈ dirs, d.holds f = d.holds g) :
    behind? f dirs = behind? g dirs := by
  induction dirs with
  | nil => rfl
  | cons d dirs ih =>
    obtain ⟨hd, hdirs⟩ := List.forall_mem_cons.1 h
    rw [behind?, behind?, ← Path.holds, ← Path.holds, hd, ih hdirs]

/-- Behind which directory a search goes on is seen from the directory of the file. -/
theorem behind?_congr_of_parent (hf : f.EndsInName) (hg : g.EndsInName)
    (hdir : f.parent?.map Path.components = g.parent?.map Path.components) {dirs : List Path}
    (hdirs : ∀ d ∈ dirs, d.normalize ≠ f.normalize ∧ d.normalize ≠ g.normalize) :
    behind? f dirs = behind? g dirs := by
  obtain ⟨p, m, hp, hfp⟩ := hf.exists_parent?
  obtain ⟨q, n, hq, hgq⟩ := hg.exists_parent?
  have hpq : p.components = q.components := by
    rw [hp, hq, Option.map_some, Option.map_some] at hdir
    exact Option.some.inj hdir
  refine behind?_congr fun d hd => ?_
  obtain ⟨hdf, hdg⟩ := hdirs d hd
  exact Path.holds_congr_of_parent hfp hgq hpq hdf hdg

theorem resolveNext_congr (hbehind : behind? f s.includePaths = behind? g s.includePaths)
    {angled : Bool} (hplain : (s.resolve fs header angled (some f)).map Path.components =
      (s.resolve fs header angled (some g)).map Path.components) :
    (s.resolveNext fs header angled f).map Path.components =
      (s.resolveNext fs header angled g).map Path.components := by
  rw [resolveNext, resolveNext, hbehind]
  cases behind? g s.includePaths with
  | some dirs => rfl
  | none => exact hplain

/-- A search whose key names a directory. -/
theorem parent?_congr_of_key {d e : Inclusion}
    (hkey : SearchKey.ofDirective d f = SearchKey.ofDirective e g)
    (h : d.angled = false ∨ d.keyword = .next) :
    f.parent?.map Path.components = g.parent?.map Path.components := by
  have hangled : d.angled = e.angled := congrArg SearchKey.angled hkey
  have hkeyword : d.keyword = e.keyword := congrArg SearchKey.keyword hkey
  have hdepends : (!d.angled || d.keyword = .next) = true := by
    rcases h with h | h
    · rw [h]
      rfl
    · rw [h]
      exact Bool.or_true _
  have hdir := congrArg SearchKey.includerDir? hkey
  simp only [SearchKey.ofDirective, ← hangled, ← hkeyword, hdepends, if_true] at hdir
  exact hdir

/-- **Searches with equal keys find the same file.**  For an `#include_next` the files have to be
files by name, and none of the directories may be named like one of them.  The headers beside the
two files must not be so that the path of just one of them is too long. -/
theorem ofDirective_congr (s : HeaderSearch) (fs : FileSystem) {d e : Inclusion} {f g : Path}
    (hkey : SearchKey.ofDirective d f = SearchKey.ofDirective e g)
    (hnext : d.keyword = .next → f.EndsInName ∧ g.EndsInName ∧
      ∀ dir ∈ s.includePaths, dir.normalize ≠ f.normalize ∧ dir.normalize ≠ g.normalize)
    (hfits : d.angled = false →
      ∀ p ∈ s.besideFile? d.spelling f, ∀ q ∈ s.besideFile? e.spelling g,
        (FileSystem.Fits p ↔ FileSystem.Fits q)) :
    (s.ofDirective fs d f).map Path.components = (s.ofDirective fs e g).map Path.components := by
  have hkeyword : d.keyword = e.keyword := congrArg SearchKey.keyword hkey
  have hangled : d.angled = e.angled := congrArg SearchKey.angled hkey
  have hspelling : d.spelling = e.spelling := congrArg SearchKey.spelling hkey
  rw [← hspelling] at hfits
  have hplain : (s.resolve fs d.spelling d.angled (some f)).map Path.components =
      (s.resolve fs d.spelling d.angled (some g)).map Path.components := by
    cases hd : d.angled with
    | true => rfl
    | false => exact resolve_quoted_congr (parent?_congr_of_key hkey (Or.inl hd)) (hfits hd)
  rw [HeaderSearch.ofDirective, HeaderSearch.ofDirective, ← hkeyword, ← hangled, ← hspelling]
  cases hd : d.keyword with
  | plain => exact hplain
  | once => exact hplain
  | next =>
    obtain ⟨hf, hg, hdirs⟩ := hnext hd
    have hdir := parent?_congr_of_key hkey (Or.inr hd)
    exact resolveNext_congr (behind?_congr_of_parent hf hg hdir hdirs) hplain

end HeaderSearch

/-! ## A sample

A directory with a header, of which there are spellings of any length.
-/
namespace Sample

def besideHeader : FileSystem where
  entries := [(["a".toList], .directory), (["a".toList, "b".toList], .directory),
    (["a".toList, "b".toList, "h.h".toList], .file "")]
  workingDirectory := []

/-- A spelling of `a/b` with some separators too many. -/
def stretched (n : Nat) : List Char := 'a' :: List.replicate n '/' ++ '/' :: ['b']

/-- A file in that directory. -/
def stretchedFile (n : Nat) (name : List Char) : Path := .ofChars (stretched n ++ '/' :: name)

/-- The directory of the file keeps all of its separators, which is what makes it long. -/
theorem parent?_stretchedFile (n : Nat) {name : List Char} {c : Component}
    (hname : Component.ofSegment? name = some c) (hslash : '/' ∉ name) :
    (stretchedFile n name).parent? = some (.ofChars (stretched n)) := by
  have hlast : (Component.segments (stretched n)).getLast? = some ['b'] := by
    rw [stretched, Component.segments_append_slash]
    exact List.getLast?_concat
  exact Path.parent?_append_slash hname hslash rfl hlast

theorem components_stretched (n : Nat) :
    (Path.ofChars (stretched n)).components = Path.components ⟨"a/b"⟩ := by
  rw [Path.components, Path.chars_ofChars, stretched, Component.ofChars_append_slash (by simp),
    show 'a' :: List.replicate n '/' = ['a'] ++ List.replicate n '/' from rfl,
    Path.ofChars_append_replicate (by simp)]
  decide +kernel

/-- The directive `#include "h.h"`, or one with another keyword. -/
def quotedH (keyword : Keyword) : Inclusion := ⟨keyword, "h.h", false, none⟩

theorem ofDirective_stretchedFile (keyword : Keyword) (n : Nat) {name : List Char} {c : Component}
    (hname : Component.ofSegment? name = some c) (hslash : '/' ∉ name) :
    SearchKey.ofDirective (quotedH keyword) (stretchedFile n name) =
      ⟨keyword, false, "h.h", some (Path.components ⟨"a/b"⟩)⟩ := by
  rw [SearchKey.ofDirective, parent?_stretchedFile n hname hslash, Option.map_some,
    components_stretched]
  rfl

def beside : HeaderSearch := .ofDirectories ⟨"."⟩ [] [⟨"inc"⟩]

theorem parent?_stretchedFile_header (n : Nat) :
    (stretchedFile n "x.c".toList).parent? = some (.ofChars (stretched n)) :=
  parent?_stretchedFile n rfl (by decide)

/-- The header is not found by a path that is too long. -/
theorem resolve_stretchedFile {n : Nat} (h : FileSystem.maxPath < n) :
    beside.resolve besideHeader "h.h" false (some (stretchedFile n "x.c".toList)) = none := by
  have hrel : Path.isAbsolute ⟨"h.h"⟩ = false := rfl
  have hlong : HeaderSearch.has besideHeader beside.workingDir "h.h" (.ofChars (stretched n)) =
      false := by
    refine HeaderSearch.has_eq_false_of_length _ _ hrel ?_
    have hchars : (Path.ofChars (stretched n)).chars.length = n + 3 := by
      simp [stretched]
    omega
  have hinc : HeaderSearch.has besideHeader beside.workingDir "h.h" ⟨"inc"⟩ = false := by
    decide +kernel
  rw [HeaderSearch.resolve, HeaderSearch.find?_eq, HeaderSearch.directories,
    if_neg Bool.false_ne_true, Option.bind_some, parent?_stretchedFile_header]
  show ([Path.ofChars (stretched n), ⟨"inc"⟩].find? _).map _ = none
  rw [List.find?_cons_of_neg (by simp [hlong]), List.find?_cons_of_neg (by simp [hinc])]
  rfl

end Sample

namespace HeaderSearch

/-- Two files of one directory that is written in two ways. -/
theorem ofDirective_congr_sample :
    SearchKey.ofDirective (Sample.quotedH .next) ⟨"a//b/x.c"⟩ =
      SearchKey.ofDirective (Sample.quotedH .next) ⟨"a/b/y.c"⟩ ∧
    (Sample.beside.ofDirective Sample.besideHeader (Sample.quotedH .next) ⟨"a//b/x.c"⟩).map
      Path.components = some (Path.components ⟨"a/b/h.h"⟩) := by
  have hkey : SearchKey.ofDirective (Sample.quotedH .next) ⟨"a//b/x.c"⟩ =
      SearchKey.ofDirective (Sample.quotedH .next) ⟨"a/b/y.c"⟩ := by decide +kernel
  have hdirs : ∀ dir ∈ Sample.beside.includePaths,
      dir.normalize ≠ Path.normalize ⟨"a//b/x.c"⟩ ∧ dir.normalize ≠ Path.normalize ⟨"a/b/y.c"⟩ := by
    decide +kernel
  have hfits : ∀ p ∈ Sample.beside.besideFile? "h.h" ⟨"a//b/x.c"⟩,
      ∀ q ∈ Sample.beside.besideFile? "h.h" ⟨"a/b/y.c"⟩,
        (FileSystem.Fits p ↔ FileSystem.Fits q) := by
    decide +kernel
  have hnext : Path.EndsInName ⟨"a//b/x.c"⟩ ∧ Path.EndsInName ⟨"a/b/y.c"⟩ ∧ _ :=
    ⟨⟨"x.c".toList, by decide +kernel⟩, ⟨"y.c".toList, by decide +kernel⟩, hdirs⟩
  refine ⟨hkey, ?_⟩
  rw [ofDirective_congr Sample.beside Sample.besideHeader hkey (fun _ => hnext) fun _ => hfits]
  decide +kernel

/-- One of two spellings of a directory can be too long. -/
theorem not_forall_ofDirective_eq :
    ¬ ∀ (s : HeaderSearch) (fs : FileSystem) (d e : Inclusion) (f g : Path),
      SearchKey.ofDirective d f = SearchKey.ofDirective e g →
      (d.keyword = .next → f.EndsInName ∧ g.EndsInName ∧
        ∀ dir ∈ s.includePaths, dir.normalize ≠ f.normalize ∧ dir.normalize ≠ g.normalize) →
      (s.ofDirective fs d f).map Path.components =
        (s.ofDirective fs e g).map Path.components := by
  intro h
  have hname : Component.ofSegment? "x.c".toList = some (.name "x.c".toList) := rfl
  have hslash : '/' ∉ "x.c".toList := by decide
  have hkey : SearchKey.ofDirective (Sample.quotedH .plain) (Sample.stretchedFile 4096 "x.c".toList) =
      SearchKey.ofDirective (Sample.quotedH .plain) (Sample.stretchedFile 0 "x.c".toList) := by
    rw [Sample.ofDirective_stretchedFile .plain _ hname hslash,
      Sample.ofDirective_stretchedFile .plain _ hname hslash]
  have hlong : Sample.beside.ofDirective Sample.besideHeader (Sample.quotedH .plain)
      (Sample.stretchedFile 4096 "x.c".toList) = none :=
    Sample.resolve_stretchedFile (by decide)
  have hshort : Sample.beside.ofDirective Sample.besideHeader (Sample.quotedH .plain)
      (Sample.stretchedFile 0 "x.c".toList) = some ⟨"a/b/h.h"⟩ := by
    decide +kernel
  have hequal := h Sample.beside Sample.besideHeader _ _ _ _ hkey nofun
  rw [hlong, hshort] at hequal
  cases hequal

end HeaderSearch

end IncludeAudit
