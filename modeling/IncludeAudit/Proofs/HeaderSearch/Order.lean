import IncludeAudit.Proofs.HeaderSearch.Next

/-! # The order of the search

The file of a directive lies in the first directory that has it (`IsFirst`), in the order in which
the directories are given: for a quoted directive that of the including file, those for quoted
directives only, and the others; for an angled one the others alone.  It makes no difference that
each list has lost its repetitions, for a directory that has the header has it in every spelling
(`resolve_ofDirectories`).  The one exception is a directory whose first spelling makes too long a
path: it is not searched again in the spelling that would do (`not_forall_isFirst_resolve`).
-/
namespace IncludeAudit

namespace HeaderSearch

/-- What a search through some directories has to find: the path of the header in the first of them
that has it, and nothing just if none has it. -/
structure IsFirst (fs : FileSystem) (workingDir : Path) (header : String) (dirs : List Path)
    (found? : Option Path) : Prop where
  eq_some_iff : ∀ p, found? = some p ↔
    ∃ before d after, dirs = before ++ d :: after ∧ p = d.join ⟨header⟩ ∧
      fs.isFile (workingDir.join p) = true ∧
      ∀ b ∈ before, fs.isFile (workingDir.join (b.join ⟨header⟩)) = false
  eq_none_iff : found? = none ↔ ∀ d ∈ dirs, fs.isFile (workingDir.join (d.join ⟨header⟩)) = false

theorem isFirst_find? (s : HeaderSearch) (fs : FileSystem) (dirs : List Path) (header : String) :
    IsFirst fs s.workingDir header dirs (s.find? fs dirs header) where
  eq_some_iff p := by
    rw [find?_eq, Option.map_eq_some_iff]
    constructor
    · rintro ⟨d, hd, rfl⟩
      obtain ⟨hhas, before, after, rfl, hbefore⟩ := List.find?_eq_some_iff_append.1 hd
      refine ⟨before, d, after, rfl, rfl, hhas, fun b hb => ?_⟩
      exact Bool.not_eq_eq_eq_not.1 (hbefore b hb)
    · rintro ⟨before, d, after, rfl, rfl, hfile, hbefore⟩
      refine ⟨d, List.find?_eq_some_iff_append.2 ⟨hfile, before, after, rfl, fun b hb => ?_⟩, rfl⟩
      exact Bool.not_eq_eq_eq_not.2 (hbefore b hb)
  eq_none_iff := by
    rw [find?_eq, Option.map_eq_none_iff, List.find?_eq_none]
    exact forall₂_congr fun d _ => Bool.not_eq_true _ ▸ Iff.rfl

/-- **A search finds the first file in the order of the directories.**  That holds for the
directories without repetitions, and it holds for all of them as they are given, unless a directory
makes too long a path and is repeated in a spelling that makes one short enough. -/
theorem resolve_ofDirectories (fs : FileSystem) (workingDir : Path)
    (quotePaths includePaths : List Path) (header : String) (angled : Bool)
    (includer? : Option Path) :
    IsFirst fs workingDir header
        (if angled then distinct includePaths
          else (includer?.bind Path.parent?).toList ++ distinct quotePaths ++ distinct includePaths)
        ((ofDirectories workingDir quotePaths includePaths).resolve fs header angled includer?) ∧
      ((angled = false → FirstSpellingsFit workingDir header quotePaths) →
        FirstSpellingsFit workingDir header includePaths →
        IsFirst fs workingDir header
            (if angled then includePaths
              else (includer?.bind Path.parent?).toList ++ quotePaths ++ includePaths)
            ((ofDirectories workingDir quotePaths includePaths).resolve fs header angled includer?) ∧
          (ofDirectories workingDir quotePaths includePaths).resolve fs header angled includer? =
            (HeaderSearch.mk workingDir quotePaths includePaths).resolve fs header angled
              includer?) := by
  refine ⟨isFirst_find? (ofDirectories workingDir quotePaths includePaths) fs _ header, ?_⟩
  intro hquotes hincludes
  have hgiven := isFirst_find? (.mk workingDir quotePaths includePaths) fs
    ((HeaderSearch.mk workingDir quotePaths includePaths).directories angled includer?) header
  have hresolve : (ofDirectories workingDir quotePaths includePaths).resolve fs header angled
      includer? = (HeaderSearch.mk workingDir quotePaths includePaths).resolve fs header angled
        includer? := by
    rw [resolve, resolve, find?_eq, find?_eq]
    exact congrArg _ (find?_directories_ofDirectories fs hquotes hincludes includer?)
  refine ⟨?_, hresolve⟩
  rw [hresolve]
  exact hgiven

end HeaderSearch

/-! ## A sample -/

/-- The short spelling is left out, and the long one finds nothing. -/
theorem Sample.resolve_slashed {n : Nat} (h : FileSystem.maxPath < n) :
    (HeaderSearch.ofDirectories ⟨"."⟩ [] [⟨slashed n⟩, ⟨"inc"⟩]).resolve twoCopies "x.h" true none =
      none := by
  have hlong : HeaderSearch.has twoCopies ⟨"."⟩ "x.h" ⟨slashed n⟩ = false := by
    refine HeaderSearch.has_eq_false_of_length _ _ rfl ?_
    rw [chars_slashed, List.length_append, List.length_replicate]
    omega
  have hsame : Path.same ⟨slashed n⟩ ⟨"inc"⟩ = true := decide_eq_true components_slashed
  have hdistinct : HeaderSearch.distinct [⟨slashed n⟩, ⟨"inc"⟩] = [⟨slashed n⟩] := by
    simp [HeaderSearch.distinct, hsame]
  rw [HeaderSearch.resolve, HeaderSearch.find?_eq, HeaderSearch.directories, if_pos rfl,
    HeaderSearch.ofDirectories, hdistinct, List.find?_cons_of_neg (by simp [hlong])]
  rfl

namespace HeaderSearch

/-- Another spelling of a directory does not count, and neither does the directory of a file without
the header. -/
theorem resolve_ofDirectories_sample :
    FirstSpellingsFit ⟨"."⟩ "x.h" [⟨"q"⟩, ⟨"b"⟩, ⟨"q/"⟩] ∧
      FirstSpellingsFit ⟨"."⟩ "x.h" [⟨"inc//"⟩, ⟨"inc"⟩] ∧
      (ofDirectories ⟨"."⟩ [⟨"q"⟩, ⟨"b"⟩, ⟨"q/"⟩] [⟨"inc//"⟩, ⟨"inc"⟩]).resolve Sample.twoCopies "x.h"
        false (some ⟨"src/a.c"⟩) = some ⟨"b/x.h"⟩ ∧
      IsFirst Sample.twoCopies ⟨"."⟩ "x.h"
        [⟨"src"⟩, ⟨"q"⟩, ⟨"b"⟩, ⟨"q/"⟩, ⟨"inc//"⟩, ⟨"inc"⟩] (some ⟨"b/x.h"⟩) := by
  have hquotes : FirstSpellingsFit ⟨"."⟩ "x.h" [⟨"q"⟩, ⟨"b"⟩, ⟨"q/"⟩] := by decide +kernel
  have hincludes : FirstSpellingsFit ⟨"."⟩ "x.h" [⟨"inc//"⟩, ⟨"inc"⟩] := by decide +kernel
  have hfound : (ofDirectories ⟨"."⟩ [⟨"q"⟩, ⟨"b"⟩, ⟨"q/"⟩] [⟨"inc//"⟩, ⟨"inc"⟩]).resolve
      Sample.twoCopies "x.h" false (some ⟨"src/a.c"⟩) = some ⟨"b/x.h"⟩ := by decide +kernel
  have hparent : (Option.bind (some ⟨"src/a.c"⟩) Path.parent?) = some ⟨"src"⟩ := by decide +kernel
  have h := ((resolve_ofDirectories Sample.twoCopies ⟨"."⟩ _ _ "x.h" false (some ⟨"src/a.c"⟩)).2
    (fun _ => hquotes) hincludes).1
  rw [hfound, hparent] at h
  exact ⟨hquotes, hincludes, hfound, h⟩

/-- A directory can be left out in favour of a spelling that is too long. -/
theorem not_forall_isFirst_resolve :
    ¬ ∀ (fs : FileSystem) (workingDir : Path) (quotePaths includePaths : List Path)
      (header : String) (angled : Bool) (includer? : Option Path),
      IsFirst fs workingDir header
        (if angled then includePaths
          else (includer?.bind Path.parent?).toList ++ quotePaths ++ includePaths)
        ((ofDirectories workingDir quotePaths includePaths).resolve fs header angled includer?) := by
  intro h
  have hinc : Sample.twoCopies.isFile (Path.join ⟨"."⟩ (Path.join ⟨"inc"⟩ ⟨"x.h"⟩)) = true := by
    decide +kernel
  have hfirst := h Sample.twoCopies ⟨"."⟩ [] [⟨Sample.slashed 4096⟩, ⟨"inc"⟩] "x.h" true none
  have hno := hfirst.eq_none_iff.1 (Sample.resolve_slashed (by decide)) ⟨"inc"⟩
    (List.mem_cons_of_mem _ (List.mem_singleton_self _))
  rw [hinc] at hno
  cases hno

end HeaderSearch

end IncludeAudit
