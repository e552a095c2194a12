import IncludeAudit.Frontend.Clang
import IncludeAudit.Proofs.Attribution
import IncludeAudit.Proofs.Command.Arguments
import IncludeAudit.Proofs.Frontend.Skipped
import IncludeAudit.Proofs.HeaderSearch

/-! # Which directory a skipped directive counts for

The compiler's output names no file for a directive that it skips (`IsSkipped`).  The file is then
searched for in the directories of the arguments, and the directory that is told from its path is
the one in which the search found it (`attributions_of_isSkipped`).  The search leaves out repeated
directories, which can only matter where a path is too long for the system
(`not_forall_attributions_eq`).
-/
namespace IncludeAudit

/-- The `i`-th directive of a tree, which stands in a file, is skipped: no file is named for it, and
no directive of a file before it was entered by the same search.  Only an `#include` or `#import` of
a relative text is looked at. -/
structure IsSkipped (u : TranslationUnit) (i : Nat) (location : Location) (d : Inclusion) :
    Prop where
  getElem? : u.inclusions[i]? = some (some location, d)
  file? : d.file? = none
  keyword : d.keyword ≠ .next
  relative : Path.isAbsolute ⟨d.spelling⟩ = false
  first : ∀ j < i, ∀ l e, u.inclusions[j]? = some (some l, e) → e.file?.isSome →
    SearchKey.ofDirective e ⟨l.file⟩ ≠ SearchKey.ofDirective d ⟨location.file⟩

namespace IsSkipped

variable {u : TranslationUnit} {i : Nat} {location : Location} {d : Inclusion}

/-- No file is known for the search of a skipped directive. -/
theorem firstEntered?_eq_none (h : IsSkipped u i location d) :
    HeaderSearch.firstEntered? (SearchKey.ofDirective d ⟨location.file⟩) (u.inclusions.take i) =
      none := by
  rw [HeaderSearch.firstEntered?, List.findSome?_eq_none_iff]
  rintro ⟨_ | l, e⟩ hx
  · rfl
  · obtain ⟨j, hj⟩ := List.mem_iff_getElem?.1 hx
    rw [List.getElem?_take] at hj
    split at hj
    · rename_i hlt
      rw [HeaderSearch.enteredFile?]
      split
      · rename_i hkey
        cases hfile : e.file? with
        | none => rfl
        | some file => exact absurd hkey (h.first j hlt l e hj (by rw [hfile]; rfl))
      · rfl
    · cases hj

/-- A skipped directive gets its file from the first directory that has it. -/
theorem filled_eq (h : IsSkipped u i location d) {s : HeaderSearch} {fs : FileSystem}
    {dir? : Option Path} (hdir : (s.directories d.angled (some ⟨location.file⟩)).find?
      (HeaderSearch.has fs s.workingDir d.spelling) = dir?) :
    s.filled fs (u.inclusions.take i) (some location, d) =
      (some location, { d with file? := dir?.map fun dir => dir.join ⟨d.spelling⟩ }) := by
  rw [HeaderSearch.filled, h.file?, Option.none_or, Option.bind_some, h.firstEntered?_eq_none,
    Option.none_or, s.ofDirective_of_ne_next fs h.keyword, HeaderSearch.resolve,
    HeaderSearch.find?_eq, hdir]

/-- In the filled tree it counts for that directory. -/
theorem getElem?_attributions (h : IsSkipped u i location d) {s : HeaderSearch} {fs : FileSystem}
    {dir? : Option Path} (hdir : (s.directories d.angled (some ⟨location.file⟩)).find?
      (HeaderSearch.has fs s.workingDir d.spelling) = dir?) (diagnostics : List String) :
    (Overlay.empty.attributions ⟨s.fillSkipped fs u.root, diagnostics⟩)[i]? =
      some (.ofDirectory? dir?) := by
  have hfilled : (s.fillSkipped fs u.root).inclusions[i]? =
      some (s.filled fs (u.inclusions.take i) (some location, d)) := by
    rw [HeaderSearch.getElem?_inclusions_fillSkipped, ← TranslationUnit.inclusions, h.getElem?]
    rfl
  rw [Overlay.attributions, List.getElem?_map, TranslationUnit.inclusions, hfilled,
    h.filled_eq hdir, Option.map_some]
  exact congrArg some (Overlay.attributionOf_of_join h.relative rfl fun _ _ =>
    Overlay.resolve_empty ..)

end IsSkipped

namespace Clang

/-- What the compiler put out for a request, as a tree. -/
def preprocessed (r : ParseRequest) (output : ProcessOutput) : TranslationUnit :=
  .ofPreprocessed (String.ofList (Text.decodeLossy output.stdout)) ⟨r.filename⟩

/-- The directories in which some arguments have a directive of a file searched: that of the file,
the `-iquote` ones and the `-I` ones, as `choose` leaves them, and for an angled directive the last
ones only. -/
def searched (choose : List Path → List Path) (args : List String) (angled : Bool)
    (includer : Path) : List Path :=
  (if angled then []
    else includer.parent?.toList ++ choose ((quoteDirectories args).map (⟨·⟩))) ++
    choose ((includeDirectories args).map (⟨·⟩))

/-- The directories of a command are its own ones, and for quotes the directory of the includer
comes first. -/
theorem directories_headerSearch (directory : Path) (args : List String) (angled : Bool)
    (includer : Path) :
    (headerSearch directory args).directories angled (some includer) =
      searched HeaderSearch.distinct args angled includer := by
  cases angled <;> rfl

/-- If every candidate is short enough to be a file, then repeated directories do not change what is
found. -/
theorem find?_searched_distinct (fs : FileSystem) (workingDir : Path) {header : String}
    (hrel : Path.isAbsolute ⟨header⟩ = false) {args : List String} {angled : Bool} {includer : Path}
    (hfits : ∀ d ∈ searched id args angled includer,
      FileSystem.Fits (workingDir.join (d.join ⟨header⟩))) :
    (searched HeaderSearch.distinct args angled includer).find?
        (HeaderSearch.has fs workingDir header) =
      (searched id args angled includer).find? (HeaderSearch.has fs workingDir header) := by
  simp only [searched, id_eq] at hfits ⊢
  have hincludes := HeaderSearch.find?_has_distinct fs workingDir hrel
    fun d hd => hfits d (List.mem_append_right _ hd)
  rw [List.find?_append, List.find?_append, hincludes]
  -- each list of arguments loses its own repetitions only
  cases angled with
  | true => rfl
  | false =>
    have hquotes := HeaderSearch.find?_has_distinct fs workingDir hrel
      fun d hd => hfits d (List.mem_append_left _ (List.mem_append_right _ hd))
    rw [if_neg Bool.false_ne_true, if_neg Bool.false_ne_true, List.find?_append,
      List.find?_append, hquotes]

variable {c : Clang} {m : Machine} {r : ParseRequest} {output : ProcessOutput}

/-- The tree of a recorded run, in which the skipped directives have their files. -/
def filledUnit (m : Machine) (r : ParseRequest) (output : ProcessOutput) : TranslationUnit :=
  ⟨(headerSearch r.directory r.arguments).fillSkipped m.files (preprocessed r output).root,
    diagnostics output.stderr⟩

/-- A run that leaves a record gives the tree of that, and its skipped directives have their files
filled in. -/
theorem parse_eq_ok (hrun : m.run c.path (some r.directory) (c.arguments r) = .ok output)
    (hrecord : r.record = true) : c.parse m r = .ok (filledUnit m r output) := by
  simp only [parse, hrun, hrecord, if_true]
  rfl

/-- What is attributed to a skipped directive is where the search finds its header. -/
theorem getElem?_attributions_filledUnit {i : Nat} {location : Location} {d : Inclusion}
    (h : IsSkipped (preprocessed r output) i location d) {dir? : Option Path}
    (hdir : (searched HeaderSearch.distinct r.arguments d.angled ⟨location.file⟩).find?
      (HeaderSearch.has m.files r.directory d.spelling) = dir?) :
    (Overlay.empty.attributions (filledUnit m r output))[i]? = some (.ofDirectory? dir?) := by
  refine h.getElem?_attributions ?_ (diagnostics output.stderr)
  rw [directories_headerSearch]
  exact hdir

/-- **A skipped directive counts for the directory that its search finds.**  A run that is recorded
gives the directives of the compiler's output but for their files, and each skipped one of them
counts for the first of the searched directories that has its header, if that is relative.  As long
as no path is too long, repeated directories may as well be kept. -/
theorem attributions_of_isSkipped
    (hrun : m.run c.path (some r.directory) (c.arguments r) = .ok output)
    (hrecord : r.record = true) :
    ∃ u, c.parse m r = .ok u ∧
      u.inclusions.map (fun x => (x.1, x.2.unopened)) =
        (preprocessed r output).inclusions.map (fun x => (x.1, x.2.unopened)) ∧
      ∀ i location d, IsSkipped (preprocessed r output) i location d →
        (Overlay.empty.attributions u)[i]? =
          some (.ofDirectory? ((searched HeaderSearch.distinct r.arguments d.angled
            ⟨location.file⟩).find? (HeaderSearch.has m.files r.directory d.spelling))) ∧
        ((∀ dir ∈ searched id r.arguments d.angled ⟨location.file⟩,
            FileSystem.Fits (r.directory.join (dir.join ⟨d.spelling⟩))) →
          (Overlay.empty.attributions u)[i]? =
            some (.ofDirectory? ((searched id r.arguments d.angled
              ⟨location.file⟩).find? (HeaderSearch.has m.files r.directory d.spelling)))) := by
  refine ⟨_, parse_eq_ok hrun hrecord,
    HeaderSearch.map_unopened_inclusions_fillSkipped .., fun i location d h => ?_⟩
  refine ⟨getElem?_attributions_filledUnit h rfl, fun hfits => ?_⟩
  exact getElem?_attributions_filledUnit h
    (find?_searched_distinct m.files r.directory h.relative hfits)

end Clang

/-! ## A sample

A compiler enters one header and skips two directives for another one, which lies both in `inc` and
in `q`.
-/
namespace Sample

def outputText : String :=
  "# 1 \"m.c\"\n#include <b.h>\n# 1 \"inc/b.h\" 1\n# 2 \"m.c\" 2\n" ++
    "#include <a.h>\n#include \"a.h\"\n"

def output : ProcessOutput := { stdout := outputText.toList.map fun c => c.toNat.toUInt8 }

def machine : Machine where
  files := ⟨[(["w".toList], .directory), (["w".toList, "inc".toList], .directory),
    (["w".toList, "inc".toList, "a.h".toList], .file ""),
    (["w".toList, "inc".toList, "b.h".toList], .file ""), (["w".toList, "q".toList], .directory),
    (["w".toList, "q".toList, "a.h".toList], .file ""), (["cc".toList], .file "")], ["w".toList]⟩
  searchPath := []
  executable? names := if names = ["cc".toList] then some fun _ _ => output else none

def clang : Clang := ⟨⟨"/cc"⟩, []⟩

def request (args : List String) : ParseRequest := ⟨⟨"."⟩, "m.c", args, true, true⟩

theorem run_eq {args : List String} (h : args.any Machine.holdsNul = false) :
    machine.run clang.path (some (request args).directory) (clang.arguments (request args)) =
      .ok output := by
  have hnul : (Machine.holdsNul clang.path.text ||
      ((some (request args).directory).any fun d => Machine.holdsNul d.text) ||
      (clang.arguments (request args)).any Machine.holdsNul) = false := by
    simp only [Clang.arguments, request, clang, List.any_append, List.any_cons, h, List.any_nil]
    rfl
  have hdirectory : machine.runDirectory (some (request args).directory) = .ok ["w".toList] := by
    have hlocate : machine.files.locate ⟨"."⟩ = .ok (["w".toList], .directory) := by
      rw [FileSystem.locate_eq_follow rfl (by decide) (by decide) rfl,
        show Path.components ⟨"."⟩ = [.here] from rfl]
      rfl
    rw [Machine.runDirectory, request, hlocate]
  have hprogram : machine.program ["w".toList] clang.path = .ok fun _ _ => output := by
    have hpath : (clang.path.chars.isEmpty || clang.path.chars.contains '/') = true :=
      rfl
    have hlocate : ({ machine.files with workingDirectory := ["w".toList] } : FileSystem).locate
        clang.path = .ok (["cc".toList], .file "") := by
      rw [FileSystem.locate_eq_follow rfl (by decide) (by decide) rfl,
        show clang.path.components = [.root, .name "cc".toList] from rfl]
      rfl
    rw [Machine.program, if_pos hpath, Machine.programAt, hlocate]
    rfl
  rw [Machine.run, hnul, if_neg Bool.false_ne_true, hdirectory]
  show (do
    let program ← machine.program ["w".toList] clang.path
    pure (program ["w".toList] (clang.arguments (request args)))) = _
  rw [hprogram]
  rfl

theorem inclusions_output (args : List String) :
    (Clang.preprocessed (request args) output).inclusions =
      [(some ⟨"m.c", 1⟩, ⟨.plain, "b.h", true, some ⟨"inc/b.h"⟩⟩),
        (some ⟨"m.c", 2⟩, ⟨.plain, "a.h", true, none⟩),
        (some ⟨"m.c", 3⟩, ⟨.plain, "a.h", false, none⟩)] := by
  show (Clang.preprocessed (request []) output).inclusions = _
  rw [TranslationUnit.inclusions, Node.inclusions, Node.preorder_eq_nodes]
  decide +kernel

/-- What is entered is another header. -/
theorem isSkipped (args : List String) {i : Nat} {location : Location} {angled : Bool}
    (h : (Clang.preprocessed (request args) output).inclusions[i]? =
      some (some location, ⟨.plain, "a.h", angled, none⟩)) :
    IsSkipped (Clang.preprocessed (request args) output) i location
      ⟨.plain, "a.h", angled, none⟩ := by
  have hother : ∀ x ∈ (Clang.preprocessed (request args) output).inclusions,
      x.2.file?.isSome → x.2.spelling = "b.h" := by
    rw [inclusions_output]
    simp
  have hrelative : Path.isAbsolute ⟨"a.h"⟩ = false := by decide
  refine ⟨h, rfl, nofun, hrelative, fun j _ l e he hentered hkey => ?_⟩
  have hb : e.spelling = "b.h" := hother _ (List.mem_of_getElem? he) hentered
  have ha : e.spelling = "a.h" := congrArg SearchKey.spelling hkey
  exact absurd (ha.symm.trans hb) (by decide)

theorem isSkipped_angled (args : List String) :
    IsSkipped (Clang.preprocessed (request args) output) 1 ⟨"m.c", 2⟩
      ⟨.plain, "a.h", true, none⟩ :=
  isSkipped args (by rw [inclusions_output]; rfl)

theorem isSkipped_quoted (args : List String) :
    IsSkipped (Clang.preprocessed (request args) output) 2 ⟨"m.c", 3⟩
      ⟨.plain, "a.h", false, none⟩ :=
  isSkipped args (by rw [inclusions_output]; rfl)

variable {n : Nat}

/-- A spelling of the directory that is too long finds nothing, although the file is there. -/
theorem has_slashed (h : FileSystem.maxPath < n) :
    HeaderSearch.has machine.files ⟨"."⟩ "a.h" ⟨slashed n⟩ = false := by
  refine HeaderSearch.has_eq_false_of_length _ _ rfl ?_
  rw [chars_slashed, List.length_append, List.length_replicate]
  omega

/-- Arguments that name `inc` twice, first with some separators at its end. -/
def twice (n : Nat) : List String := ["-I" ++ slashed n, "-Iinc"]

theorem includeDirectories_twice : includeDirectories (twice n) = [slashed n, "inc"] := by
  have hempty : slashed n ≠ "" := by
    intro h
    have hchars := chars_slashed (n := n)
    rw [h] at hchars
    cases hchars
  have hdash : "-I" ++ slashed n ∉ ["-I-"] := by
    intro h
    have hdash := (String.append_right_inj "-I").1 (List.mem_singleton.1 h : _ = "-I" ++ "-")
    have hchars := chars_slashed (n := n)
    rw [hdash] at hchars
    cases hchars
  rw [includeDirectories, twice, flagValues_cons_append hempty hdash]
  rfl

theorem holdsNul_twice : (twice n).any Machine.holdsNul = false := by
  have hnul : Machine.holdsNul ("-I" ++ slashed n) = false := by
    simp [Machine.holdsNul, slashed]
  rw [twice, List.any_cons, hnul]
  rfl

theorem searched_twice (includer : Path) :
    Clang.searched id (twice n) true includer = [⟨slashed n⟩, ⟨"inc"⟩] := by
  rw [Clang.searched, includeDirectories_twice]
  rfl

theorem searched_distinct_twice (includer : Path) :
    Clang.searched HeaderSearch.distinct (twice n) true includer = [⟨slashed n⟩] := by
  have hsame : Path.same ⟨slashed n⟩ ⟨"inc"⟩ = true := decide_eq_true components_slashed
  rw [Clang.searched, includeDirectories_twice]
  simp [HeaderSearch.distinct, hsame]

end Sample

/-- The angled directive counts for `inc`, which is named twice, and the quoted one for `q`. -/
theorem Clang.attributions_of_isSkipped_sample :
    ∃ u, Sample.clang.parse Sample.machine
        (Sample.request ["-Igen", "-Iinc", "-iquote", "q", "-Iinc/"]) = .ok u ∧
      (Overlay.empty.attributions u)[1]? = some (.used ⟨"inc"⟩) ∧
      (Overlay.empty.attributions u)[2]? = some (.used ⟨"q"⟩) := by
  have hnul : ["-Igen", "-Iinc", "-iquote", "q", "-Iinc/"].any Machine.holdsNul = false := by
    decide +kernel
  obtain ⟨u, hu, _, h⟩ := attributions_of_isSkipped (Sample.run_eq hnul) rfl
  refine ⟨u, hu, ?_, ?_⟩
  · rw [(h 1 _ _ (Sample.isSkipped_angled _)).1]
    decide +kernel
  · rw [(h 2 _ _ (Sample.isSkipped_quoted _)).1]
    decide +kernel

/-- A directory can be left out in favour of a spelling that is too long. -/
theorem Clang.not_forall_attributions_eq :
    ¬ ∀ (c : Clang) (m : Machine) (r : ParseRequest) (output : ProcessOutput) (u : TranslationUnit)
      (i : Nat) (location : Location) (d : Inclusion),
      m.run c.path (some r.directory) (c.arguments r) = .ok output → r.record = true →
      c.parse m r = .ok u → IsSkipped (preprocessed r output) i location d →
      (Overlay.empty.attributions u)[i]? =
        some (.ofDirectory? ((searched id r.arguments d.angled ⟨location.file⟩).find?
          (HeaderSearch.has m.files r.directory d.spelling))) := by
  intro h
  have hrun := Sample.run_eq (Sample.holdsNul_twice (n := 4096))
  have hskipped := Sample.isSkipped_angled (Sample.twice 4096)
  have hlong := Bool.not_eq_true _ ▸ Sample.has_slashed (n := 4096) (by decide)
  have hinc : HeaderSearch.has Sample.machine.files ⟨"."⟩ "a.h" ⟨"inc"⟩ = true := by decide +kernel
  -- the search ends with the long spelling, the list goes on to the short one
  have hfound : (searched HeaderSearch.distinct (Sample.twice 4096) true ⟨"m.c"⟩).find?
      (HeaderSearch.has Sample.machine.files ⟨"."⟩ "a.h") = none := by
    rw [Sample.searched_distinct_twice, List.find?_cons_of_neg hlong, List.find?_nil]
  have hlisted : (searched id (Sample.twice 4096) true ⟨"m.c"⟩).find?
      (HeaderSearch.has Sample.machine.files ⟨"."⟩ "a.h") = some ⟨"inc"⟩ := by
    rw [Sample.searched_twice, List.find?_cons_of_neg hlong, List.find?_cons_of_pos hinc]
  have hunresolved := getElem?_attributions_filledUnit hskipped hfound
  have hequal := h _ _ _ _ _ _ _ _ hrun rfl (parse_eq_ok hrun rfl) hskipped
  have hdirectories := hunresolved.symm.trans
    (hequal.trans (congrArg (fun dir? => some (Attribution.ofDirectory? dir?)) hlisted))
  exact absurd hdirectories (by decide +kernel)

end IncludeAudit
