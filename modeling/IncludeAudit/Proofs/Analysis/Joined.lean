import IncludeAudit.Proofs.Analysis

/-! # From a joined path back to its directory

A compiler opens a file by a directory of its command joined with the text of a directive, and an
overlay may put another file in its place.  The attribution takes the text of the directive off
again, while the directory is recorded as the command writes it.  Both end in the normal form of
that directory (`used_of_join`), however the directory and the directive are spelled and wherever
the opened file lies; so the directory counts as used under the path under which it is provided.
-/
namespace IncludeAudit

namespace Overlay

variable {o : Overlay} {location : Location} {i : Inclusion} {file d : Path}

/-- A directive that opened a file by way of `d` is attributed to `d`. -/
theorem attributionOf_of_logical_join (hrel : Path.isAbsolute ⟨i.spelling⟩ = false)
    (hfile : i.file? = some file) (hopened : file.isAbsolute = false)
    (hlogical : o.resolve file.text file.text = (d.join ⟨i.spelling⟩).text) :
    o.attributionOf (some location) i = .used d.normalize := by
  rw [attributionOf.eq_def]
  simp only [hfile, hopened, Bool.false_eq_true, if_false]
  exact congrArg _ (servedFrom_of_join hrel hlogical)

end Overlay

namespace Analyzer

variable {a : Analyzer} {frontend : Frontend} {t : Target} {usage : IncludeUsage}

theorem mem_providedBy {c : CompileCommand} {dir : String}
    (h : dir ∈ (a.argumentFilter.extract c).includeDirs) : Path.normalize ⟨dir⟩ ∈ a.providedBy c :=
  List.mem_map.2 ⟨dir, h, rfl⟩

/-- A directory that some directive of a tree is attributed to is used. -/
theorem mem_used_of_attributionOf (h : (a.analyze frontend t).result = .ok usage)
    {c : CompileCommand} {u : TranslationUnit} (hu : a.HasUnit frontend t c u)
    {location : Location} {i : Inclusion} (hi : (some location, i) ∈ u.inclusions) {p : Path}
    (hp : a.overlay.attributionOf (some location) i = .used p) : p ∈ usage.used.toList := by
  have hserving : p ∈ a.overlay.servingDirectories u :=
    List.mem_filterMap.2 ⟨.used p, List.mem_map.2 ⟨(some location, i), hi, hp⟩, rfl⟩
  have hused := Overlay.mem_usedDirectories_iff_mem_serving.2 hserving
  exact (mem_used_analyze_iff h p).2 ⟨c, u, hu, hused⟩

/-- **What was joined is taken apart again.**  A directive with a location opened a file by a
relative path, and that file stands for the text of `d` joined with what the directive says.  Then
the directive counts for the normal form of `d`, and under that very path a command that declares
`d` provides it; so it is among the used and the provided directories of a target that has both. -/
theorem used_of_join {location : Location} {i : Inclusion} {file d : Path}
    (hrel : Path.isAbsolute ⟨i.spelling⟩ = false) (hfile : i.file? = some file)
    (hopened : file.isAbsolute = false)
    (hlogical : a.overlay.resolve file.text file.text = (d.join ⟨i.spelling⟩).text) :
    a.overlay.attributionOf (some location) i = .used d.normalize ∧
      (∀ c, d.text ∈ (a.argumentFilter.extract c).includeDirs → d.normalize ∈ a.providedBy c) ∧
      ∀ frontend t usage, (a.analyze frontend t).result = .ok usage →
        (∀ c, a.HasCommand t c → d.text ∈ (a.argumentFilter.extract c).includeDirs →
          d.normalize ∈ usage.provided.toList) ∧
        (∀ c u, a.HasUnit frontend t c u → (some location, i) ∈ u.inclusions →
          d.normalize ∈ usage.used.toList) := by
  have hused : a.overlay.attributionOf (some location) i = .used d.normalize :=
    Overlay.attributionOf_of_logical_join hrel hfile hopened hlogical
  refine ⟨hused, fun c => mem_providedBy, fun frontend t usage h => ⟨fun c hc hd => ?_, ?_⟩⟩
  · exact (mem_provided_analyze_iff h _).2 ⟨c, hc, mem_providedBy hd⟩
  · exact fun c u hu hi => mem_used_of_attributionOf h hu hi hused

end Analyzer

/-! ## A sample

The command of the sample declares `./inc/`, and a generated file stands for one below it.
-/
namespace Sample

def generated : Overlay := .ofPairs [("gen/a.h", "./inc/sub/../a.h")]

theorem resolve_generated :
    generated.resolve "gen/a.h" "gen/a.h" = (Path.join ⟨"./inc/"⟩ ⟨"sub/../a.h"⟩).text := by
  have hjoin : (Path.join ⟨"./inc/"⟩ ⟨"sub/../a.h"⟩).text = "./inc/sub/../a.h" := by decide +kernel
  rw [hjoin, generated, Overlay.resolve, Overlay.ofPairs]
  exact Std.HashMap.getD_insert_self

end Sample

theorem Analyzer.used_of_join_sample :
    Sample.generated.attributionOf (some ⟨"a.c", 1⟩)
        ⟨.plain, "sub/../a.h", false, some ⟨"gen/a.h"⟩⟩ = .used ⟨"inc"⟩ ∧
      ⟨"inc"⟩ ∈ ({ Sample.analyzer with overlay := Sample.generated } : Analyzer).providedBy
        Sample.command := by
  have hnormal : Path.normalize ⟨"./inc/"⟩ = ⟨"inc"⟩ := by decide +kernel
  have hdeclared : "./inc/" ∈
      (Sample.analyzer.argumentFilter.extract Sample.command).includeDirs := by decide +kernel
  have h := @used_of_join { Sample.analyzer with overlay := Sample.generated } ⟨"a.c", 1⟩
    ⟨.plain, "sub/../a.h", false, some ⟨"gen/a.h"⟩⟩ ⟨"gen/a.h"⟩ ⟨"./inc/"⟩ rfl rfl rfl
    Sample.resolve_generated
  rw [hnormal] at h
  exact ⟨h.1, h.2.1 _ hdeclared⟩

end IncludeAudit
