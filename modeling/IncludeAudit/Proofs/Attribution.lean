import IncludeAudit.Attribution
import IncludeAudit.Proofs.Path.Join
import IncludeAudit.Proofs.Path.Set
import IncludeAudit.Proofs.Tree

/-! # The directories that a translation unit uses

A directory is used just if it serves some directive of the tree, at whatever depth, that has a
location and opened a file by a relative path (`mem_usedDirectories_iff`).  The directory that
serves a directive is the one that its text was joined to (`servedFrom_of_join`).
-/
namespace IncludeAudit

/-- What a directive says whose search ended in a directory, or in none. -/
def Attribution.ofDirectory? : Option Path → Attribution
  | none => .ignored .unresolved
  | some d => if d.isAbsolute then .ignored .outsideTree else .used d.normalize

namespace Overlay

@[simp] theorem resolve_empty (physical fallback : String) :
    empty.resolve physical fallback = fallback := by
  rw [resolve, empty, Std.HashMap.getD_empty]

/-- The directory that serves a directive which opened a file: the canonical form of what is left of
the file's logical path without the text of the directive. -/
def servedFrom (o : Overlay) (d : Inclusion) (file : Path) : Path :=
  Path.normalize ⟨Text.removeSuffix (o.resolve file.text file.text) d.spelling⟩

/-- A directory that serves a directive is named by its normal form. -/
theorem isNormal_servedFrom (o : Overlay) (d : Inclusion) (file : Path) :
    (o.servedFrom d file).IsNormal :=
  Path.isNormal_normalize _

/-- The text of a directive is taken off the directory that it was joined to. -/
theorem servedFrom_of_join {o : Overlay} {i : Inclusion} {file d : Path}
    (hrel : Path.isAbsolute ⟨i.spelling⟩ = false)
    (hfile : o.resolve file.text file.text = (d.join ⟨i.spelling⟩).text) :
    o.servedFrom i file = d.normalize := by
  rw [servedFrom, hfile, Path.normalize_removeSuffix_join d hrel]

/-- A directive whose file was found in a directory is attributed to that directory. -/
theorem attributionOf_of_join {o : Overlay} {location : Location} {i : Inclusion}
    {dir? : Option Path} (hrel : Path.isAbsolute ⟨i.spelling⟩ = false)
    (hfile : i.file? = dir?.map fun d => d.join ⟨i.spelling⟩)
    (hresolve : ∀ d ∈ dir?, o.resolve (d.join ⟨i.spelling⟩).text (d.join ⟨i.spelling⟩).text =
      (d.join ⟨i.spelling⟩).text) :
    o.attributionOf (some location) i = .ofDirectory? dir? := by
  cases dir? with
  | none => simp only [attributionOf, hfile, Option.map_none, Attribution.ofDirectory?]
  | some d =>
    simp only [attributionOf, hfile, Option.map_some, Attribution.ofDirectory?,
      Path.isAbsolute_join d hrel]
    split
    · rfl
    · exact congrArg _ (servedFrom_of_join hrel (hresolve d rfl))

/-- A directive with a place and a relative file is attributed to the directory that serves it, and
no other one is attributed to any. -/
theorem directory?_attributionOf_iff {o : Overlay} {location? : Option Location} {d : Inclusion}
    {p : Path} :
    (o.attributionOf location? d).directory? = some p ↔
      ∃ file, location?.isSome ∧ d.file? = some file ∧ file.isAbsolute = false ∧
        o.servedFrom d file = p := by
  cases location? with
  | none =>
    refine ⟨fun h => ?_, fun ⟨_, h, _⟩ => Bool.noConfusion h⟩
    cases h
  | some location =>
    cases hfile : d.file? with
    | none =>
      refine ⟨fun h => ?_, fun ⟨_, _, h, _⟩ => ?_⟩
      · simp only [attributionOf, hfile] at h
        cases h
      · cases h
    | some file =>
      -- of a known file only the spelling of its path can rule the directive out
      by_cases habs : file.isAbsolute = true
      · refine ⟨fun h => ?_, fun ⟨f, _, hf, hrel, _⟩ => ?_⟩
        · simp only [attributionOf, hfile, if_pos habs] at h
          cases h
        · cases hf
          rw [habs] at hrel
          cases hrel
      · have hserved : (o.attributionOf (some location) d).directory? =
            some (o.servedFrom d file) := by
          simp only [attributionOf, hfile, if_neg habs]
          rfl
        rw [hserved, Option.some.injEq]
        refine ⟨fun h => ⟨file, rfl, rfl, by simpa using habs, h⟩, fun ⟨f, _, hf, _, h⟩ => ?_⟩
        cases hf
        exact h

/-- The directories found for the directives of a unit, in the order of the text. -/
def servingDirectories (o : Overlay) (u : TranslationUnit) : List Path :=
  (o.attributions u).filterMap Attribution.directory?

theorem mem_servingDirectories_iff {o : Overlay} {u : TranslationUnit} {p : Path} :
    p ∈ o.servingDirectories u ↔
      ∃ (m : Node) (d : Inclusion) (file : Path), m.Within u.root ∧ m.kind = .inclusion d ∧
        m.location?.isSome ∧ d.file? = some file ∧ file.isAbsolute = false ∧
          o.servedFrom d file = p := by
  rw [servingDirectories, List.mem_filterMap]
  constructor
  · rintro ⟨a, ha, hp⟩
    obtain ⟨⟨location?, d⟩, hd, rfl⟩ := List.mem_map.1 ha
    obtain ⟨m, hm, hkind, rfl⟩ := Node.mem_inclusions_iff.1 hd
    obtain ⟨file, h⟩ := directory?_attributionOf_iff.1 hp
    exact ⟨m, d, file, hm, hkind, h⟩
  · rintro ⟨m, d, file, hm, hkind, h⟩
    refine ⟨o.attributionOf m.location? d, ?_, directory?_attributionOf_iff.2 ⟨file, h⟩⟩
    exact List.mem_map.2 ⟨(m.location?, d), Node.mem_inclusions_iff.2 ⟨m, hm, hkind, rfl⟩, rfl⟩

theorem isNormal_of_mem_servingDirectories {o : Overlay} {u : TranslationUnit} {p : Path}
    (h : p ∈ o.servingDirectories u) : p.IsNormal := by
  obtain ⟨m, d, file, _, _, _, _, _, rfl⟩ := mem_servingDirectories_iff.1 h
  exact o.isNormal_servedFrom d file

theorem isNormal_usedDirectories (o : Overlay) (u : TranslationUnit) :
    (o.usedDirectories u).IsNormal :=
  PathSet.isNormal_empty.insertAll fun _ h => isNormal_of_mem_servingDirectories h

/-- The set of used directories is what serves, without repetitions. -/
theorem mem_usedDirectories_iff_mem_serving {o : Overlay} {u : TranslationUnit} {p : Path} :
    p ∈ (o.usedDirectories u).toList ↔ p ∈ o.servingDirectories u := by
  rw [usedDirectories, ← servingDirectories,
    PathSet.mem_insertAll_iff PathSet.isNormal_empty
      fun _ h => isNormal_of_mem_servingDirectories h]
  exact or_iff_left List.not_mem_nil

/-- **A directory is used just if it serves some directive.** -/
theorem mem_usedDirectories_iff {o : Overlay} {u : TranslationUnit} {p : Path} :
    p ∈ (o.usedDirectories u).toList ↔
      ∃ (m : Node) (d : Inclusion) (file : Path), m.Within u.root ∧ m.kind = .inclusion d ∧
        m.location?.isSome ∧ d.file? = some file ∧ file.isAbsolute = false ∧
          o.servedFrom d file = p :=
  mem_usedDirectories_iff_mem_serving.trans mem_servingDirectories_iff

end Overlay

end IncludeAudit
