import IncludeAudit.Proofs.Database.Filled
import IncludeAudit.Proofs.Outcome
import IncludeAudit.Proofs.Path.Absolute
import IncludeAudit.Proofs.Text.Part
import IncludeAudit.Workspace

/-! # Where records and descriptions meet

A record of a database names its source by a directory and a file.  A description names a source by
a text that is seen from the build directory, or from the source root.  Both are folded in steps:
the directory of a record first, if it is relative, and then the file in it; the build directory
first, then the source root in it, and then the source.  The steps make no difference, so the two
meet just if their joins have the same normal form (`mem_commandsFor_sourcePath_iff`).
-/
namespace IncludeAudit

/-- The source of a record is the join of its parts, seen from the base of the database. -/
theorem DatabaseEntry.sourcePath_of_toCommand {e : DatabaseEntry} {base : Path}
    {c : CompileCommand} (h : e.toCommand base = .ok c) :
    c.sourcePath = base.absolutize (e.directory.join ⟨e.file⟩) := by
  obtain ⟨arguments, _, rfl⟩ := map_eq_ok_iff.1 h
  rw [CompileCommand.sourcePath]
  by_cases hd : e.directory.isAbsolute = true
  · rw [if_pos hd, Path.absolutize_join_of_isAbsolute base hd]
  · rw [if_neg hd, Path.absolutize_absolutize]

namespace Workspace

theorem sourcePath_ofBuildDir (B : Path) {s : String} (h : ¬ "//".toList <+: s.toList) :
    (ofBuildDir B).sourcePath s = .ok (B.absolutize ⟨s⟩) := by
  rw [sourcePath, Text.after?_eq_none h, ofBuildDir, Path.absolutize_normalize_left]

theorem sourcePath_withSourceRoot (B r : Path) (rest : String) :
    ((ofBuildDir B).withSourceRoot r).sourcePath ("//" ++ rest) =
      .ok ((B.absolutize r).absolutize ⟨rest⟩) := by
  rw [sourcePath, Text.after?_append, Path.absolutize_eq (B.absolutize r),
    ← Path.absolutize_normalize_left B r]
  rfl

end Workspace

namespace Database

theorem Filled.mem_commandsFor_iff {db : Database} {cs : List CompileCommand} (h : db.Filled cs)
    {c : CompileCommand} {source : Path} :
    c ∈ db.commandsFor source ↔ c ∈ cs ∧ c.sourcePath = source.normalize := by
  rw [h.eq_ofList, commandsFor_ofList, List.mem_filter, decide_eq_true_eq]

/-- **A record and a description meet just if they name the same file.**  The command of a record is
one of those of a source if the join of the record's directory and file, seen from the build
directory, has the normal form of the source, seen from the build directory or, behind `//`, from
the source root. -/
theorem mem_commandsFor_sourcePath_iff {db : Database} {cs : List CompileCommand}
    (hdb : db.Filled cs) {B : Path} {e : DatabaseEntry} {c : CompileCommand}
    (he : e.toCommand B = .ok c) (hc : c ∈ cs) :
    (∀ s : String, ¬ "//".toList <+: s.toList →
      ∃ p, (Workspace.ofBuildDir B).sourcePath s = .ok p ∧
        (c ∈ db.commandsFor p ↔
          B.absolutize (e.directory.join ⟨e.file⟩) = B.absolutize ⟨s⟩)) ∧
    ∀ (r : Path) (rest : String),
      ∃ p, ((Workspace.ofBuildDir B).withSourceRoot r).sourcePath ("//" ++ rest) = .ok p ∧
        (c ∈ db.commandsFor p ↔
          B.absolutize (e.directory.join ⟨e.file⟩) = (B.absolutize r).absolutize ⟨rest⟩) := by
  have hmeet (d p : Path) : c ∈ db.commandsFor (d.absolutize p) ↔
      B.absolutize (e.directory.join ⟨e.file⟩) = d.absolutize p := by
    rw [hdb.mem_commandsFor_iff, DatabaseEntry.sourcePath_of_toCommand he,
      Path.normalize_absolutize]
    exact and_iff_right hc
  refine ⟨fun s hs => ⟨_, Workspace.sourcePath_ofBuildDir B hs, hmeet B ⟨s⟩⟩, fun r rest => ?_⟩
  exact ⟨_, Workspace.sourcePath_withSourceRoot B r rest, hmeet (B.absolutize r) ⟨rest⟩⟩

end Database

/-! ## A sample

A record whose relative directory leaves the build directory, and whose file has steps to fold.
-/
namespace Sample

def outside : DatabaseEntry where
  directory := ⟨"../x/.."⟩
  file := "src//./a.c"
  arguments? := some ["cc", "-c"]

def outsideCommand : CompileCommand := ⟨⟨"/b"⟩, "src//./a.c", ["cc", "-c"]⟩

end Sample

theorem Database.mem_commandsFor_sourcePath_iff_sample :
    Sample.outside.toCommand ⟨"/b/out/"⟩ = .ok Sample.outsideCommand ∧
    (∃ p, (Workspace.ofBuildDir ⟨"/b/out/"⟩).sourcePath "./../src/a.c" = .ok p ∧
      Sample.outsideCommand ∈ (ofList [Sample.outsideCommand]).commandsFor p) ∧
    (∃ p, (Workspace.ofBuildDir ⟨"/b/out/"⟩).sourcePath "src/a.c" = .ok p ∧
      Sample.outsideCommand ∉ (ofList [Sample.outsideCommand]).commandsFor p) ∧
    ∃ p, ((Workspace.ofBuildDir ⟨"/b/out/"⟩).withSourceRoot ⟨".."⟩).sourcePath
        ("//" ++ "x/../src/a.c") = .ok p ∧
      Sample.outsideCommand ∈ (ofList [Sample.outsideCommand]).commandsFor p := by
  have hcommand : Sample.outside.toCommand ⟨"/b/out/"⟩ = .ok Sample.outsideCommand := by rfl
  obtain ⟨hrelative, hrooted⟩ := mem_commandsFor_sourcePath_iff (.list [Sample.outsideCommand])
    hcommand (List.mem_singleton_self _)
  refine ⟨hcommand, ?_, ?_, ?_⟩
  · obtain ⟨p, hp, hmem⟩ := hrelative "./../src/a.c" (by decide +kernel)
    exact ⟨p, hp, hmem.2 (by decide +kernel)⟩
  · obtain ⟨p, hp, hmem⟩ := hrelative "src/a.c" (by decide +kernel)
    exact ⟨p, hp, fun h => absurd (hmem.1 h) (by decide +kernel)⟩
  · obtain ⟨p, hp, hmem⟩ := hrooted ⟨".."⟩ "x/../src/a.c"
    exact ⟨p, hp, hmem.2 (by decide +kernel)⟩

end IncludeAudit
