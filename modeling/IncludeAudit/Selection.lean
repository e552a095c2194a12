import IncludeAudit.Config.Basic
import IncludeAudit.Database
import IncludeAudit.Description

/-! # The selection of a command

Which of a source's recorded commands belongs to a target: the first one whose arguments include
every flag that the description of the target implies. Flags are compared as text, so `-I dir` in
two arguments does not stand for `-Idir`.
-/
namespace IncludeAudit

/-- The flags that a target implies for one of its sources, in the order of their derivation. -/
def requiredFlags (t : Target) (source : String) (config : AnalysisConfig) : List String :=
  t.defines.map ("-D" ++ ·) ++ t.includeDirs.map (fun d => "-I" ++ (Path.normalize ⟨d⟩).text) ++
    t.cflags ++ if config.isCSource source then t.cflagsC else t.cflagsCc

/-- Whether a command has every flag among its arguments. The source file is no flag. -/
def CompileCommand.carries (c : CompileCommand) (flags : List String) : Bool :=
  flags.all fun f => c.argumentsWithoutSource.contains f

/-- The first command of a source that has every flag. -/
def Database.select (db : Database) (source : Path) (flags : List String) :
    Except Error CompileCommand :=
  match (db.commandsFor source).find? fun c => c.carries flags with
  | some c => .ok c
  | none => .error (.noCommand source)

end IncludeAudit
