import IncludeAudit.Config.Basic
import IncludeAudit.Error
import IncludeAudit.Yaml.Record

/-! # Configurations as YAML documents

Every part may be left out and then has its default.
-/
namespace IncludeAudit

/-- Reads which sources and targets are looked at. -/
def AnalysisConfig.ofYaml? (document y : Yaml) : Option AnalysisConfig := do
  let fields ← Yaml.fields? document ["source_extensions", "c_extensions", "exclude",
    "target_types"] y
  match fields with
  | [sourceExtensions, cExtensions, exclude, targetTypes] =>
    let texts (fallback : List String) := Yaml.defaulted? fallback (Yaml.texts? document)
    let standard : AnalysisConfig := {}
    some {
      sourceExtensions := ← texts standard.sourceExtensions sourceExtensions
      cExtensions := ← texts standard.cExtensions cExtensions
      exclude := ← texts standard.exclude exclude
      targetTypes := ← texts standard.targetTypes targetTypes }
  | _ => none

/-- Reads how the compiler is run. -/
def FrontendConfig.ofYaml? (document y : Yaml) : Option FrontendConfig := do
  let fields ← Yaml.fields? document ["clang_path", "extra_args", "drop_flags",
    "drop_flags_with_value"] y
  match fields with
  | [clangPath, extraArgs, dropFlags, dropFlagsWithValue] =>
    let texts (fallback : List String) := Yaml.defaulted? fallback (Yaml.texts? document)
    let standard : FrontendConfig := {}
    some {
      clangPath? := (← Yaml.defaulted? none (Yaml.optionalText? document) clangPath).map (⟨·⟩)
      extraArgs := ← texts standard.extraArgs extraArgs
      dropFlags := ← texts standard.dropFlags dropFlags
      dropFlagsWithValue := ← texts standard.dropFlagsWithValue dropFlagsWithValue }
  | _ => none

namespace Config

/-- Reads a configuration. -/
def ofYaml? (document : Yaml) : Option Config := do
  match ← Yaml.fields? document ["analysis", "frontend"] document with
  | [analysis, frontend] =>
    some {
      analysis := ← Yaml.defaulted? {} (AnalysisConfig.ofYaml? document) analysis
      frontend := ← Yaml.defaulted? {} (FrontendConfig.ofYaml? document) frontend }
  | _ => none

/-- The configuration that a text writes down. -/
def parse? (text : String) : Option Config := do ofYaml? (← Yaml.parse? text)

/-- The configuration in a file. -/
def load (fs : FileSystem) (file : Path) : Except Error Config :=
  match fs.read file with
  | .error e => .error (.io e)
  | .ok text => match parse? text with
    | some c => .ok c
    | none => .error (.yaml file)

end Config

end IncludeAudit
