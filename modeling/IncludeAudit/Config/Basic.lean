import IncludeAudit.Path.Basic
import IncludeAudit.Text.Part

/-! # Configurations

What can be configured, and what holds where nothing is.
-/
namespace IncludeAudit

/-- Which sources and targets are looked at, and which findings are left out. -/
structure AnalysisConfig where
  /-- Endings of the sources that form a translation unit. -/
  sourceExtensions : List String := [".c", ".cc", ".cpp", ".cxx"]
  /-- Endings of the sources that are compiled as C; all others are compiled as C++. -/
  cExtensions : List String := [".c"]
  /-- Patterns of directories that are never reported. -/
  exclude : List String := []
  /-- Types of targets that can be analysed. -/
  targetTypes : List String := ["executable", "shared_library", "static_library", "source_set"]
deriving DecidableEq, Inhabited, Repr

namespace AnalysisConfig

/-- Whether a source forms a translation unit. -/
def isTranslationUnit (c : AnalysisConfig) (source : String) : Bool :=
  c.sourceExtensions.any fun ending => Text.endsWith ending source

/-- Whether a source is compiled as C. -/
def isCSource (c : AnalysisConfig) (source : String) : Bool :=
  c.cExtensions.any fun ending => Text.endsWith ending source

end AnalysisConfig

/-- How the compiler is run to preprocess a source. -/
structure FrontendConfig where
  /-- The compiler; it is looked for where none is given. -/
  clangPath? : Option Path := none
  /-- Arguments that go before those of the recorded command. -/
  extraArgs : List String := []
  /-- Flags of a recorded command that are left out. -/
  dropFlags : List String :=
    ["--", "--driver-mode=g++", "-MD", "-MMD", "-Wall", "-Werror", "-Wextra", "-c", "-pedantic",
      "-fdata-sections", "-ffunction-sections"]
  /-- Flags that are left out together with the argument after them. -/
  dropFlagsWithValue : List String := ["-o", "-MT", "-MF"]
deriving DecidableEq, Inhabited, Repr

/-- The whole configuration. -/
structure Config where
  analysis : AnalysisConfig := {}
  frontend : FrontendConfig := {}
deriving DecidableEq, Inhabited, Repr

end IncludeAudit
