import IncludeAudit.Command.Basic
import IncludeAudit.Config.Basic

/-! # Arguments of a compiler command

Some arguments of a command declare include directories. Most of them, and of the others, are kept
for a second run of the compiler.
-/
namespace IncludeAudit

/-- The values of a flag in the order of the arguments. A flag's value is the rest of its own
argument, or the whole next argument if there is no rest. The arguments in `others` look like the
flag with a value but are flags of their own. -/
def flagValues (flag : String) (others : List String) : List String → List String
  | [] => []
  | a :: rest =>
    if a = flag then
      match rest with
      | [] => []
      | value :: more => value :: flagValues flag others more
    else if a ∈ others then flagValues flag others rest
    else match Text.after? flag a with
      | some value => value :: flagValues flag others rest
      | none => flagValues flag others rest

/-- The `-I` directories of some arguments. `-I-` changes how the compiler searches and names no
directory. -/
def includeDirectories (args : List String) : List String := flagValues "-I" ["-I-"] args

/-- The `-iquote` directories of some arguments, which serve quoted inclusions only. -/
def quoteDirectories (args : List String) : List String := flagValues "-iquote" [] args

/-- Flags that a second run of the compiler does without. -/
structure ArgumentFilter where
  drop : List String
  /-- Flags dropped together with the argument after them. -/
  dropWithValue : List String
deriving DecidableEq, Inhabited, Repr

namespace ArgumentFilter

/-- The filter of a configuration. -/
def ofConfig (c : FrontendConfig) : ArgumentFilter := ⟨c.dropFlags, c.dropFlagsWithValue⟩

/-- The arguments that pass the filter, in their order. -/
def apply (f : ArgumentFilter) : List String → List String
  | [] => []
  | a :: rest =>
    if a ∈ f.drop then f.apply rest
    else if a ∈ f.dropWithValue then
      match rest with
      | [] => []
      | _ :: more => f.apply more
    else a :: f.apply rest

end ArgumentFilter

/-- What a compiler command says about preprocessing its source. -/
structure ExtractedCommand where
  /-- The arguments for another run, without the compiler's name and the source file. -/
  arguments : List String
  /-- The include directories as written, in their order. -/
  includeDirs : List String
deriving DecidableEq, Inhabited, Repr

/-- Takes a command apart. The filter sees the compiler's name as well, and the first argument that
it lets through counts as that name. -/
def ArgumentFilter.extract (f : ArgumentFilter) (c : CompileCommand) : ExtractedCommand where
  arguments := (f.apply c.argumentsWithoutSource).drop 1
  includeDirs := includeDirectories c.argumentsWithoutSource

end IncludeAudit
