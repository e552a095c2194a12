import IncludeAudit.Frontend.Clang
import IncludeAudit.Proofs.Command.Arguments
import Mathlib.Data.List.Basic

/-! # Command lines put together from parts

A command is read three times: the source file is taken out of it, the filter leaves out what a
second run does without, and the `-I` directories are looked for.  Two of these readings look ahead
by one argument, and they do so over different lists.  Behind the name of the compiler a command
consists of parts of one or two arguments (`CommandPart`).  No reading ends within a part, so each
does to a whole command what it does to every part (`scan_flatMap`).  Hence the directories that a
command declares are those in which the second run searches (`extract_parts`).
-/
namespace IncludeAudit

/-- A part of a command behind the name of the compiler. -/
inductive CommandPart where
  /-- The source file. -/
  | source
  /-- A flag that the filter drops. -/
  | dropped (flag : String)
  /-- A flag that the filter drops, and the argument that goes with it. -/
  | droppedPair (flag value : String)
  /-- `-I` with a directory in the same argument. -/
  | joined (dir : String)
  /-- `-I` with a directory in the argument after it. -/
  | separate (dir : String)
  /-- Any other argument. -/
  | other (argument : String)
deriving DecidableEq, Repr

namespace CommandPart

/-- The arguments of a part, apart from the source file. -/
def ownArguments : CommandPart → List String
  | source => []
  | dropped flag => [flag]
  | droppedPair flag value => [flag, value]
  | joined dir => ["-I" ++ dir]
  | separate dir => ["-I", dir]
  | other argument => [argument]

/-- The arguments of a part of a command for a source file. -/
def arguments (filename : String) : CommandPart → List String
  | source => [filename]
  | part => part.ownArguments

/-- The arguments that are left for a second run. -/
def kept : CommandPart → List String
  | source => []
  | dropped _ => []
  | droppedPair _ _ => []
  | part => part.ownArguments

/-- The directory that a part declares. -/
def dir? : CommandPart → Option String
  | joined dir => some dir
  | separate dir => some dir
  | _ => none

/-- An argument that does not look like an `-I` flag. -/
def IsPlain (argument : String) : Prop := ¬ "-I".toList <+: argument.toList

instance (argument : String) : Decidable (IsPlain argument) :=
  inferInstanceAs (Decidable (¬ "-I".toList <+: argument.toList))

/-- An argument that is neither the source file nor known to the filter. -/
structure Passes (f : ArgumentFilter) (filename argument : String) : Prop where
  ne_source : argument ≠ filename
  not_mem_drop : argument ∉ f.drop
  not_mem_dropWithValue : argument ∉ f.dropWithValue

instance (f : ArgumentFilter) (filename argument : String) :
    Decidable (Passes f filename argument) :=
  decidable_of_iff (argument ≠ filename ∧ argument ∉ f.drop ∧ argument ∉ f.dropWithValue)
    ⟨fun h => ⟨h.1, h.2.1, h.2.2⟩, fun h => ⟨h.1, h.2, h.3⟩⟩

/-- A part is what its kind says, and no other kind of part could be read in its place. -/
def Fits (f : ArgumentFilter) (filename : String) : CommandPart → Prop
  | source => True
  | dropped flag => flag ∈ f.drop ∧ flag ≠ filename ∧ IsPlain flag
  | droppedPair flag value =>
    (flag ∈ f.dropWithValue ∧ flag ∉ f.drop ∧ flag ≠ filename ∧ IsPlain flag) ∧
      value ≠ filename ∧ IsPlain value
  | joined dir => dir ≠ "" ∧ dir ≠ "-" ∧ Passes f filename ("-I" ++ dir)
  | separate dir => Passes f filename "-I" ∧ Passes f filename dir
  | other argument => Passes f filename argument ∧ (argument = "-I-" ∨ IsPlain argument)

instance (f : ArgumentFilter) (filename : String) : (p : CommandPart) →
    Decidable (p.Fits f filename)
  | source => .isTrue trivial
  | dropped _ => inferInstanceAs (Decidable (_ ∧ _))
  | droppedPair _ _ => inferInstanceAs (Decidable (_ ∧ _))
  | joined _ => inferInstanceAs (Decidable (_ ∧ _))
  | separate _ => inferInstanceAs (Decidable (_ ∧ _))
  | other _ => inferInstanceAs (Decidable (_ ∧ _))

/-- A scan that does the same to every part, whatever follows it, does so to a whole list. -/
theorem scan_flatMap {scan : List String → List String} {write read : CommandPart → List String}
    {parts : List CommandPart}
    (h : ∀ p ∈ parts, ∀ rest, scan (write p ++ rest) = read p ++ scan rest) :
    scan (parts.flatMap write) = parts.flatMap read ++ scan [] := by
  induction parts with
  | nil => rfl
  | cons p parts ih =>
    rw [List.flatMap_cons, List.flatMap_cons, h p (List.mem_cons_self ..),
      ih fun q hq => h q (List.mem_cons_of_mem p hq), List.append_assoc]

end CommandPart

namespace ArgumentFilter

variable {f : ArgumentFilter} {a : String}

theorem apply_cons_of_mem_drop (h : a ∈ f.drop) (rest : List String) :
    f.apply (a :: rest) = f.apply rest := by
  rw [apply.eq_def]
  simp only [if_pos h]

/-- A flag takes its value with it. -/
theorem apply_cons_of_mem_dropWithValue (h : a ∈ f.dropWithValue) (hdrop : a ∉ f.drop)
    (value : String) (rest : List String) : f.apply (a :: value :: rest) = f.apply rest := by
  rw [apply.eq_def]
  simp only [if_neg hdrop, if_pos h]

theorem apply_cons_of_passes {filename : String} (h : CommandPart.Passes f filename a)
    (rest : List String) : f.apply (a :: rest) = a :: f.apply rest := by
  rw [apply.eq_def]
  simp only [if_neg h.not_mem_drop, if_neg h.not_mem_dropWithValue]

end ArgumentFilter

namespace CommandPart

variable {f : ArgumentFilter} {filename : String} {p : CommandPart}

/-! ## One part -/

/-- Only the source file is taken out. -/
theorem Fits.filter_arguments (h : p.Fits f filename) :
    (p.arguments filename).filter (· != filename) = p.ownArguments := by
  cases p with
  | source => simp [arguments, ownArguments]
  | dropped flag => simp [arguments, ownArguments, h.2.1]
  | droppedPair flag value => simp [arguments, ownArguments, h.1.2.2.1, h.2.1]
  | joined dir => simp [arguments, ownArguments, h.2.2.ne_source]
  | separate dir => simp [arguments, ownArguments, h.1.ne_source, h.2.ne_source]
  | other argument => simp [arguments, ownArguments, h.1.ne_source]

/-- The filter leaves out the parts that it drops. -/
theorem Fits.apply_append (h : p.Fits f filename) (rest : List String) :
    f.apply (p.ownArguments ++ rest) = p.kept ++ f.apply rest := by
  cases p with
  | source => rfl
  | dropped flag => exact ArgumentFilter.apply_cons_of_mem_drop h.1 rest
  | droppedPair flag value =>
    exact ArgumentFilter.apply_cons_of_mem_dropWithValue h.1.1 h.1.2.1 value rest
  | joined dir => exact ArgumentFilter.apply_cons_of_passes h.2.2 rest
  | separate dir =>
    have hflag := ArgumentFilter.apply_cons_of_passes h.1 (dir :: rest)
    exact hflag.trans (congrArg _ (ArgumentFilter.apply_cons_of_passes h.2 rest))
  | other argument => exact ArgumentFilter.apply_cons_of_passes h.1 rest

/-- Behind a part that fits, the scanner starts afresh: no part takes an argument of the next
one. -/
theorem Fits.includeDirectories_append (h : p.Fits f filename) (rest : List String) :
    includeDirectories (p.ownArguments ++ rest) = p.dir?.toList ++ includeDirectories rest := by
  cases p with
  | source => rfl
  | dropped flag => exact flagValues_cons_of_not_start h.2.2 rest
  | droppedPair flag value =>
    have hflag : includeDirectories (flag :: value :: rest) = includeDirectories (value :: rest) :=
      flagValues_cons_of_not_start h.1.2.2.2 (value :: rest)
    exact hflag.trans (flagValues_cons_of_not_start h.2.2 rest)
  | joined dir =>
    refine flagValues_cons_append h.1 (fun hmem => h.2.1 ?_) rest
    exact (String.append_right_inj "-I").1 (List.mem_singleton.1 hmem)
  | separate dir => exact flagValues_cons_flag dir rest
  | other argument =>
    rcases h.2 with rfl | hplain
    · exact flagValues_cons_of_mem (by decide) (List.mem_singleton_self _) rest
    · exact flagValues_cons_of_not_start hplain rest

/-- The directory of a part is still there when the filter has been applied. -/
theorem Fits.includeDirectories_kept_append (h : p.Fits f filename) (rest : List String) :
    includeDirectories (p.kept ++ rest) = p.dir?.toList ++ includeDirectories rest := by
  cases p with
  | source => rfl
  | dropped flag => rfl
  | droppedPair flag value => rfl
  | joined dir => exact h.includeDirectories_append rest
  | separate dir => exact h.includeDirectories_append rest
  | other argument => exact h.includeDirectories_append rest

/-! ## All parts -/

section

variable {parts : List CommandPart} (h : ∀ p ∈ parts, p.Fits f filename)
include h

/-- Only the source is left out, since no other part has an argument like it. -/
theorem argumentsWithoutSource_parts (directory : Path) {program : String}
    (hprogram : program ≠ filename) :
    CompileCommand.argumentsWithoutSource
      ⟨directory, filename, program :: parts.flatMap (arguments filename)⟩ =
        program :: parts.flatMap ownArguments := by
  have hparts := @scan_flatMap (List.filter (· != filename)) (arguments filename) ownArguments parts
    fun p hp rest => by rw [List.filter_append, (h p hp).filter_arguments]
  rw [CompileCommand.argumentsWithoutSource, List.filter_cons_of_pos (by simpa using hprogram),
    hparts, List.filter_nil, List.append_nil]

/-- The filter keeps or drops parts as a whole. -/
theorem apply_parts : f.apply (parts.flatMap ownArguments) = parts.flatMap kept := by
  rw [scan_flatMap fun p hp => (h p hp).apply_append, ArgumentFilter.apply, List.append_nil]

/-- The search for directories goes part by part. -/
theorem includeDirectories_parts :
    includeDirectories (parts.flatMap ownArguments) = parts.filterMap dir? := by
  rw [scan_flatMap fun p hp => (h p hp).includeDirectories_append, List.filterMap_eq_flatMap_toList]
  exact List.append_nil _

/-- The filter drops no directory. -/
theorem includeDirectories_kept_parts :
    includeDirectories (parts.flatMap kept) = parts.filterMap dir? := by
  rw [scan_flatMap fun p hp => (h p hp).includeDirectories_kept_append,
    List.filterMap_eq_flatMap_toList]
  exact List.append_nil _

end

end CommandPart

open CommandPart (arguments kept dir? Passes IsPlain)

/-- **A command is taken apart into its parts.**  A second run gets the arguments of the parts that
are neither the source file nor dropped, in their order; the directories are those of the `-I` parts
in their order; and in just these the second run searches. -/
theorem ArgumentFilter.extract_parts (f : ArgumentFilter) (directory : Path)
    {filename program : String} (hprogram : Passes f filename program) (hplain : IsPlain program)
    {parts : List CommandPart} (h : ∀ p ∈ parts, p.Fits f filename) :
    let command : CompileCommand :=
      ⟨directory, filename, program :: parts.flatMap (arguments filename)⟩
    (f.extract command).arguments = parts.flatMap kept ∧
      (f.extract command).includeDirs = parts.filterMap dir? ∧
      includeDirectories (f.extract command).arguments = (f.extract command).includeDirs ∧
      (Clang.headerSearch directory (f.extract command).arguments).includePaths =
        HeaderSearch.distinct ((f.extract command).includeDirs.map (⟨·⟩)) := by
  intro command
  have hsource : command.argumentsWithoutSource =
      program :: parts.flatMap CommandPart.ownArguments :=
    CommandPart.argumentsWithoutSource_parts h directory hprogram.ne_source
  have harguments : (f.extract command).arguments = parts.flatMap kept := by
    rw [extract, hsource, apply_cons_of_passes hprogram, CommandPart.apply_parts h,
      List.drop_succ_cons, List.drop_zero]
  have hdirs : (f.extract command).includeDirs = parts.filterMap dir? := by
    rw [extract, hsource, includeDirectories, flagValues_cons_of_not_start hplain]
    exact CommandPart.includeDirectories_parts h
  have hagree : includeDirectories (f.extract command).arguments =
      (f.extract command).includeDirs := by
    rw [harguments, hdirs, CommandPart.includeDirectories_kept_parts h]
  refine ⟨harguments, hdirs, hagree, ?_⟩
  rw [← hagree]
  rfl

/-! ## A sample

A command with every kind of part; the directory behind the bare `-I` looks like a flag itself.
-/
namespace Sample

def partsFilter : ArgumentFilter := ⟨["-c"], ["-o"]⟩

def parts : List CommandPart :=
  [.joined "inc", .dropped "-c", .source, .separate "-Igen", .other "-I-",
    .droppedPair "-o" "a.o", .other "-DX", .joined "-I"]

theorem fits_of_mem_parts : ∀ p ∈ parts, p.Fits partsFilter "a.c" := by decide

end Sample

theorem ArgumentFilter.extract_parts_sample :
    let command : CompileCommand := ⟨⟨"/b"⟩, "a.c", ["cc", "-Iinc", "-c", "a.c", "-I", "-Igen",
      "-I-", "-o", "a.o", "-DX", "-I-I"]⟩
    (Sample.partsFilter.extract command).arguments =
        ["-Iinc", "-I", "-Igen", "-I-", "-DX", "-I-I"] ∧
      (Sample.partsFilter.extract command).includeDirs = ["inc", "-Igen", "-I"] ∧
      includeDirectories (Sample.partsFilter.extract command).arguments =
        ["inc", "-Igen", "-I"] := by
  have hprogram : Passes Sample.partsFilter "a.c" "cc" := ⟨by decide, by decide, by decide⟩
  have h := Sample.partsFilter.extract_parts ⟨"/b"⟩ hprogram (by decide) Sample.fits_of_mem_parts
  exact ⟨h.1, h.2.1, h.2.2.1.trans h.2.1⟩

end IncludeAudit
