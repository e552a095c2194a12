import IncludeAudit.Proofs.Database
import IncludeAudit.Proofs.Outcome
import IncludeAudit.Proofs.Table

/-! # A database is the list of what was put into it

A database is filled in several ways: with a list of commands, from a document, and with single
commands afterwards (`Filled`).  Whatever the way was, only the commands and their order count
(`Filled.eq_ofList`).  Every question to the table is then answered by a scan of the list: which
commands a source has, how many sources there are, and which command is selected
(`scan_of_filled`).
-/
namespace IncludeAudit

namespace CompileCommand

/-- The command compiles the source, and every flag is one of its arguments other than the source
file as the command names it. -/
def Serves (c : CompileCommand) (source : Path) (flags : List String) : Prop :=
  c.sourcePath = source.normalize ∧ ∀ flag ∈ flags, flag ∈ c.arguments ∧ flag ≠ c.filename

instance (c : CompileCommand) (source : Path) (flags : List String) :
    Decidable (c.Serves source flags) :=
  inferInstanceAs (Decidable (_ ∧ _))

/-- What is left out of the arguments is the source, wherever it stands. -/
theorem mem_argumentsWithoutSource_iff {c : CompileCommand} {flag : String} :
    flag ∈ c.argumentsWithoutSource ↔ flag ∈ c.arguments ∧ flag ≠ c.filename := by
  rw [argumentsWithoutSource, List.mem_filter, bne_iff_ne]

/-- The two parts of `Serves` are what the look-up and the choice among its answers test. -/
theorem serves_iff_carries {c : CompileCommand} {source : Path} {flags : List String} :
    c.Serves source flags ↔ c.sourcePath = source.normalize ∧ c.carries flags = true := by
  rw [Serves, carries_iff]
  simp only [mem_argumentsWithoutSource_iff]

end CompileCommand

namespace Database

/-- A database that holds some commands, in the order in which it was filled with them. -/
inductive Filled : Database → List CompileCommand → Prop where
  | empty : Filled empty []
  | list (cs : List CompileCommand) : Filled (ofList cs) cs
  /-- The commands of a document are those of its records. -/
  | document {text : String} {base : Path} {entries : List DatabaseEntry} {cs : List CompileCommand}
      {db : Database}
      (records : (Json.parse? text).bind (Json.listOf? DatabaseEntry.ofJson?) = some entries)
      (commands : entries.mapM (DatabaseEntry.toCommand base) = .ok cs)
      (parsed : Database.parse text base = .ok db) : Filled db cs
  | insert {db : Database} {cs : List CompileCommand} (filled : Filled db cs)
      (c : CompileCommand) : Filled (db.insert c) (cs ++ [c])

/-! ## Histories -/

theorem ofList_concat (cs : List CompileCommand) (c : CompileCommand) :
    ofList (cs ++ [c]) = (ofList cs).insert c := by
  rw [ofList, List.foldl_append]
  rfl

theorem parse_eq_ok {text : String} {base : Path} {entries : List DatabaseEntry}
    {cs : List CompileCommand}
    (records : (Json.parse? text).bind (Json.listOf? DatabaseEntry.ofJson?) = some entries)
    (commands : entries.mapM (DatabaseEntry.toCommand base) = .ok cs) :
    parse text base = .ok (ofList cs) := by
  simp only [parse, records, commands, Except.map]

/-- The directories of a document are taken from where the document is. -/
theorem load_eq_ok {fs : FileSystem} {path : Path} {text : String} {db : Database}
    (hread : fs.read (locate fs path) = .ok text)
    (hparse : parse text (fs.currentPath.absolutize ((locate fs path).parent?.getD ⟨"."⟩)) =
      .ok db) : load fs path = .ok db := by
  unfold load
  simp only [hread]
  exact mapError_eq_ok_iff.2 hparse

/-- Only the commands and their order count. -/
theorem Filled.eq_ofList {db : Database} {cs : List CompileCommand} (h : db.Filled cs) :
    db = ofList cs := by
  induction h with
  | empty => rfl
  | list cs => rfl
  | document records commands parsed =>
    exact Except.ok.inj (parsed.symm.trans (parse_eq_ok records commands))
  | insert _ c ih => rw [ofList_concat, ih]

/-! ## Sources -/

/-- The table is filled with the commands, each behind the ones that its source has already. -/
theorem commands_ofList (cs : List CompileCommand) :
    (ofList cs).commands = Table.fill CompileCommand.sourcePath
      (fun commands c => commands.getD c.sourcePath [] ++ [c]) cs :=
  (List.foldl_hom commands fun _ _ => rfl).symm

/-- Commands of one source take one place in the table. -/
theorem size_ofList (cs : List CompileCommand) :
    (ofList cs).size = (cs.map CompileCommand.sourcePath).toFinset.card := by
  rw [size, commands_ofList, Table.size_fill]

/-! ## Selection -/

/-- To search the commands of a source is to search all commands for those of the source. -/
theorem find?_commandsFor_ofList (cs : List CompileCommand) (source : Path)
    (flags : List String) :
    (((ofList cs).commandsFor source).find? fun c => c.carries flags) =
      cs.find? fun c => decide (c.sourcePath = source.normalize) && c.carries flags := by
  rw [commandsFor_ofList, List.find?_filter]
  simp only [decide_eq_true_eq, Bool.decide_and, Bool.decide_eq_true]

/-- The command that is chosen is the first one that serves, in the order in which they were put
in. -/
theorem select_ofList_eq_ok_iff {cs : List CompileCommand} {source : Path} {flags : List String}
    {c : CompileCommand} :
    (ofList cs).select source flags = .ok c ↔
      ∃ before after, cs = before ++ c :: after ∧ c.Serves source flags ∧
        ∀ d ∈ before, ¬ d.Serves source flags := by
  have hfind : (ofList cs).select source flags = .ok c ↔
      (cs.find? fun c => decide (c.sourcePath = source.normalize) && c.carries flags) = some c := by
    rw [select, find?_commandsFor_ofList]
    cases cs.find? fun c => decide (c.sourcePath = source.normalize) && c.carries flags <;> simp
  rw [hfind, List.find?_eq_some_iff_append]
  simp only [Bool.not_eq_true', ← Bool.not_eq_true, Bool.and_eq_true, decide_eq_true_eq,
    ← CompileCommand.serves_iff_carries]
  constructor
  · rintro ⟨hc, before, after, hsplit, hbefore⟩
    exact ⟨before, after, hsplit, hc, hbefore⟩
  · rintro ⟨before, after, hsplit, hc, hbefore⟩
    exact ⟨hc, before, after, hsplit, hbefore⟩

/-- The choice fails just if none serves, and the failure names the source. -/
theorem select_ofList_eq_error_iff {cs : List CompileCommand} {source : Path}
    {flags : List String} {e : Error} :
    (ofList cs).select source flags = .error e ↔
      e = .noCommand source ∧ ∀ c ∈ cs, ¬ c.Serves source flags := by
  have hnone : (∀ c ∈ cs, ¬ c.Serves source flags) ↔
      (cs.find? fun c => decide (c.sourcePath = source.normalize) && c.carries flags) = none := by
    simp only [List.find?_eq_none, Bool.and_eq_true, decide_eq_true_eq,
      CompileCommand.serves_iff_carries]
  rw [hnone, select, find?_commandsFor_ofList]
  cases cs.find? fun c => decide (c.sourcePath = source.normalize) && c.carries flags with
  | none => simp [eq_comm]
  | some c => simp

/-- **A database answers as a scan of its commands does.**  The commands of a source are those that
compile its canonical path, in their order; the sources are counted once each; and the command that
is selected is the first one of the source that has every flag, with a failure just if there is
none. -/
theorem scan_of_filled {db : Database} {cs : List CompileCommand} (h : db.Filled cs) :
    (∀ source, db.commandsFor source = cs.filter fun c => c.sourcePath = source.normalize) ∧
    db.size = (cs.map CompileCommand.sourcePath).toFinset.card ∧
    ∀ source flags,
      (∀ c, db.select source flags = .ok c ↔
        ∃ before after, cs = before ++ c :: after ∧ c.Serves source flags ∧
          ∀ d ∈ before, ¬ d.Serves source flags) ∧
      ∀ e, db.select source flags = .error e ↔
        e = .noCommand source ∧ ∀ c ∈ cs, ¬ c.Serves source flags := by
  obtain rfl := h.eq_ofList
  exact ⟨commandsFor_ofList cs, size_ofList cs, fun source flags =>
    ⟨fun _ => select_ofList_eq_ok_iff, fun _ => select_ofList_eq_error_iff⟩⟩

end Database

/-! ## A sample

A document with one record, and two commands inserted after it; the source of the record is that of
the last command, under another spelling.
-/
namespace Sample

def document : String :=
  "[\x7b\"directory\": \"out/.\", \"file\": \"../src/a.c\", \"command\": \"cc -DA ../src/a.c\"\x7d]"

def entry : DatabaseEntry where
  directory := ⟨"out/."⟩
  file := "../src/a.c"
  command? := some "cc -DA ../src/a.c"

/-- The command of the record, seen from the directory `/b/x/..`. -/
def recorded : CompileCommand := ⟨⟨"/b/out"⟩, "../src/a.c", ["cc", "-DA", "../src/a.c"]⟩

def other : CompileCommand := ⟨⟨"/b"⟩, "src/b.c", ["cc", "-DB", "src/b.c"]⟩

def later : CompileCommand := ⟨⟨"/b/src//"⟩, "./a.c", ["cc", "-DA", "-DB", "./a.c"]⟩

theorem entries_document :
    (Json.parse? document).bind (Json.listOf? DatabaseEntry.ofJson?) = some [entry] := by
  decide +kernel

theorem commands_document :
    [entry].mapM (DatabaseEntry.toCommand ⟨"/b/x/.."⟩) = .ok [recorded] := by
  rfl

/-- The source of the record and of the last command, in a third spelling. -/
def askedFor : Path := ⟨"/b//src/x/../a.c/"⟩

end Sample

theorem Database.scan_of_filled_sample :
    ∃ db : Database, ((db.insert Sample.other).insert Sample.later).Filled
        [Sample.recorded, Sample.other, Sample.later] ∧
      ((db.insert Sample.other).insert Sample.later).commandsFor Sample.askedFor =
        [Sample.recorded, Sample.later] ∧
      ((db.insert Sample.other).insert Sample.later).size = 2 ∧
      ((db.insert Sample.other).insert Sample.later).select Sample.askedFor ["-DA", "-DB"] =
        .ok Sample.later ∧
      ((db.insert Sample.other).insert Sample.later).select Sample.askedFor ["./a.c"] =
        .error (.noCommand Sample.askedFor) := by
  have hparsed := parse_eq_ok Sample.entries_document Sample.commands_document
  have hfilled := ((Filled.document Sample.entries_document Sample.commands_document hparsed).insert
    Sample.other).insert Sample.later
  obtain ⟨hcommands, hsize, hselect⟩ := scan_of_filled hfilled
  refine ⟨_, hfilled, ?_, ?_, ?_, ?_⟩
  · rw [hcommands]
    decide +kernel
  · rw [hsize]
    decide +kernel
  · refine ((hselect _ _).1 _).2 ⟨[Sample.recorded, Sample.other], [], rfl, ?_, ?_⟩
    · decide +kernel
    · decide +kernel
  · refine ((hselect _ _).2 _).2 ⟨rfl, ?_⟩
    decide +kernel

end IncludeAudit
