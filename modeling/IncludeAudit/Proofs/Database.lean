import IncludeAudit.Selection

/-! # The recorded commands of a source

The commands of a database stand in a hash table by the canonical path of their source.  To look up
a source in it is to go through all recorded commands in order (`commandsFor_ofList`), and to select
one of its commands is to take the first one that has all flags (`select_eq_ok_iff`).
-/
namespace IncludeAudit

namespace CompileCommand

variable {c : CompileCommand} {flags : List String}

theorem carries_iff :
    c.carries flags = true ↔ ∀ flag ∈ flags, flag ∈ c.argumentsWithoutSource := by
  simp only [carries, List.all_eq_true, List.contains_iff_mem]

theorem carries_eq_false_iff :
    c.carries flags = false ↔ ∃ flag ∈ flags, flag ∉ c.argumentsWithoutSource := by
  simp only [carries, List.all_eq_false, List.contains_iff_mem]

end CompileCommand

namespace Database

theorem commandsFor_empty (source : Path) : empty.commandsFor source = [] := by
  rw [commandsFor, empty, Std.HashMap.getD_empty]

/-- A command goes to the end of the list of its source, and to no other list. -/
theorem commandsFor_insert (db : Database) (c : CompileCommand) (source : Path) :
    (db.insert c).commandsFor source =
      db.commandsFor source ++ if c.sourcePath = source.normalize then [c] else [] := by
  rw [commandsFor, insert, Std.HashMap.getD_insert]
  by_cases h : c.sourcePath = source.normalize
  · rw [if_pos (beq_iff_eq.2 h), if_pos h, h]
    rfl
  · rw [if_neg (fun h' => h (beq_iff_eq.1 h')), if_neg h, List.append_nil]
    rfl

theorem commandsFor_foldl_insert (db : Database) (cs : List CompileCommand) (source : Path) :
    (cs.foldl insert db).commandsFor source =
      db.commandsFor source ++ cs.filter fun c => c.sourcePath = source.normalize := by
  induction cs generalizing db with
  | nil => rw [List.foldl_nil, List.filter_nil, List.append_nil]
  | cons c cs ih =>
    rw [List.foldl_cons, ih, commandsFor_insert, List.append_assoc, List.filter_cons]
    by_cases h : c.sourcePath = source.normalize <;> simp [h]

/-- The commands of a source are those recorded for its canonical path, in their order. -/
theorem commandsFor_ofList (cs : List CompileCommand) (source : Path) :
    (ofList cs).commandsFor source = cs.filter fun c => c.sourcePath = source.normalize := by
  rw [ofList, commandsFor_foldl_insert, commandsFor_empty, List.nil_append]

/-- The first of a source's commands that has every flag among its arguments. -/
def FirstMatch (db : Database) (source : Path) (flags : List String) (c : CompileCommand) : Prop :=
  ∃ before after, db.commandsFor source = before ++ c :: after ∧
    (∀ d ∈ before, ∃ flag ∈ flags, flag ∉ d.argumentsWithoutSource) ∧
    ∀ flag ∈ flags, flag ∈ c.argumentsWithoutSource

/-- None of a source's commands has every flag among its arguments. -/
def NoMatch (db : Database) (source : Path) (flags : List String) : Prop :=
  ∀ d ∈ db.commandsFor source, ∃ flag ∈ flags, flag ∉ d.argumentsWithoutSource

variable {db : Database} {source : Path} {flags : List String}

/-- The first command of the list that carries the flags is the first match. -/
theorem find?_carries_eq_some_iff {c : CompileCommand} :
    ((db.commandsFor source).find? fun c => c.carries flags) = some c ↔
      db.FirstMatch source flags c := by
  rw [List.find?_eq_some_iff_append]
  simp only [Bool.not_eq_eq_eq_not, Bool.not_true, CompileCommand.carries_eq_false_iff,
    CompileCommand.carries_iff, FirstMatch]
  constructor
  · rintro ⟨hc, before, after, hsplit, hbefore⟩
    exact ⟨before, after, hsplit, hbefore, hc⟩
  · rintro ⟨before, after, hsplit, hbefore, hc⟩
    exact ⟨hc, before, after, hsplit, hbefore⟩

theorem find?_carries_eq_none_iff :
    ((db.commandsFor source).find? fun c => c.carries flags) = none ↔ db.NoMatch source flags := by
  simp only [List.find?_eq_none, Bool.not_eq_true, CompileCommand.carries_eq_false_iff, NoMatch]

/-- What is chosen is the first match. -/
theorem select_eq_ok_iff {c : CompileCommand} :
    db.select source flags = .ok c ↔ db.FirstMatch source flags c := by
  rw [← find?_carries_eq_some_iff, select]
  cases (db.commandsFor source).find? fun c => c.carries flags <;> simp

/-- Without a match the choice fails, and the failure names the source. -/
theorem select_eq_error (h : db.NoMatch source flags) :
    db.select source flags = .error (.noCommand source) := by
  rw [select, find?_carries_eq_none_iff.2 h]

variable (db source flags) in
/-- A source has a first command with every flag, or none at all. -/
theorem exists_firstMatch_or_noMatch :
    (∃ c, db.FirstMatch source flags c) ∨ db.NoMatch source flags := by
  cases hfind : (db.commandsFor source).find? fun c => c.carries flags with
  | some c => exact Or.inl ⟨c, find?_carries_eq_some_iff.1 hfind⟩
  | none => exact Or.inr (find?_carries_eq_none_iff.1 hfind)

end Database

end IncludeAudit
