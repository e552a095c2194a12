import IncludeAudit.CommandLine.Outcome
import IncludeAudit.Proofs.Analysis
import IncludeAudit.Proofs.Database.Filled
import IncludeAudit.Proofs.Description

/-! # What a check loads and what it makes of its targets

A check loads its files first, and none of them depends on the choice of targets
(`Session.load_eq_ok_iff`, `check_of_load`).  What it then does depends on the labelled targets that
were chosen and on nothing else (`Session.check_congr`): it asks for a report on each of them, in
their order (`Session.result_reports`), and puts out all of the reports or none
(`Session.check_eq`).
-/
namespace IncludeAudit.CommandLine

/-- The status says whether there is any line of a report. -/
theorem Outcome.status_ofReports (reports : List Report) (events : List Clang.Event) :
    (ofReports reports events).status =
      if (ofReports reports events).errors = [] then 0 else 1 := by
  have hclean : (ofReports reports events).errors = [] ↔
      reports.all Report.isClean = true := by
    simp [ofReports, Report.diagnostics, Report.isClean]
  by_cases hall : reports.all Report.isClean = true
  · rw [if_pos (hclean.2 hall), ofReports, if_pos hall]
  · rw [if_neg (mt hclean.1 hall), ofReports, if_neg hall]

namespace Session

variable {m : Machine} {r : CheckRequest} {s : Session}

/-- What has been loaded for a demand: its own frontend configuration comes before the one in the
file, and its overlay and its source root may be missing. -/
theorem load_eq_ok_iff :
    load m r = .ok s ↔ ∃ config frontend exclude clang database description overlay,
      loadConfig m r.config? = .ok config ∧
      frontend =
        { config.frontend with clangPath? := r.clang?.or config.frontend.clangPath? } ∧
      ExcludeFilter.ofPatterns (config.analysis.exclude ++ r.exclude) = .ok exclude ∧
      Clang.ofConfig m frontend = .ok clang ∧
      Database.load m.files r.database = .ok database ∧
      loadDescription m r.description = .ok description ∧
      (r.overlay? = none ∧ overlay = .empty ∨
        ∃ file, r.overlay? = some file ∧ Overlay.load m.files file = .ok overlay) ∧
      s = ⟨⟨database, overlay,
          r.sourceRoot?.elim (.discover m.files (buildDirectory m.files r.database))
            (Workspace.discover m.files (buildDirectory m.files r.database)).withSourceRoot,
          .ofConfig frontend, config.analysis⟩, clang, exclude, description⟩ := by
  constructor
  · intro h
    obtain ⟨config, hconfig, h⟩ := bind_eq_ok_iff.1 h
    obtain ⟨exclude, hexclude, h⟩ := bind_eq_ok_iff.1 h
    obtain ⟨clang, hclang, h⟩ := bind_eq_ok_iff.1 h
    obtain ⟨database, hdatabase, h⟩ := bind_eq_ok_iff.1 h
    obtain ⟨description, hdescription, h⟩ := bind_eq_ok_iff.1 h
    refine ⟨config, { config.frontend with clangPath? := r.clang?.or config.frontend.clangPath? },
      exclude, clang, database, description, ?_⟩
    cases hfile : r.overlay? with
    | none =>
      rw [hfile] at h
      obtain ⟨overlay, hoverlay, h⟩ := bind_eq_ok_iff.1 h
      exact ⟨overlay, hconfig, rfl, mapError_eq_ok_iff.1 hexclude, mapError_eq_ok_iff.1 hclang,
        mapError_eq_ok_iff.1 hdatabase, hdescription, Or.inl ⟨rfl, (Except.ok.inj hoverlay).symm⟩,
        (Except.ok.inj h).symm⟩
    | some file =>
      rw [hfile] at h
      obtain ⟨overlay, hoverlay, h⟩ := bind_eq_ok_iff.1 h
      exact ⟨overlay, hconfig, rfl, mapError_eq_ok_iff.1 hexclude, mapError_eq_ok_iff.1 hclang,
        mapError_eq_ok_iff.1 hdatabase, hdescription,
        Or.inr ⟨file, rfl, mapError_eq_ok_iff.1 hoverlay⟩, (Except.ok.inj h).symm⟩
  · rintro ⟨config, frontend, exclude, clang, database, description, overlay, hconfig, rfl,
      hexclude, hclang, hdatabase, hdescription, hoverlay, rfl⟩
    refine bind_eq_ok_iff.2 ⟨config, hconfig, ?_⟩
    refine bind_eq_ok_iff.2 ⟨exclude, mapError_eq_ok_iff.2 hexclude, ?_⟩
    refine bind_eq_ok_iff.2 ⟨clang, mapError_eq_ok_iff.2 hclang, ?_⟩
    refine bind_eq_ok_iff.2 ⟨database, mapError_eq_ok_iff.2 hdatabase, ?_⟩
    refine bind_eq_ok_iff.2 ⟨description, hdescription, ?_⟩
    rcases hoverlay with ⟨hfile, rfl⟩ | ⟨file, hfile, hload⟩
    · rw [hfile]
      rfl
    · rw [hfile]
      exact bind_eq_ok_iff.2 ⟨overlay, mapError_eq_ok_iff.2 hload, rfl⟩

/-! ## Reports -/

variable (s m) in
/-- The first labelled target without a report decides the failure. -/
theorem result_reports (items : List (String × Target)) :
    (s.reports m items).result = items.mapM (s.report m) := by
  induction items with
  | nil => rfl
  | cons x items ih =>
    rw [reports, Traced.result_bind, ← report, List.mapM_cons]
    cases s.report m x with
    | error e => rfl
    | ok report =>
      simp only [Except.bind, Traced.result_map, ih]
      cases items.mapM (s.report m) <;> rfl

/-- The messages that are logged while a labelled target is analysed. -/
def log (s : Session) (m : Machine) (x : String × Target) : List String :=
  (s.events m x).filterMap Clang.Event.message?

variable {d e : Description}

/-- The check of a description depends on what it lists. -/
theorem check_congr (h : d.items = e.items) : s.check m d = s.check m e := by
  rw [check, check, Description.size_eq, Description.size_eq, h]

/-- The lines on a labelled target, if there is a report on it. -/
def lines (s : Session) (m : Machine) (x : String × Target) : List String :=
  ((s.report m x).toOption.map Report.diagnostics).getD []

/-- The lines on a target are the diagnostics of its report. -/
theorem lines_of_report {x : String × Target} {report : Report} (h : s.report m x = .ok report) :
    report.diagnostics = s.lines m x := by
  rw [lines, h]
  rfl

/-- What is noticed while some targets are analysed, one after the other. -/
def eventsOf (s : Session) (m : Machine) (items : List (String × Target)) : List Clang.Event :=
  (s.reports m items).requests.flatMap (s.clang.events m)

/-- A target is analysed only if there is a report on each one before it. -/
theorem eventsOf_cons (x : String × Target) (items : List (String × Target)) :
    s.eventsOf m (x :: items) = s.events m x ++
      match s.report m x with
      | .ok _ => s.eventsOf m items
      | .error _ => [] := by
  rw [eventsOf, reports, report, events, Traced.bind]
  cases (s.trace m x).result with
  | error e => exact (List.append_nil _).symm
  | ok report => exact List.flatMap_append

/-- A check of some targets reports on all of them or on none. -/
theorem check_eq (hne : d.items ≠ []) :
    s.check m d = match d.items.mapM (s.report m) with
      | .error cause => .ofFailure (.failed cause) (s.eventsOf m d.items)
      | .ok reports => .ofReports reports (s.eventsOf m d.items) := by
  have hsize : d.size ≠ 0 := by
    rw [Description.size_eq]
    exact mt List.length_eq_zero_iff.1 hne
  rw [← result_reports]
  exact if_neg hsize

end Session

/-- Whatever the choice of targets is, the same is loaded. -/
theorem prepare_of_load {m : Machine} {r : CheckRequest} {s : Session}
    (hload : Session.load m r = .ok s) (targets : TargetChoice) :
    Session.prepare m { r with targets := targets } = (s.chosen targets).map fun d => (s, d) := by
  have hchoice : Session.load m { r with targets := targets } = .ok s := hload
  rw [Session.prepare, hchoice]
  rfl

/-- Once the inputs are read, a demand comes down to a choice of targets and a check of them. -/
theorem check_of_load {m : Machine} {r : CheckRequest} {s : Session}
    (hload : Session.load m r = .ok s) (targets : TargetChoice) :
    check m { r with targets := targets } = match s.chosen targets with
      | .error f => .ofFailure f []
      | .ok d => s.check m d := by
  rw [check, prepare_of_load hload]
  cases s.chosen targets <;> rfl

/-! ## A sample

A compiler that puts nothing out, though it may complain, a database with one source, and a
description in which one label is listed with a toolchain and without it.
-/
namespace Sample

def recordedText : String :=
  "[\x7b\"directory\": \".\", \"file\": \"a.c\", \"command\": \"cc -Iinc a.c\"\x7d]"

def describedText : String :=
  "\x7b\"//:a\": \x7b\"type\": \"executable\", \"sources\": [\"a.c\"]\x7d, " ++
    "\"//:b\": \x7b\"sources\": [\"b.c\"]\x7d, \"//:b(//t:c)\": \x7b\x7d\x7d"

def files : FileSystem :=
  ⟨[(["w".toList], .directory), (["w".toList, "db".toList], .file recordedText),
    (["w".toList, "d".toList], .file describedText), (["cc".toList], .file "")], ["w".toList]⟩

/-- The machine with a compiler that puts nothing out but some errors. -/
def hostOf (stderr : List UInt8) : Machine where
  files := files
  searchPath := []
  executable? names := if names = ["cc".toList] then some fun _ _ => { stderr := stderr } else none

def host : Machine := hostOf []

def demand : CheckRequest where
  database := ⟨"db"⟩
  description := ⟨"d"⟩
  targets := .all
  clang? := some ⟨"/cc"⟩

def recordedEntry : DatabaseEntry where
  directory := ⟨"."⟩
  file := "a.c"
  command? := some "cc -Iinc a.c"

def compiled : CompileCommand := ⟨⟨"/w"⟩, "a.c", ["cc", "-Iinc", "a.c"]⟩

def built : Target := { type := "executable", sources := ["a.c"] }

/-- Nothing is recorded for the source of this target. -/
def lost : Target := { sources := ["b.c"] }

def bare : Target := {}

def listed : List (String × Target) :=
  [("//:a", built), ("//:b", lost), ("//:b(//t:c)", bare)]

def session : Session where
  analyzer :=
    { database := .ofList [compiled]
      overlay := .empty
      workspace := ⟨⟨"/w"⟩, none⟩
      argumentFilter := .ofConfig { clangPath? := some ⟨"/cc"⟩ } }
  clang := ⟨⟨"/cc"⟩, []⟩
  exclude := ⟨[]⟩
  description := .ofList listed

/-- The session in which some directories are excluded. -/
def excluding (exclude : ExcludeFilter) : Session := { session with exclude := exclude }

theorem excluding_nothing : excluding ⟨[]⟩ = session := rfl

theorem load_recordedText :
    Database.load files demand.database = .ok (.ofList [compiled]) := by
  have hread : files.read (Database.locate files demand.database) = .ok recordedText :=
    rfl
  have hentries : (Json.parse? recordedText).bind (Json.listOf? DatabaseEntry.ofJson?) =
      some [recordedEntry] := by
    decide +kernel
  exact Database.load_eq_ok hread (Database.parse_eq_ok hentries (by rfl))

/-- Whether a target states nothing but its type and its sources. -/
def isPlain (t : Target) : Bool :=
  t.includeDirs.isEmpty && t.defines.isEmpty && t.cflags.isEmpty && t.cflagsC.isEmpty &&
    t.cflagsCc.isEmpty && t.metadata.isEmpty

theorem eq_of_isPlain {t : Target} {type : String} {sources : List String} (htype : t.type = type)
    (hsources : t.sources = sources) (hplain : isPlain t = true) :
    t = { type := type, sources := sources } := by
  obtain ⟨_, _, includeDirs, defines, cflags, cflagsC, cflagsCc, ⟨⟨table, ordered⟩⟩⟩ := t
  subst htype hsources
  simp only [isPlain, Bool.and_eq_true, List.isEmpty_iff] at hplain
  obtain ⟨⟨⟨⟨⟨rfl, rfl⟩, rfl⟩, rfl⟩, rfl⟩, hempty⟩ := hplain
  cases table with
  | leaf => rfl
  | inner => cases hempty

theorem parse_describedText : Description.parse describedText = .ok (.ofList listed) := by
  -- metadata cannot be compared, so the targets are told by what they state
  have hread : ((do (← (← Json.parse? describedText).table?).mapM fun m => do
      some (m.1, ← Target.ofJson? m.2)) : Option (List (String × Target))).map
        (List.map fun x => (x.1, x.2.type, x.2.sources, isPlain x.2)) =
      some [("//:a", "executable", ["a.c"], true), ("//:b", "", ["b.c"], true),
        ("//:b(//t:c)", "", [], true)] := by
    decide +kernel
  obtain ⟨ts, hts, hstated⟩ := Option.map_eq_some_iff.1 hread
  simp only [List.map_eq_cons_iff, List.map_eq_nil_iff, Prod.mk.injEq] at hstated
  obtain ⟨⟨_, t⟩, _, rfl, ⟨rfl, ht⟩, ⟨_, u⟩, _, rfl, ⟨rfl, hu⟩, ⟨_, v⟩, _, rfl, ⟨rfl, hv⟩, rfl⟩ :=
    hstated
  obtain rfl : t = built := eq_of_isPlain ht.1 ht.2.1 ht.2.2
  obtain rfl : u = lost := eq_of_isPlain hu.1 hu.2.1 hu.2.2
  obtain rfl : v = bare := eq_of_isPlain hv.1 hv.2.1 hv.2.2
  exact Description.parse_eq_ok hts

theorem mem_listed_iff {label : String} {t : Target} :
    (label, t) ∈ session.description.items ↔ (label, t) ∈ listed := by
  have hdistinct : ∀ x ∈ listed, ∀ y ∈ listed, x.1 = y.1 → x.2 = y.2 := by simp [listed]
  exact Description.mem_items_ofList_iff hdistinct

/-- What is loaded depends on the machine by its files only, and a demand can name patterns. -/
theorem load_of_exclude (stderr : List UInt8) {patterns : List String} {exclude : ExcludeFilter}
    (hexclude : ExcludeFilter.ofPatterns patterns = .ok exclude) :
    Session.load (hostOf stderr) { demand with exclude := patterns } =
      .ok (excluding exclude) := by
  have hread : files.read demand.description = .ok describedText := rfl
  have hdescription : loadDescription (hostOf stderr) demand.description = .ok (.ofList listed) :=
    mapError_eq_ok_iff.2 (Description.load_eq_ok hread parse_describedText)
  have hworkspace : Workspace.discover files (buildDirectory files demand.database) =
      ⟨⟨"/w"⟩, none⟩ := by
    decide +kernel
  refine Session.load_eq_ok_iff.2 ⟨{}, _, exclude, ⟨⟨"/cc"⟩, []⟩, _, _, .empty, rfl, rfl, hexclude,
    rfl, load_recordedText, hdescription, Or.inl ⟨rfl, rfl⟩, ?_⟩
  exact congrArg (fun w => { session with
    analyzer := { session.analyzer with workspace := w }, exclude := exclude }) hworkspace.symm

theorem load_eq (stderr : List UInt8) : Session.load (hostOf stderr) demand = .ok session :=
  load_of_exclude stderr rfl

end Sample

end IncludeAudit.CommandLine
