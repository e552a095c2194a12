import IncludeAudit.HeaderSearch
import IncludeAudit.Proofs.FileSystem
import IncludeAudit.Proofs.Path.Absolute

/-! # The first directory that has a header

A search goes through its directories in order and joins the first one that has the header with it
(`find?_eq`).  Two spellings of a directory have the same headers, unless one of them leads to a
path that is too long (`has_congr`).  Directories that repeat an earlier one in some spelling are
left out beforehand, and that changes nothing as long as no path is too long (`find?_has_distinct`),
or at least none of a directory that is repeated in a shorter spelling
(`find?_directories_ofDirectories`).
-/
namespace IncludeAudit.HeaderSearch

/-- The files below `workingDir` include that of a header in a directory. -/
def has (fs : FileSystem) (workingDir : Path) (header : String) (d : Path) : Bool :=
  fs.isFile (workingDir.join (d.join ⟨header⟩))

/-- What is found is the header in the first directory that has it. -/
theorem find?_eq (s : HeaderSearch) (fs : FileSystem) (dirs : List Path) (header : String) :
    s.find? fs dirs header =
      (dirs.find? (has fs s.workingDir header)).map fun d => d.join ⟨header⟩ := by
  have hhas : (fun p => fs.isFile (s.workingDir.join p)) ∘ (fun d : Path => d.join ⟨header⟩) =
      has fs s.workingDir header := by
    funext d
    rw [Function.comp_apply, has]
  rw [find?, List.find?_map, hhas]

/-! ## Spellings of a directory -/

variable {header : String}

/-- A directory has a header under each of its spellings, if they are all short enough or none
is. -/
theorem has_congr (fs : FileSystem) {workingDir d e : Path} (hde : d.components = e.components)
    (hfits : FileSystem.Fits (workingDir.join (d.join ⟨header⟩)) ↔
      FileSystem.Fits (workingDir.join (e.join ⟨header⟩))) :
    has fs workingDir header d = has fs workingDir header e := by
  rw [has, has]
  cases hheader : Path.isAbsolute ⟨header⟩ with
  | true => rw [Path.join_of_isAbsolute d hheader, Path.join_of_isAbsolute e hheader]
  | false =>
    by_cases hd : FileSystem.Fits (workingDir.join (d.join ⟨header⟩))
    · exact FileSystem.isFile_join_congr hde hheader hd (hfits.1 hd)
    · rw [FileSystem.isFile_of_not_fits hd, FileSystem.isFile_of_not_fits (mt hfits.2 hd)]

/-- Nothing is found in a directory whose name alone is too long. -/
theorem has_eq_false_of_length (fs : FileSystem) (workingDir : Path) {d : Path}
    (hrel : Path.isAbsolute ⟨header⟩ = false) (h : FileSystem.maxPath < d.chars.length) :
    has fs workingDir header d = false := by
  refine FileSystem.isFile_of_not_fits fun hfits => ?_
  have hlength := hfits.length_le
  have hinner := (Path.length_le_length_join (d := d) hrel).1
  have houter := Path.length_le_length_join_right workingDir (d.join ⟨header⟩)
  omega

/-! ## Repeated directories -/

/-- Some directories, continued by those of a list that repeat none before them. -/
def distinctFrom (found dirs : List Path) : List Path :=
  dirs.foldl (fun found d => if found.any (·.same d) then found else found ++ [d]) found

theorem distinct_eq (dirs : List Path) : distinct dirs = distinctFrom [] dirs := rfl

/-- A directory that was found before is passed over. -/
theorem distinctFrom_cons_of_any {found : List Path} {e : Path}
    (h : found.any (·.same e) = true) (dirs : List Path) :
    distinctFrom found (e :: dirs) = distinctFrom found dirs := by
  rw [distinctFrom, List.foldl_cons, if_pos h, distinctFrom]

theorem distinctFrom_cons_of_not_any {found : List Path} {e : Path}
    (h : found.any (·.same e) = false) (dirs : List Path) :
    distinctFrom found (e :: dirs) = distinctFrom (found ++ [e]) dirs := by
  rw [distinctFrom, List.foldl_cons, if_neg (by simp [h]), distinctFrom]

/-- What repeats an earlier directory is not missed if it would not be chosen before that one. -/
theorem find?_distinctFrom {P : Path → Bool} {found dirs : List Path}
    (h : (found ++ dirs).Pairwise fun d e => d.same e = true → P e = true → P d = true) :
    (distinctFrom found dirs).find? P = (found ++ dirs).find? P := by
  induction dirs generalizing found with
  | nil => rw [distinctFrom, List.foldl_nil, List.append_nil]
  | cons e dirs ih =>
    cases hany : found.any (·.same e) with
    | true =>
      have hsub : (found ++ dirs).Sublist (found ++ e :: dirs) :=
        (List.sublist_cons_self e dirs).append_left found
      rw [distinctFrom_cons_of_any hany, ih (h.sublist hsub), List.find?_append, List.find?_append]
      cases hfound : found.find? P with
      | some d => rfl
      | none =>
        -- an earlier spelling of `e` was not chosen, so `e` would not be either
        obtain ⟨d, hd, hsame⟩ := List.any_eq_true.1 hany
        have hde : P e = true → P d = true :=
          (List.pairwise_append.1 h).2.2 d hd e (List.mem_cons_self ..) hsame
        rw [List.find?_cons_of_neg (mt hde (List.find?_eq_none.1 hfound d hd))]
    | false =>
      have happend : found ++ e :: dirs = (found ++ [e]) ++ dirs := by
        rw [List.append_assoc, List.singleton_append]
      rw [distinctFrom_cons_of_not_any hany, happend]
      exact ih (happend ▸ h)

/-- The first directory with a property that an earlier spelling shares is found without the
repetitions. -/
theorem find?_distinct {P : Path → Bool} {dirs : List Path}
    (h : dirs.Pairwise fun d e => d.same e = true → P e = true → P d = true) :
    (distinct dirs).find? P = dirs.find? P :=
  find?_distinctFrom h

/-- If every candidate is short enough to be a file, repeated directories can be removed. -/
theorem find?_has_distinct (fs : FileSystem) (workingDir : Path)
    (hrel : Path.isAbsolute ⟨header⟩ = false) {dirs : List Path}
    (hfits : ∀ d ∈ dirs, FileSystem.Fits (workingDir.join (d.join ⟨header⟩))) :
    (distinct dirs).find? (has fs workingDir header) =
      dirs.find? (has fs workingDir header) := by
  refine find?_distinct (List.pairwise_of_forall_mem_list fun d hd e he hsame hhas => ?_)
  rw [← hhas]
  exact FileSystem.isFile_join_congr (of_decide_eq_true hsame) hrel (hfits d hd) (hfits e he)

/-- No directory leads to a path that is too long and is then repeated in a spelling that leads to
one short enough. -/
def FirstSpellingsFit (workingDir : Path) (header : String) (dirs : List Path) : Prop :=
  dirs.Pairwise fun d e => d.same e = true →
    FileSystem.Fits (workingDir.join (e.join ⟨header⟩)) →
    FileSystem.Fits (workingDir.join (d.join ⟨header⟩))

instance (workingDir : Path) (header : String) (dirs : List Path) :
    Decidable (FirstSpellingsFit workingDir header dirs) :=
  inferInstanceAs (Decidable (dirs.Pairwise _))

theorem FirstSpellingsFit.find?_has_distinct {workingDir : Path} {dirs : List Path}
    (h : FirstSpellingsFit workingDir header dirs) (fs : FileSystem) :
    (distinct dirs).find? (has fs workingDir header) =
      dirs.find? (has fs workingDir header) := by
  refine find?_distinct (h.imp fun {d e} hde hsame hhas => ?_)
  have hfits := FileSystem.fits_of_isFile hhas
  rw [has_congr fs (of_decide_eq_true hsame) ⟨fun _ => hfits, hde hsame⟩, hhas]

/-- **Repeated directories may as well be left out.**  Each list loses its own repetitions only. -/
theorem find?_directories_ofDirectories (fs : FileSystem) {workingDir : Path}
    {quotePaths includePaths : List Path} {angled : Bool}
    (hquotes : angled = false → FirstSpellingsFit workingDir header quotePaths)
    (hincludes : FirstSpellingsFit workingDir header includePaths) (includer? : Option Path) :
    ((ofDirectories workingDir quotePaths includePaths).directories angled includer?).find?
        (has fs workingDir header) =
      ((HeaderSearch.mk workingDir quotePaths includePaths).directories angled includer?).find?
        (has fs workingDir header) := by
  rw [directories, directories, ofDirectories]
  cases angled with
  | true => exact hincludes.find?_has_distinct fs
  | false =>
    rw [if_neg Bool.false_ne_true, if_neg Bool.false_ne_true, List.find?_append, List.find?_append,
      List.find?_append, List.find?_append, (hquotes rfl).find?_has_distinct fs,
      hincludes.find?_has_distinct fs]

end IncludeAudit.HeaderSearch

/-! ## A directory with spellings of any length -/

namespace IncludeAudit.Sample

/-- A spelling of `inc` with some separators at its end. -/
def slashed (n : Nat) : String := "inc" ++ String.ofList (List.replicate n '/')

variable {n : Nat}

theorem chars_slashed : Path.chars ⟨slashed n⟩ = ['i', 'n', 'c'] ++ List.replicate n '/' := by
  simp [Path.chars, slashed]

theorem components_slashed : Path.components ⟨slashed n⟩ = Path.components ⟨"inc"⟩ := by
  rw [Path.components, chars_slashed]
  exact Path.ofChars_append_replicate (by decide) n

end IncludeAudit.Sample
