import IncludeAudit.FileSystem
import IncludeAudit.Proofs.Path.Join

/-! # Files and the spelling of their paths

What a path leads to is found by its components.  Beside them only two things count: whether the
path ends like that of a directory, and how long it is (`isFile_congr`).  So two spellings of a
directory have the same files below them (`isFile_join_congr`), as long as the paths that result are
short enough for the system.
-/
namespace IncludeAudit

namespace Component

theorem mem_segments_iff {c : Char} (hc : c ≠ '/') {cs : List Char} :
    (∃ s ∈ segments cs, c ∈ s) ↔ c ∈ cs := by
  induction cs with
  | nil => simp [segments]
  | cons b cs ih =>
    rw [segments, List.mem_cons, ← ih]
    by_cases hb : b = '/'
    · simp [hb, hc]
    · rw [if_neg hb]
      cases hsegments : segments cs with
      | nil => exact absurd hsegments (segments_ne_nil cs)
      | cons first more => simp [or_assoc]

/-- A character that neither separates pieces nor makes up `.` and `..` stands in a name. -/
theorem mem_iff_mem_name {c : Char} (hslash : c ≠ '/') (hdot : c ≠ '.') {cs : List Char} :
    c ∈ cs ↔ ∃ n, name n ∈ ofChars cs ∧ c ∈ n := by
  have hname : ∀ {s}, c ∈ s → ofSegment? s = some (name s) := by
    intro s hs
    unfold ofSegment?
    split <;> simp_all
  rw [← mem_segments_iff hslash, ofChars_eq]
  constructor
  · rintro ⟨s, hs, hcs⟩
    exact ⟨s, List.mem_append_right _ (List.mem_filterMap.2 ⟨s, hs, hname hcs⟩), hcs⟩
  · rintro ⟨n, hn, hcn⟩
    rcases List.mem_append.1 hn with hstart | hsteps
    · -- what a text says by its start is no name
      unfold start at hstart
      split at hstart
      · simp at hstart
      · split at hstart <;> simp at hstart
    · obtain ⟨s, hs, hsn⟩ := List.mem_filterMap.1 hsteps
      obtain rfl : n = s := chars_of_ofSegment? hsn
      exact ⟨n, hs, hcn⟩

end Component

namespace FileSystem

variable {fs : FileSystem}

/-- A path that has few enough bytes to be followed. -/
def Fits (p : Path) : Prop := Text.byteCount p.chars ≤ maxPath

instance (p : Path) : Decidable (Fits p) :=
  inferInstanceAs (Decidable (Text.byteCount p.chars ≤ maxPath))

theorem Fits.length_le {p : Path} (h : Fits p) : p.chars.length ≤ maxPath := by
  refine Nat.le_trans ?_ h
  rw [Text.byteCount]
  induction p.chars with
  | nil => exact Nat.le_refl _
  | cons c cs ih =>
    rw [List.foldr_cons, List.length_cons, Nat.add_comm]
    exact Nat.add_le_add c.utf8Size_pos ih

/-- What is too long for a path is no file, whatever there is. -/
theorem isFile_of_not_fits {p : Path} (h : ¬ Fits p) : fs.isFile p = false := by
  rw [isFile, locate]
  split
  · rename_i hfile
    split at hfile
    · cases hfile
    · split at hfile
      · cases hfile
      · rw [if_pos (Nat.lt_of_not_le h)] at hfile
        cases hfile
  · rfl

theorem fits_of_isFile {p : Path} (h : fs.isFile p = true) : Fits p :=
  Decidable.byContradiction fun hlong => Bool.noConfusion ((isFile_of_not_fits hlong).symm.trans h)

/-- A path of ordinary text is located by following its components. -/
theorem locate_eq_follow {p : Path} (hnul : p.chars.contains '\x00' = false) (hne : p.chars ≠ [])
    (hfits : Fits p) (hask : asksForDirectory p = false) :
    fs.locate p = fs.follow fs.workingDirectory p.components := by
  have hempty : ¬ p.chars.isEmpty = true := mt List.isEmpty_iff.1 hne
  rw [locate, hnul, if_neg Bool.false_ne_true, if_neg hempty, if_neg (Nat.not_lt.2 hfits)]
  split
  · rename_i names contents hfollow
    rw [hask, if_neg Bool.false_ne_true, hfollow]
  · rfl

theorem contains_nul_congr {p q : Path} (h : p.components = q.components) :
    p.chars.contains '\x00' = q.chars.contains '\x00' := by
  rw [Bool.eq_iff_iff, List.contains_iff_mem, List.contains_iff_mem,
    Component.mem_iff_mem_name (by decide) (by decide),
    Component.mem_iff_mem_name (by decide) (by decide), ← Path.components, ← Path.components, h]

/-- Whether a path asks for a directory shows behind its last separator. -/
theorem asksForDirectory_congr {p q : Path} {cs ds es : List Char} (hp : p.chars = cs ++ '/' :: es)
    (hq : q.chars = ds ++ '/' :: es) : asksForDirectory p = asksForDirectory q := by
  obtain ⟨last, more, hlast⟩ : ∃ last more, (Component.segments es).reverse = last :: more :=
    List.exists_cons_of_ne_nil (by simpa using Component.segments_ne_nil es)
  have hdirectory : ∀ {r : Path} {bs : List Char}, r.chars = bs ++ '/' :: es →
      asksForDirectory r = decide (last = [] ∨ last = ['.']) := by
    intro r bs hr
    -- the pieces in front of the separator only matter in that there are some
    obtain ⟨b, rest, hb⟩ :
        ∃ b rest, more ++ (Component.segments bs).reverse = b :: rest :=
      List.exists_cons_of_ne_nil (by simp [Component.segments_ne_nil])
    rw [asksForDirectory, hr, Component.segments_append_slash, List.reverse_append, hlast,
      List.cons_append, hb]
  rw [hdirectory hp, hdirectory hq]

/-- Paths with the same components lead to the same file, if neither is too long. -/
theorem isFile_congr {p q : Path} (h : p.components = q.components)
    (hask : asksForDirectory p = asksForDirectory q) (hp : Fits p) (hq : Fits q) :
    fs.isFile p = fs.isFile q := by
  have hempty : p.chars.isEmpty = q.chars.isEmpty := by
    rw [Bool.eq_iff_iff, List.isEmpty_iff, List.isEmpty_iff, ← Path.components_eq_nil_iff, h,
      Path.components_eq_nil_iff]
  have hlocate : fs.locate p = fs.locate q := by
    rw [locate, locate, contains_nul_congr h, hempty, if_neg (Nat.not_lt.2 hp),
      if_neg (Nat.not_lt.2 hq), h, hask]
  rw [isFile, isFile, hlocate]

/-- **Two spellings of a directory have the same files.** -/
theorem isFile_join_congr {w d e s : Path} (hde : d.components = e.components)
    (hs : s.isAbsolute = false) (hd : Fits (w.join (d.join s))) (he : Fits (w.join (e.join s))) :
    fs.isFile (w.join (d.join s)) = fs.isFile (w.join (e.join s)) := by
  by_cases hempty : d.chars = []
  · have hempty' : e.chars = [] := by
      rwa [← Path.components_eq_nil_iff, ← hde, Path.components_eq_nil_iff]
    rw [Path.join_of_chars_eq_nil hempty, Path.join_of_chars_eq_nil hempty']
  · have hempty' : e.chars ≠ [] := by
      rwa [Ne, ← Path.components_eq_nil_iff, ← hde, Path.components_eq_nil_iff]
    obtain ⟨cs, hcs⟩ := Path.exists_chars_join hempty hs
    obtain ⟨ds, hds⟩ := Path.exists_chars_join hempty' hs
    obtain ⟨cs', hcs'⟩ := Path.exists_chars_join_of_chars w hcs
    obtain ⟨ds', hds'⟩ := Path.exists_chars_join_of_chars w hds
    exact isFile_congr (Path.components_join_congr_right (Path.components_join_congr_left hde hs))
      (asksForDirectory_congr hcs' hds') hd he

end FileSystem

end IncludeAudit
