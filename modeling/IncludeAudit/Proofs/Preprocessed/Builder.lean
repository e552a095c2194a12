import IncludeAudit.Preprocessed.Builder

/-! # Entering and leaving files

What a builder becomes when a file starts or ends, one equation for each case: with or without a
directive that waits for the file, with or without a file around the one that ends.  And when it has
a location for the current line.
-/
namespace IncludeAudit.Preprocessed

/-- The names that stand for no file are those in angle brackets. -/
theorem isPseudoFile_iff {file : String} :
    isPseudoFile file = true ↔ ∃ cs, file.toList = '<' :: (cs ++ ['>']) := by
  rw [isPseudoFile, Bool.and_eq_true, decide_eq_true_eq, decide_eq_true_eq]
  constructor
  · rintro ⟨hhead, hlast⟩
    obtain ⟨rest, hrest⟩ := List.head?_eq_some_iff.1 hhead
    rw [hrest] at hlast
    cases rest with
    | nil => cases hlast
    | cons c rest =>
      rw [List.getLast?_cons_cons] at hlast
      obtain ⟨cs, hcs⟩ := List.getLast?_eq_some_iff.1 hlast
      exact ⟨cs, hrest.trans (congrArg (List.cons '<') hcs)⟩
  · rintro ⟨cs, hcs⟩
    rw [hcs, ← List.cons_append, List.getLast?_concat]
    exact ⟨rfl, rfl⟩

namespace Builder

variable {b : Builder}

/-- Without a directive that waits the frame of the file is put on those that are open. -/
theorem enter_of_not_pending (h : b.pending = false) (file : Path) :
    b.enter file =
      { b with top := ⟨.region file, [], none⟩, below := b.top :: b.below, pending := false } := by
  simp only [enter.eq_def, h]

/-- The directive that waits moves out of its frame and gets the file. -/
theorem enter_of_pending (h : b.pending = true) {n : Node} {recent : List Node}
    (hr : b.top.recent = n :: recent) (file : Path) :
    b.enter file =
      { b with
        top := ⟨.region file, [], some (opened file n)⟩
        below := { b.top with recent := recent } :: b.below
        pending := false } := by
  simp only [enter.eq_def, h, hr]

/-- The main file does not end. -/
theorem leave_of_below_nil (h : b.below = []) : b.leave = { b with pending := false } := by
  simp only [leave.eq_def, h]

/-- What the innermost frame has become is put into the one around it. -/
theorem leave_of_below_cons {f : Frame} {below : List Frame} (h : b.below = f :: below) :
    b.leave = { b with top := f.push b.top.close, below := below, pending := false } := by
  simp only [leave.eq_def, h]

/-- A node gets a location just if the current file is a real one, and then it is the current line
of it. -/
theorem location?_eq_some_iff {l : Location} :
    b.location? = some l ↔ isPseudoFile b.file = false ∧ ⟨b.file, b.line⟩ = l := by
  rw [location?]
  cases isPseudoFile b.file <;> simp

/-- Only in a pseudo file does a node get no location. -/
theorem location?_eq_none_iff : b.location? = none ↔ isPseudoFile b.file = true := by
  rw [location?]
  cases isPseudoFile b.file <;> simp

end Builder

end IncludeAudit.Preprocessed
