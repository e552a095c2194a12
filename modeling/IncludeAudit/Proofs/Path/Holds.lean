import IncludeAudit.Proofs.Path.Parent

/-! # Files in directories

A directory holds the paths whose normal form starts with its own.  For a directory that folds to
something this is to be the beginning of the folded components (`holds_iff`), so it holds whatever
is joined to it by names (`holds_of_isSpelledIn`), and of two files with the same directory above
them it holds both or none (`holds_congr_of_parent`).
-/
namespace IncludeAudit

namespace Component

theorem foldl_push_names (ns : List (List Char)) (stack : List Component) :
    (ns.map name).foldl push stack = (ns.map name).reverse ++ stack := by
  induction ns generalizing stack with
  | nil => rfl
  | cons n ns ih =>
    rw [List.map_cons, List.foldl_cons, ih, List.reverse_cons, List.append_assoc]
    rfl

/-- Names are not folded away by what stands before them. -/
theorem fold_append_names (cs : List Component) (ns : List (List Char)) :
    fold (cs ++ ns.map name) = fold cs ++ ns.map name := by
  rw [fold, List.foldl_append, foldl_push_names, List.reverse_append, List.reverse_reverse, fold]

/-- Nothing folds away a name at the end. -/
theorem fold_concat_name (cs : List Component) (n : List Char) :
    fold (cs ++ [name n]) = fold cs ++ [name n] :=
  fold_append_names cs [n]

/-- A single `.` is folded away wherever it stands. -/
theorem here_not_mem_fold (cs : List Char) : here ∉ fold (ofChars cs) := by
  intro h
  rcases (isFolded_reverse_fold cs).steps_or_root with hsteps | ⟨ds, hds, hsteps⟩
  · exact (hsteps here (List.mem_reverse.2 h)).ne_here rfl
  · rw [List.reverse_reverse] at hds
    rw [hds] at h
    rcases List.mem_cons.1 h with hroot | h
    · cases hroot
    · exact (hsteps here h).ne_here rfl

end Component

namespace Path

open Component

/-- The normal form of `f` starts with that of the directory. -/
def holds (d f : Path) : Bool := d.normalize.isAncestorOf f.normalize

theorem fold_ne_nil_of_normalize {d : Path} (h : d.normalize ≠ ⟨"."⟩) :
    fold d.components ≠ [] := by
  intro hfold
  rw [normalize, hfold] at h
  exact h rfl

/-- A directory holds a file if its folded components come first among those of the file; the
current directory, which has none, holds nothing. -/
theorem holds_iff {d f : Path} (hf : fold f.components ≠ []) :
    d.holds f = true ↔ fold d.components ≠ [] ∧ fold d.components <+: fold f.components := by
  rw [holds, isAncestorOf, List.isPrefixOf_iff_prefix, components_normalize, components_normalize,
    orHere, orHere, if_neg hf]
  by_cases hd : fold d.components = []
  · -- the normal form is then `.`, and no other one starts with that
    rw [if_pos hd]
    constructor
    · intro hstarts
      exact absurd (hstarts.subset (List.mem_singleton_self here)) (here_not_mem_fold f.chars)
    · exact fun h => absurd hd h.1
  · rw [if_neg hd]
    exact ⟨fun h => ⟨hd, h⟩, fun h => h.2⟩

theorem holds_congr {d e f : Path} (h : d.components = e.components) : d.holds f = e.holds f := by
  rw [holds, holds, normalize_congr (congrArg fold h)]

/-! ## Files spelled in a directory -/

/-- The path is written as a directory joined with a path of names only. -/
def IsSpelledIn (f d : Path) : Prop :=
  ∃ r : Path, (∀ c ∈ r.components, ∃ n, c = .name n) ∧ f = d.join r

theorem exists_names {cs : List Component} (h : ∀ c ∈ cs, ∃ n, c = .name n) :
    ∃ ns : List (List Char), cs = ns.map name := by
  induction cs with
  | nil => exact ⟨[], rfl⟩
  | cons c cs ih =>
    obtain ⟨hc, hcs⟩ := List.forall_mem_cons.1 h
    obtain ⟨n, rfl⟩ := hc
    obtain ⟨ns, rfl⟩ := ih hcs
    exact ⟨n :: ns, rfl⟩

/-- Names alone make a relative path. -/
theorem isAbsolute_of_names {r : Path} (h : ∀ c ∈ r.components, ∃ n, c = .name n) :
    r.isAbsolute = false := by
  rw [← Bool.not_eq_true, isAbsolute_iff]
  intro hroot
  obtain ⟨n, hn⟩ := h root (List.mem_of_mem_head? hroot)
  cases hn

/-- The spelling of the directory is there to be read in that of the file. -/
theorem IsSpelledIn.starts {f d : Path} (h : f.IsSpelledIn d) : d.chars <+: f.chars := by
  obtain ⟨r, hnames, rfl⟩ := h
  rw [chars_join d (isAbsolute_of_names hnames)]
  exact List.prefix_append ..

/-- A directory that does not fold to `.` holds the files that are spelled in it. -/
theorem holds_of_isSpelledIn {d f : Path} (hd : d.normalize ≠ ⟨"."⟩) (h : f.IsSpelledIn d) :
    d.holds f = true := by
  obtain ⟨r, hnames, rfl⟩ := h
  have hrel := isAbsolute_of_names hnames
  have hsteps : steps r.chars = r.components := by
    rw [steps_eq_filter hrel, List.filter_eq_self]
    intro c hc
    obtain ⟨n, rfl⟩ := hnames c hc
    rfl
  obtain ⟨ns, hns⟩ := exists_names hnames
  have hfold : fold (d.join r).components = fold d.components ++ ns.map name := by
    rw [fold_components_join d hrel, hsteps, hns, fold_append_names]
  have hne := fold_ne_nil_of_normalize hd
  rw [holds_iff (by rw [hfold]; simp [hne]), hfold]
  exact ⟨hne, List.prefix_append ..⟩

/-! ## Files of one directory -/

/-- Apart from the file itself, what holds a file is seen from the directory above it. -/
theorem holds_iff_of_components {d f p : Path} {n : List Char}
    (hf : f.components = p.components ++ [.name n]) (hd : d.normalize ≠ f.normalize) :
    d.holds f = true ↔ fold d.components ≠ [] ∧ fold d.components <+: fold p.components := by
  have hfold : fold f.components = fold p.components ++ [name n] := by
    rw [hf, fold_concat_name]
  rw [holds_iff (by rw [hfold]; simp), hfold, List.prefix_concat_iff, ← hfold]
  refine and_congr_right fun _ => or_iff_right fun heq => hd (normalize_congr heq)

theorem holds_congr_of_parent {d f g p q : Path} {m n : List Char}
    (hf : f.components = p.components ++ [.name m]) (hg : g.components = q.components ++ [.name n])
    (hpq : p.components = q.components) (hdf : d.normalize ≠ f.normalize)
    (hdg : d.normalize ≠ g.normalize) : d.holds f = d.holds g := by
  rw [Bool.eq_iff_iff, holds_iff_of_components hf hdf, holds_iff_of_components hg hdg, hpq]

end Path

end IncludeAudit
