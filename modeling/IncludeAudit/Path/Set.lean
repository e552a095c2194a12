import IncludeAudit.Path.Order

/-! # Sets of paths

A set lists its paths in path order. Two spellings with the same components are one element: an
insertion keeps the spelling that is there, and a set made from a list keeps the last one of the
list.
-/
namespace IncludeAudit

/-- A set of paths, listed in strictly increasing order. -/
structure PathSet where
  toList : List Path
  sorted : toList.Pairwise fun p q => compare p q = .lt
deriving DecidableEq

namespace PathSet

/-- The set without elements. -/
def empty : PathSet := ⟨[], .nil⟩

instance : EmptyCollection PathSet := ⟨empty⟩
instance : Inhabited PathSet := ⟨empty⟩

/-- The element of a set that has the components of `p`, in the spelling the set keeps. -/
def find? (s : PathSet) (p : Path) : Option Path := s.toList.find? fun q => p.same q

/-- Whether some spelling of `p` is an element. -/
def contains (s : PathSet) (p : Path) : Bool := s.toList.any fun q => p.same q

/-- A list in path order with one path more, unless it holds a spelling of that path. -/
def insertInto (p : Path) : List Path → List Path
  | [] => [p]
  | q :: rest => match compare p q with
    | .lt => p :: q :: rest
    | .eq => q :: rest
    | .gt => q :: insertInto p rest

theorem mem_insertInto {p q : Path} {l : List Path} (h : q ∈ insertInto p l) : q = p ∨ q ∈ l := by
  fun_induction insertInto p l with
  | case1 => exact Or.inl (List.mem_singleton.1 h)
  | case2 => exact List.mem_cons.1 h
  | case3 => exact Or.inr h
  | case4 r rest _ ih =>
    rcases List.mem_cons.1 h with rfl | h
    · exact Or.inr (List.mem_cons_self ..)
    · exact (ih h).imp_right (List.mem_cons_of_mem r)

theorem pairwise_insertInto {p : Path} {l : List Path}
    (h : l.Pairwise fun p q => compare p q = .lt) :
    (insertInto p l).Pairwise fun p q => compare p q = .lt := by
  fun_induction insertInto p l with
  | case1 => simp
  | case2 q rest hlt =>
    refine List.pairwise_cons.2 ⟨fun r hr => ?_, h⟩
    rcases List.mem_cons.1 hr with rfl | hr
    · exact hlt
    · exact Std.TransCmp.lt_trans hlt ((List.pairwise_cons.1 h).1 r hr)
  | case3 => exact h
  | case4 q rest hgt ih =>
    obtain ⟨hq, hrest⟩ := List.pairwise_cons.1 h
    refine List.pairwise_cons.2 ⟨fun r hr => ?_, ih hrest⟩
    rcases mem_insertInto hr with rfl | hr
    · exact Std.OrientedCmp.gt_iff_lt.1 hgt
    · exact hq r hr

/-- The set with `p` added. -/
def insert (s : PathSet) (p : Path) : PathSet :=
  ⟨insertInto p s.toList, pairwise_insertInto s.sorted⟩

/-- The set with all of a list added in turn. -/
def insertAll (s : PathSet) (ps : List Path) : PathSet := ps.foldl insert s

/-- The set of the paths of a list, each in the last of its spellings. -/
def ofList (ps : List Path) : PathSet := insertAll ∅ ps.reverse

/-- The elements of `s` that have no spelling in `t`. -/
def diff (s t : PathSet) : PathSet :=
  ⟨s.toList.filter fun p => !t.contains p, s.sorted.filter _⟩

end PathSet

end IncludeAudit
