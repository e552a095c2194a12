import IncludeAudit.Frontend.Skipped
import IncludeAudit.Proofs.Tree

/-! # What filling in does to each directive

Filling in walks over the tree and carries the files entered so far along.  The same walk over the
list of directives (`fillList`) gives the same directives (`fill_inclusions`), and there the carried
files are those of the directives passed (`Remembers`).  So what a directive becomes can be told
from the ones before it (`getElem?_inclusions_fillSkipped`).
-/
namespace IncludeAudit

/-- The directive without the file that was opened for it. -/
def Inclusion.unopened (d : Inclusion) : Inclusion := { d with file? := none }

namespace EnteredFiles

/-- A file is noted for one key, unless that key has one. -/
theorem file?_note (entered : EnteredFiles) (key k : SearchKey) (file : Path) :
    (entered.note key file).file? k =
      (entered.file? k).or (if key = k then some file else none) := by
  rw [note]
  by_cases hsome : (entered.file? key).isSome = true
  · rw [if_pos hsome]
    by_cases hk : key = k
    · subst hk
      obtain ⟨f, hf⟩ := Option.isSome_iff_exists.1 hsome
      rw [hf]
      rfl
    · rw [if_neg hk, Option.or_none]
  · rw [if_neg hsome]
    by_cases hk : key = k
    · subst hk
      rw [if_pos rfl, Option.not_isSome_iff_eq_none.1 hsome, file?,
        List.find?_cons_of_pos (by simp)]
      rfl
    · rw [if_neg hk, Option.or_none, file?, List.find?_cons_of_neg (by simpa using hk)]
      rfl

end EnteredFiles

namespace HeaderSearch

/-! ## The search of one directive -/

/-- The search of an `#include_next` goes on behind the directory of its file. -/
theorem ofDirective_of_next (s : HeaderSearch) (fs : FileSystem) {d : Inclusion}
    (h : d.keyword = .next) (includer : Path) :
    s.ofDirective fs d includer = s.resolveNext fs d.spelling d.angled includer := by
  rw [ofDirective, h]

/-- Any other directive is searched for in all directories. -/
theorem ofDirective_of_ne_next (s : HeaderSearch) (fs : FileSystem) {d : Inclusion}
    (h : d.keyword ≠ .next) (includer : Path) :
    s.ofDirective fs d includer = s.resolve fs d.spelling d.angled (some includer) := by
  unfold ofDirective
  split
  · contradiction
  · rfl

/-! ## The walk over a list -/

section

variable (s : HeaderSearch) (fs : FileSystem)

/-- What one directive becomes, and the files known after it. -/
def fillOne (entered : EnteredFiles) :
    Option Location × Inclusion → (Option Location × Inclusion) × EnteredFiles
  | (none, d) => ((none, d), entered)
  | (some location, d) =>
    let (d, entered) := s.fillDirective fs entered d ⟨location.file⟩
    ((some location, d), entered)

/-- What some directives become, one after the other. -/
def fillList (entered : EnteredFiles) :
    List (Option Location × Inclusion) → List (Option Location × Inclusion) × EnteredFiles
  | [] => ([], entered)
  | x :: rest =>
    let (x, entered) := s.fillOne fs entered x
    let (rest, entered) := fillList entered rest
    (x :: rest, entered)

theorem fillList_cons (entered : EnteredFiles) (x : Option Location × Inclusion)
    (xs : List (Option Location × Inclusion)) :
    s.fillList fs entered (x :: xs) =
      ((s.fillOne fs entered x).1 :: (s.fillList fs (s.fillOne fs entered x).2 xs).1,
        (s.fillList fs (s.fillOne fs entered x).2 xs).2) := rfl

theorem fillList_append (entered : EnteredFiles) (xs ys : List (Option Location × Inclusion)) :
    s.fillList fs entered (xs ++ ys) =
      ((s.fillList fs entered xs).1 ++ (s.fillList fs (s.fillList fs entered xs).2 ys).1,
        (s.fillList fs (s.fillList fs entered xs).2 ys).2) := by
  induction xs generalizing entered with
  | nil => rfl
  | cons x xs ih =>
    rw [List.cons_append, fillList_cons, ih, fillList_cons]
    rfl

/-- A node's own directive becomes what it becomes in the list. -/
theorem fillKind_inclusion (entered : EnteredFiles) (kind : NodeKind)
    (location? : Option Location) (children : List Node) :
    (((⟨(s.fillKind fs entered kind location?).1, location?, children⟩ : Node).inclusion?.map
        fun d => (location?, d)).toList, (s.fillKind fs entered kind location?).2) =
      s.fillList fs entered (((⟨kind, location?, children⟩ : Node).inclusion?.map
        fun d => (location?, d)).toList) := by
  cases kind with
  | inclusion d => cases location? <;> rfl
  | unit path => rfl
  | region path => rfl
  | define name => rfl

mutual

/-- **The walk over a tree is the walk over its directives.** -/
theorem fill_inclusions (entered : EnteredFiles) : (n : Node) →
    ((s.fill fs entered n).1.inclusions, (s.fill fs entered n).2) =
      s.fillList fs entered n.inclusions
  | ⟨kind, location?, children⟩ => by
    -- the children start with the files known after the node's own directive
    have hown := s.fillKind_inclusion fs entered kind location? children
    have hchildren := fillAll_inclusions (s.fillKind fs entered kind location?).2 children
    rw [Node.inclusions_eq, Node.inclusions_eq, fillList_append, ← hown, ← hchildren]
    rfl

/-- The same for some trees: what one of them leaves behind is where the next one starts. -/
theorem fillAll_inclusions (entered : EnteredFiles) : (ns : List Node) →
    (Node.inclusionsAll (s.fillAll fs entered ns).1, (s.fillAll fs entered ns).2) =
      s.fillList fs entered (Node.inclusionsAll ns)
  | [] => rfl
  | n :: ns => by
    have hn := fill_inclusions entered n
    have hns := fillAll_inclusions (s.fill fs entered n).2 ns
    rw [Node.inclusionsAll_cons, fillList_append, ← hn, ← hns, fillAll, Node.inclusionsAll_cons]

end

end

/-! ## Single directives -/

/-- The file of a directive that was entered, if its search has the given key. -/
def enteredFile? (key : SearchKey) : Option Location × Inclusion → Option Path
  | (none, _) => none
  | (some location, d) =>
    if SearchKey.ofDirective d ⟨location.file⟩ = key then d.file? else none

/-- The file that was first entered for a key in some directives. -/
def firstEntered? (key : SearchKey) (xs : List (Option Location × Inclusion)) : Option Path :=
  xs.findSome? (enteredFile? key)

/-- The files carried along are those of the directives passed. -/
def Remembers (passed : List (Option Location × Inclusion)) (entered : EnteredFiles) : Prop :=
  ∀ key, entered.file? key = firstEntered? key passed

theorem remembers_nil : Remembers [] [] := fun _ => rfl

variable {s : HeaderSearch} {fs : FileSystem}

/-- One directive more is remembered, unless its key is known already. -/
theorem Remembers.fillOne {passed : List (Option Location × Inclusion)} {entered : EnteredFiles}
    (h : Remembers passed entered) (x : Option Location × Inclusion) :
    Remembers (passed ++ [x]) (s.fillOne fs entered x).2 := by
  intro key
  have hfirst : firstEntered? key (passed ++ [x]) =
      (entered.file? key).or (enteredFile? key x) := by
    rw [h key, firstEntered?, firstEntered?, List.findSome?_append]
    congr 1
    cases hx : enteredFile? key x <;> simp [hx]
  rw [hfirst]
  obtain ⟨_ | location, d⟩ := x
  · -- nothing is noted for a directive outside of every file
    exact (Option.or_none ..).symm
  · cases hfile : d.file? with
    | none => simp [HeaderSearch.fillOne, fillDirective, enteredFile?, hfile]
    | some file =>
      simp only [HeaderSearch.fillOne, fillDirective, enteredFile?, hfile]
      exact entered.file?_note _ key file

/-- What a directive becomes after others: one that lacks its file gets the one that was first
entered for its search, or else the one that its search finds. -/
def filled (s : HeaderSearch) (fs : FileSystem) (passed : List (Option Location × Inclusion))
    (x : Option Location × Inclusion) : Option Location × Inclusion :=
  (x.1, { x.2 with
    file? := x.2.file?.or (x.1.bind fun location =>
      (firstEntered? (SearchKey.ofDirective x.2 ⟨location.file⟩) passed).or
        (s.ofDirective fs x.2 ⟨location.file⟩)) })

theorem fillOne_eq_filled {passed : List (Option Location × Inclusion)} {entered : EnteredFiles}
    (h : Remembers passed entered) (x : Option Location × Inclusion) :
    (s.fillOne fs entered x).1 = s.filled fs passed x := by
  obtain ⟨_ | location, d⟩ := x
  · simp [fillOne, filled]
  · cases hfile : d.file? with
    | none => simp [fillOne, filled, fillDirective, hfile, h _]
    | some file =>
      have hd : { d with file? := some file } = d := by rw [← hfile]
      simp only [fillOne, filled, fillDirective, hfile, Option.some_or, hd]

/-- Each directive is filled in from those before it. -/
theorem getElem?_fillList {passed : List (Option Location × Inclusion)} {entered : EnteredFiles}
    (h : Remembers passed entered) (xs : List (Option Location × Inclusion)) (i : Nat) :
    (s.fillList fs entered xs).1[i]? = xs[i]?.map (s.filled fs (passed ++ xs.take i)) := by
  induction xs generalizing passed entered i with
  | nil => rfl
  | cons x xs ih =>
    cases i with
    | zero =>
      rw [fillList_cons, List.getElem?_cons_zero, List.getElem?_cons_zero, Option.map_some,
        fillOne_eq_filled h, List.take_zero, List.append_nil]
    | succ i =>
      rw [fillList_cons, List.getElem?_cons_succ, List.getElem?_cons_succ, ih (h.fillOne x) i,
        List.append_assoc, List.take_succ_cons, List.singleton_append]

/-- **Each directive of a filled tree** is the one at its place in the tree before, filled in after
those that come before it. -/
theorem getElem?_inclusions_fillSkipped (s : HeaderSearch) (fs : FileSystem) (n : Node) (i : Nat) :
    (s.fillSkipped fs n).inclusions[i]? =
      n.inclusions[i]?.map (s.filled fs (n.inclusions.take i)) := by
  have hlist := congrArg Prod.fst (s.fill_inclusions fs [] n)
  rw [fillSkipped, show (s.fill fs [] n).1.inclusions = _ from hlist,
    getElem?_fillList remembers_nil, List.nil_append]

/-- Filling in changes nothing but files. -/
theorem map_unopened_inclusions_fillSkipped (s : HeaderSearch) (fs : FileSystem) (n : Node) :
    (s.fillSkipped fs n).inclusions.map (fun x => (x.1, x.2.unopened)) =
      n.inclusions.map fun x => (x.1, x.2.unopened) := by
  refine List.ext_getElem? fun i => ?_
  rw [List.getElem?_map, List.getElem?_map, getElem?_inclusions_fillSkipped, Option.map_map]
  rfl

end HeaderSearch

end IncludeAudit
