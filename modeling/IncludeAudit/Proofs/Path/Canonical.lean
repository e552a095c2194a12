import IncludeAudit.Proofs.Path.Holds
import IncludeAudit.Proofs.Path.Set
import Mathlib.Data.Set.Finite.Basic

/-! # What a normal form tells

The texts of normal forms are described without folding (`IsCanonicalText`), and a path is its own
normal form just if it is written like that (`isNormal_iff`).  Folding is neutral behind every
directory (`fold_append_fold`), so a path and its normal form are the same place from everywhere.
Conversely a directory that is deep enough, and named like nothing in the path, shows how many `..`
the path starts with and which names follow (`readBelow_fold`).  Hence two paths have the same
normal form just if no absolute directory tells them apart (`normalize_canonical`).
-/
namespace IncludeAudit

namespace Component

/-! ## Folding behind something -/

theorem foldl_push_reverse_cons (below stack : List Component) (c : Component) :
    (c :: stack).reverse.foldl push below = push (stack.reverse.foldl push below) c := by
  rw [List.reverse_cons, List.foldl_append]
  rfl

/-- A component may be folded into a stack before or after the stack is put behind something. -/
theorem foldl_push_push (below stack : List Component) (c : Component) :
    (push stack c).reverse.foldl push below = push (stack.reverse.foldl push below) c := by
  cases c with
  | root => exact foldl_push_reverse_cons below stack root
  | here => rfl
  | name n => exact foldl_push_reverse_cons below stack (name n)
  | up =>
    match stack with
    | [] => rfl
    | here :: rest => exact foldl_push_reverse_cons below (here :: rest) up
    | up :: rest => exact foldl_push_reverse_cons below (up :: rest) up
    | root :: rest =>
      have hrest := foldl_push_reverse_cons below rest root
      rw [hrest]
      exact hrest
    | name n :: rest =>
      rw [foldl_push_reverse_cons]
      rfl

theorem foldl_push_foldl_push (below stack cs : List Component) :
    (cs.foldl push stack).reverse.foldl push below =
      cs.foldl push (stack.reverse.foldl push below) := by
  induction cs generalizing stack with
  | nil => rfl
  | cons c cs ih => rw [List.foldl_cons, ih, foldl_push_push, List.foldl_cons]

/-- **Folding is neutral behind everything**: what it cancels would have been cancelled there. -/
theorem fold_append_fold (bs cs : List Component) : fold (bs ++ fold cs) = fold (bs ++ cs) := by
  have hstack : (fold cs).foldl push (bs.foldl push []) = cs.foldl push (bs.foldl push []) :=
    foldl_push_foldl_push (bs.foldl push []) [] cs
  rw [fold, List.foldl_append, hstack, ← List.foldl_append, fold]

/-! ## The shape of folded components -/

/-- Components with nothing left to fold, first one first: names behind the root, or behind a run of
`..`. -/
inductive IsCanonical : List Component → Prop
  | absolute {ns : List (List Char)} (hns : ∀ n ∈ ns, IsStep (name n)) :
    IsCanonical (root :: ns.map name)
  | relative {ups : Nat} {ns : List (List Char)} (hns : ∀ n ∈ ns, IsStep (name n)) :
    IsCanonical (List.replicate ups up ++ ns.map name)

theorem IsCanonical.concat_name {cs : List Component} (h : IsCanonical cs) {n : List Char}
    (hn : IsStep (name n)) : IsCanonical (cs ++ [name n]) := by
  have hconcat : ∀ {ns : List (List Char)}, (∀ m ∈ ns, IsStep (name m)) →
      ∀ m ∈ ns ++ [n], IsStep (name m) := fun hns =>
    List.forall_mem_append.2 ⟨hns, List.forall_mem_singleton.2 hn⟩
  cases h with
  | @absolute ns hns =>
    have happend : root :: ns.map name ++ [name n] = root :: (ns ++ [n]).map name := by simp
    exact happend ▸ .absolute (hconcat hns)
  | @relative ups ns hns =>
    have happend : List.replicate ups up ++ ns.map name ++ [name n] =
        List.replicate ups up ++ (ns ++ [n]).map name := by simp
    exact happend ▸ .relative (hconcat hns)

theorem isCanonical_root : IsCanonical [root] :=
  @IsCanonical.absolute [] fun _ hn => absurd hn List.not_mem_nil

theorem isCanonical_ups (ups : Nat) : IsCanonical (List.replicate ups up) :=
  List.append_nil (List.replicate ups up) ▸
    @IsCanonical.relative ups [] fun _ hn => absurd hn List.not_mem_nil

theorem IsFolded.isCanonical {stack : List Component} (h : IsFolded stack) :
    IsCanonical stack.reverse := by
  induction stack with
  | nil => exact isCanonical_ups 0
  | cons c stack ih =>
    rw [List.reverse_cons]
    cases c with
    | root =>
      obtain rfl : stack = [] := h
      exact isCanonical_root
    | here => exact h.elim
    | up =>
      have hups : stack = List.replicate stack.length up := List.eq_replicate_of_mem h
      rw [hups, List.reverse_replicate, ← List.replicate_succ']
      exact isCanonical_ups _
    | name n => exact (ih h.2).concat_name h.1

theorem isCanonical_fold (cs : List Char) : IsCanonical (fold (ofChars cs)) := by
  have h := (isFolded_reverse_fold cs).isCanonical
  rwa [List.reverse_reverse] at h

theorem IsCanonical.isFolded_reverse {cs : List Component} (h : IsCanonical cs) :
    IsFolded cs.reverse := by
  cases h with
  | @absolute ns hns =>
    have hfolded : IsFolded ((ns.map name).foldl push [root]) :=
      IsFolded.foldl_push rfl (List.forall_mem_map.2 hns)
    rwa [foldl_push_names, ← List.reverse_cons] at hfolded
  | @relative ups ns hns =>
    have hups : IsFolded (List.replicate ups up) :=
      isFolded_of_forall_up fun _ hc => List.eq_of_mem_replicate hc
    have hfolded := hups.foldl_push (List.forall_mem_map.2 hns)
    rwa [foldl_push_names, ← List.reverse_replicate, ← List.reverse_append] at hfolded

theorem IsCanonical.fold_eq {cs : List Component} (h : IsCanonical cs) : fold cs = cs := by
  have hfold := foldl_push_reverse h.isFolded_reverse
  rw [List.reverse_reverse] at hfold
  rw [fold, hfold, List.reverse_reverse]

/-! ## The text of folded components -/

/-- A piece between separators that names something. -/
def IsName (n : List Char) : Prop := n ≠ [] ∧ n ≠ ['.'] ∧ n ≠ ['.', '.'] ∧ '/' ∉ n

theorem isStep_name_iff {n : List Char} : IsStep (name n) ↔ IsName n := by
  rw [IsStep, chars]
  constructor
  · rintro ⟨hseg, hslash⟩
    refine ⟨?_, ?_, ?_, hslash⟩ <;> rintro rfl <;> cases hseg
  · rintro ⟨hempty, hdot, hdots, hslash⟩
    refine ⟨?_, hslash⟩
    unfold ofSegment?
    split
    · contradiction
    · contradiction
    · contradiction
    · rfl

theorem joinSegments_eq_intercalate (ss : List (List Char)) :
    joinSegments ss = ['/'].intercalate ss := by
  fun_induction joinSegments ss with
  | case1 => rfl
  | case2 s => simp
  | case3 s t rest ih => simp [ih]

theorem map_chars_name (ns : List (List Char)) : (ns.map name).map chars = ns := by
  rw [List.map_map]
  exact List.map_id ns

theorem renderFolded_absolute (ns : List (List Char)) :
    renderFolded (root :: ns.map name) = '/' :: joinSegments ns := by
  show '/' :: joinSegments ((ns.map name).map chars) = '/' :: joinSegments ns
  rw [map_chars_name]

theorem renderFolded_relative {ups : Nat} {ns : List (List Char)} (hne : 0 < ups ∨ ns ≠ []) :
    renderFolded (List.replicate ups up ++ ns.map name) =
      joinSegments (List.replicate ups ['.', '.'] ++ ns) := by
  have hchars : (List.replicate ups up ++ ns.map name).map chars =
      List.replicate ups ['.', '.'] ++ ns := by
    rw [List.map_append, List.map_replicate, map_chars_name]
    rfl
  rw [← hchars]
  cases ups with
  | succ ups => exact renderFolded_cons_of_ne_root (by simp)
  | zero =>
    obtain ⟨n, ns, rfl⟩ := List.exists_cons_of_ne_nil (hne.resolve_left (Nat.lt_irrefl 0))
    exact renderFolded_cons_of_ne_root (by simp)

end Component

namespace Path

open Component

/-- The texts of normal forms: `.`, `/`, and pieces with single separators between them.  The pieces
are names, and in front of them a relative path may have some `..` and an absolute one a `/`. -/
inductive IsCanonicalText : List Char → Prop
  | here : IsCanonicalText ['.']
  | root : IsCanonicalText ['/']
  | absolute {ns : List (List Char)} (hne : ns ≠ []) (hns : ∀ n ∈ ns, IsName n) :
    IsCanonicalText ('/' :: ['/'].intercalate ns)
  | relative {ups : Nat} {ns : List (List Char)} (hne : 0 < ups ∨ ns ≠ [])
    (hns : ∀ n ∈ ns, IsName n) :
    IsCanonicalText (['/'].intercalate (List.replicate ups ['.', '.'] ++ ns))

/-- What is written for canonical components. -/
theorem isCanonicalText_renderFolded {cs : List Component} (h : IsCanonical cs) :
    IsCanonicalText (renderFolded cs) := by
  cases h with
  | @absolute ns hns =>
    have hnames : ∀ n ∈ ns, IsName n := fun n hn => isStep_name_iff.1 (hns n hn)
    rw [renderFolded_absolute, joinSegments_eq_intercalate]
    by_cases hne : ns = []
    · subst hne
      exact .root
    · exact .absolute hne hnames
  | @relative ups ns hns =>
    have hnames : ∀ n ∈ ns, IsName n := fun n hn => isStep_name_iff.1 (hns n hn)
    by_cases hne : 0 < ups ∨ ns ≠ []
    · rw [renderFolded_relative hne, joinSegments_eq_intercalate]
      exact .relative hne hnames
    · -- nothing is left, which is written as a dot
      obtain ⟨hups, hns⟩ := not_or.1 hne
      obtain rfl : ups = 0 := Nat.eq_zero_of_not_pos hups
      obtain rfl : ns = [] := not_not.1 hns
      exact .here

/-- Canonical texts are written for nothing else. -/
theorem IsCanonicalText.exists_renderFolded {cs : List Char} (h : IsCanonicalText cs) :
    ∃ folded, IsCanonical folded ∧ renderFolded folded = cs := by
  cases h with
  | here => exact ⟨[], isCanonical_ups 0, rfl⟩
  | root => exact ⟨[.root], isCanonical_root, rfl⟩
  | @absolute ns _ hns =>
    refine ⟨_, .absolute fun n hn => isStep_name_iff.2 (hns n hn), ?_⟩
    rw [renderFolded_absolute, joinSegments_eq_intercalate]
  | @relative ups ns hne hns =>
    have hsteps : ∀ n ∈ ns, IsStep (name n) := fun n hn => isStep_name_iff.2 (hns n hn)
    refine ⟨List.replicate ups .up ++ ns.map name, .relative hsteps, ?_⟩
    rw [renderFolded_relative hne, joinSegments_eq_intercalate]

/-- **A path is its own normal form just if it is written like one.** -/
theorem isNormal_iff {p : Path} : p.IsNormal ↔ IsCanonicalText p.chars := by
  constructor
  · intro h
    have hchars : p.chars = renderFolded (fold p.components) := by
      rw [← chars_ofChars (renderFolded _), ← normalize, h]
    exact hchars ▸ isCanonicalText_renderFolded (isCanonical_fold p.chars)
  · intro h
    obtain ⟨folded, hfolded, hchars⟩ := h.exists_renderFolded
    have hcomponents : p.components = orHere folded := by
      rw [components, ← hchars, ofChars_renderFolded hfolded.isFolded_reverse]
    rw [IsNormal, normalize, hcomponents, fold_orHere, hfolded.fold_eq, hchars, ofChars_chars]

end Path

namespace Component

/-! ## What a deep directory shows -/

/-- A step puts itself on the stack, takes the last one back, or does nothing. -/
theorem mem_of_mem_push {stack : List Component} {c d : Component} (h : d ∈ push stack c) :
    d = c ∨ d ∈ stack := by
  cases c with
  | root | name => exact List.mem_cons.1 h
  | here => exact Or.inr h
  | up =>
    match stack, h with
    | [], h => exact List.mem_cons.1 h
    | here :: _, h => exact List.mem_cons.1 h
    | up :: _, h => exact List.mem_cons.1 h
    | root :: _, h => exact Or.inr h
    | name n :: _, h => exact Or.inr (List.mem_cons_of_mem (name n) h)

/-- Folding adds nothing. -/
theorem mem_of_mem_fold {cs : List Component} {d : Component} (h : d ∈ fold cs) : d ∈ cs := by
  have hstack : ∀ {stack : List Component}, d ∈ cs.foldl push stack → d ∈ stack ∨ d ∈ cs := by
    clear h
    induction cs with
    | nil => exact Or.inl
    | cons c cs ih =>
      intro stack h
      rcases ih h with h | h
      · exact (mem_of_mem_push h).elim (fun h => Or.inr (h ▸ List.mem_cons_self ..)) Or.inl
      · exact Or.inr (List.mem_cons_of_mem c h)
  exact (hstack (List.mem_reverse.1 h)).resolve_left List.not_mem_nil

/-- No step takes the root back, since there is nothing above it. -/
theorem root_mem_push {stack : List Component} (h : root ∈ stack) (c : Component) :
    root ∈ push stack c := by
  cases c with
  | root | name => exact List.mem_cons_of_mem _ h
  | here => exact h
  | up =>
    match stack, h with
    | here :: _, h => exact List.mem_cons_of_mem up h
    | up :: _, h => exact List.mem_cons_of_mem up h
    | root :: _, h => exact h
    | name n :: _, h => exact List.mem_of_ne_of_mem (by simp) h

/-- The root is never folded away. -/
theorem root_mem_fold_cons (cs : List Component) : root ∈ fold (root :: cs) := by
  have hstack : ∀ {stack : List Component}, root ∈ stack → root ∈ cs.foldl push stack := by
    induction cs with
    | nil => exact id
    | cons c cs ih => exact fun h => ih (root_mem_push h c)
  exact List.mem_reverse.2 (hstack (List.mem_singleton_self root))

/-- There is always a name that does not occur. -/
theorem exists_name_not_mem (cs : List Component) : ∃ n, IsStep (name n) ∧ name n ∉ cs := by
  have hinjective : Function.Injective fun k => name (List.replicate (k + 1) 'x') := by
    intro k l h
    simpa using congrArg List.length (Component.name.inj h)
  obtain ⟨_, ⟨k, rfl⟩, hk⟩ :=
    (Set.infinite_range_of_injective hinjective).exists_notMem_finset cs.toFinset
  refine ⟨_, isStep_name_iff.2 ?_, mt List.mem_toFinset.2 hk⟩
  simp [IsName, List.replicate_succ]

/-- Each `..` takes back one directory. -/
theorem foldl_push_ups (ups depth : Nat) (n : List Char) (below : List Component) :
    (List.replicate ups up).foldl push (List.replicate (depth + ups) (name n) ++ below) =
      List.replicate depth (name n) ++ below := by
  induction ups with
  | zero => rfl
  | succ ups ih => exact ih

/-- Below enough directories every `..` finds one to take back, and the names stay behind those that
are left. -/
theorem fold_below {ups depth : Nat} (h : ups ≤ depth) (n : List Char) (ns : List (List Char)) :
    fold (root :: List.replicate depth (name n) ++ (List.replicate ups up ++ ns.map name)) =
      root :: List.replicate (depth - ups) (name n) ++ ns.map name := by
  have hdirs : (root :: List.replicate depth (name n)).foldl push [] =
      List.replicate depth (name n) ++ [root] := by
    have hnames := foldl_push_names (List.replicate depth n) [root]
    rwa [List.map_replicate, List.reverse_replicate] at hnames
  obtain ⟨kept, rfl⟩ := Nat.exists_eq_add_of_le' h
  rw [← List.append_assoc, fold_append_names, fold, List.foldl_append, hdirs, foldl_push_ups,
    Nat.add_sub_cancel, List.reverse_append, List.reverse_replicate]
  rfl

/-- What folds to some components below `depth` directories that are all named `n`.  As many of them
as are missing were taken back by `..`; if all are missing, the components do not lie below them. -/
def readBelow (depth : Nat) (n : List Char) (cs : List Component) : List Component :=
  if name n ∈ cs then
    List.replicate (depth - cs.count (name n)) up ++ cs.drop (cs.count (name n) + 1)
  else cs

/-- **Below enough directories of another name, relative components can be read back.** -/
theorem readBelow_fold {depth : Nat} {n : List Char} {cs : List Component} (hcs : IsCanonical cs)
    (hroot : root ∉ cs) (hn : name n ∉ cs) (hdepth : cs.length < depth) :
    readBelow depth n (fold (root :: List.replicate depth (name n) ++ cs)) = cs := by
  cases hcs with
  | absolute => exact absurd (List.mem_cons_self ..) hroot
  | @relative ups ns _ =>
    have hups : ups < depth := by
      rw [List.length_append, List.length_replicate] at hdepth
      omega
    have hns : name n ∉ ns.map name := fun h => hn (List.mem_append_right _ h)
    have hcount : (root :: List.replicate (depth - ups) (name n) ++ ns.map name).count (name n) =
        depth - ups := by
      rw [List.cons_append, List.count_cons_of_ne (by simp), List.count_append,
        List.count_replicate_self, List.count_eq_zero_of_not_mem hns, Nat.add_zero]
    have hdrop : (root :: List.replicate (depth - ups) (name n) ++ ns.map name).drop
        (depth - ups + 1) = ns.map name :=
      List.drop_left' (by rw [List.length_cons, List.length_replicate])
    have hmem : name n ∈ root :: List.replicate (depth - ups) (name n) ++ ns.map name := by
      rw [← List.count_pos_iff, hcount]
      omega
    rw [fold_below (Nat.le_of_lt hups), readBelow, if_pos hmem, hcount, hdrop,
      Nat.sub_sub_self (Nat.le_of_lt hups)]

end Component

namespace Path

open Component

/-- The directory `depth` levels below the root that is reached by one name only. -/
def below (depth : Nat) (n : List Char) : Path :=
  ofChars ('/' :: joinSegments (List.replicate depth n))

theorem isAbsolute_below (depth : Nat) (n : List Char) : (below depth n).isAbsolute = true := by
  rw [isAbsolute, below, chars_ofChars]
  rfl

/-- The directory has its name as often as it is deep. -/
theorem components_below (depth : Nat) {n : List Char} (hn : IsStep (name n)) :
    (below depth n).components = root :: List.replicate depth (name n) := by
  have hsteps : ∀ c ∈ List.replicate depth (name n), IsStep c := fun c hc =>
    (List.eq_of_mem_replicate hc).symm ▸ hn
  have hjoin := steps_join_chars hsteps
  rw [List.map_replicate] at hjoin
  rw [components, below, chars_ofChars, ofChars_slash]
  exact congrArg (root :: ·) hjoin

/-! ## Normal forms and where they lead -/

theorem normalize_eq_iff {p q : Path} :
    p.normalize = q.normalize ↔ fold p.components = fold q.components := by
  refine ⟨fun h => ?_, normalize_congr⟩
  rw [← fold_components_normalize p, h, fold_components_normalize]

/-- Folding keeps the root and adds none, so it shows whether a path is absolute. -/
theorem isAbsolute_iff_root_mem_fold {p : Path} :
    p.isAbsolute = true ↔ root ∈ fold p.components := by
  constructor
  · intro h
    obtain ⟨cs, hcs⟩ := List.head?_eq_some_iff.1 (isAbsolute_iff.1 h)
    exact hcs ▸ root_mem_fold_cons cs
  · intro h
    cases hrel : p.isAbsolute with
    | true => rfl
    | false =>
      rw [fold_components_of_relative hrel] at h
      exact absurd rfl (isStep_of_mem_steps (mem_of_mem_fold h)).ne_root

/-- What a path is from a directory depends on its folded components alone. -/
theorem fold_components_absolutize (d p : Path) :
    fold (d.absolutize p).components =
      if root ∈ fold p.components then fold p.components
      else fold (d.components ++ fold p.components) := by
  rw [absolutize_eq, fold_components_normalize]
  split
  · rename_i h
    rw [join_of_isAbsolute d (isAbsolute_iff_root_mem_fold.2 h)]
  · rename_i h
    have hrel : p.isAbsolute = false := by
      rw [← Bool.not_eq_true]
      exact mt isAbsolute_iff_root_mem_fold.1 h
    rw [fold_components_join d hrel, fold_components_of_relative hrel, fold_append_fold]

/-- Paths with the same normal form are the same place from everywhere. -/
theorem absolutize_congr {p q : Path} (h : p.normalize = q.normalize) (d : Path) :
    d.absolutize p = d.absolutize q := by
  rw [← normalize_absolutize d p, ← normalize_absolutize d q, normalize_eq_iff,
    fold_components_absolutize, fold_components_absolutize, normalize_eq_iff.1 h]

/-- From a deep directory the folded components of a path can be read off where it leads. -/
theorem readBelow_absolutize {p : Path} {depth : Nat} {n : List Char} (hname : IsStep (name n))
    (hn : name n ∉ fold p.components) (hdepth : (fold p.components).length < depth) :
    readBelow depth n (fold ((below depth n).absolutize p).components) = fold p.components := by
  rw [fold_components_absolutize]
  split
  · exact if_neg hn
  · rename_i hroot
    rw [components_below depth hname]
    exact readBelow_fold (isCanonical_fold p.chars) hroot hn hdepth

/-- Paths that no absolute directory tells apart have the same normal form. -/
theorem normalize_eq_of_absolutize {p q : Path}
    (h : ∀ base : Path, base.isAbsolute = true →
      (base.absolutize p).components = (base.absolutize q).components) :
    p.normalize = q.normalize := by
  obtain ⟨n, hname, hn⟩ := exists_name_not_mem (fold p.components ++ fold q.components)
  obtain ⟨hp, hq⟩ := not_or.1 (mt List.mem_append.2 hn)
  -- the directory is deeper than either path has components
  obtain ⟨depth, hpdepth, hqdepth⟩ : ∃ depth, (fold p.components).length < depth ∧
      (fold q.components).length < depth :=
    ⟨(fold p.components).length + (fold q.components).length + 1, by omega, by omega⟩
  rw [normalize_eq_iff, ← readBelow_absolutize hname hp hpdepth, h _ (isAbsolute_below depth n),
    readBelow_absolutize hname hq hqdepth]

/-- **Normal forms are canonical.**  A normal form is written without anything to fold, is its own
normal form, and is the same text for two paths just if the paths are the same from every absolute
directory, as texts and as what the texts stand for. -/
theorem normalize_canonical (p q : Path) :
    IsCanonicalText p.normalize.chars ∧
    p.normalize.normalize.text = p.normalize.text ∧
    (p.normalize.text = q.normalize.text ↔
      ∀ base : Path, base.isAbsolute = true →
        (base.absolutize p).text = (base.absolutize q).text) ∧
    (p.normalize.text = q.normalize.text ↔
      ∀ base : Path, base.isAbsolute = true →
        (base.absolutize p).same (base.absolutize q) = true) := by
  have htext : ∀ r s : Path, r.text = s.text ↔ r = s := fun r s =>
    ⟨fun h => ext_chars (congrArg String.toList h), congrArg Path.text⟩
  simp only [htext, same, decide_eq_true_eq]
  refine ⟨isNormal_iff.1 (isNormal_normalize p), normalize_normalize p, ?_, ?_⟩
  · refine ⟨fun h base _ => absolutize_congr h base, fun h => normalize_eq_of_absolutize ?_⟩
    exact fun base hbase => congrArg components (h base hbase)
  · refine ⟨fun h base _ => ?_, normalize_eq_of_absolutize⟩
    exact congrArg components (absolutize_congr h base)

/-- Two spellings of a directory are the same from everywhere.  Above the root there is nothing, so
`..` and `.` are the same from there, but not from every directory. -/
theorem normalize_canonical_sample :
    (⟨"/x"⟩ : Path).isAbsolute = true ∧
      (absolutize ⟨"/x"⟩ ⟨"a/../b/"⟩).text = (absolutize ⟨"/x"⟩ ⟨"./b"⟩).text ∧
      (absolutize ⟨"/"⟩ ⟨".."⟩).text = (absolutize ⟨"/"⟩ ⟨"."⟩).text ∧
      ¬ ∀ base : Path, base.isAbsolute = true →
        (base.absolutize ⟨".."⟩).text = (base.absolutize ⟨"."⟩).text := by
  have hsame := (normalize_canonical ⟨"a/../b/"⟩ ⟨"./b"⟩).2.2.1.1 (by decide +kernel)
  have hother := (normalize_canonical ⟨".."⟩ ⟨"."⟩).2.2.1.2
  refine ⟨by decide +kernel, hsame _ (by decide +kernel), by decide +kernel, fun h => ?_⟩
  exact absurd (hother h) (by decide +kernel)

end Path

end IncludeAudit
