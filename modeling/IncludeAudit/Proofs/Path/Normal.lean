import IncludeAudit.Path.Normal

/-! # Normal forms of paths are canonical

Folding leaves a list of components in which nothing is left to fold (`IsFolded`), the text of such
a list has just these components, and so a normal form is its own normal form
(`normalize_normalize`).
-/
namespace IncludeAudit

namespace Component

/-! ## Pieces between separators -/

theorem segments_ne_nil (cs : List Char) : segments cs ≠ [] := by
  cases cs with
  | nil => simp [segments]
  | cons c cs =>
    simp only [segments]
    split
    · simp
    · split <;> simp

/-- A separator ends one piece and starts the next one. -/
theorem segments_append_slash (cs ds : List Char) :
    segments (cs ++ '/' :: ds) = segments cs ++ segments ds := by
  induction cs with
  | nil => simp [segments]
  | cons c cs ih =>
    simp only [List.cons_append, segments, ih]
    by_cases hc : c = '/'
    · simp [hc]
    · obtain ⟨s, ss, hs⟩ := List.exists_cons_of_ne_nil (segments_ne_nil cs)
      simp [hc, hs]

/-- Without a separator there is one piece. -/
theorem segments_of_not_mem {s : List Char} (h : '/' ∉ s) : segments s = [s] := by
  induction s with
  | nil => rfl
  | cons c s ih =>
    obtain ⟨hc, hs⟩ := not_or.1 (mt List.mem_cons.2 h)
    simp only [segments, if_neg (Ne.symm hc), ih hs]

theorem slash_not_mem_segments {cs s : List Char} (h : s ∈ segments cs) : '/' ∉ s := by
  induction cs generalizing s with
  | nil =>
    obtain rfl := List.mem_singleton.1 h
    exact List.not_mem_nil
  | cons c cs ih =>
    obtain ⟨t, ts, hts⟩ := List.exists_cons_of_ne_nil (segments_ne_nil cs)
    simp only [segments] at h
    by_cases hc : c = '/'
    · rw [if_pos hc] at h
      rcases List.mem_cons.1 h with rfl | h
      · exact List.not_mem_nil
      · exact ih h
    · rw [if_neg hc, hts] at h
      rcases List.mem_cons.1 h with rfl | h
      · have ht : '/' ∉ t := ih (hts ▸ List.mem_cons_self ..)
        exact fun hm => (List.mem_cons.1 hm).elim (fun he => hc he.symm) ht
      · exact ih (hts ▸ List.mem_cons_of_mem t h)

/-- Pieces that are put together with separators come apart again. -/
theorem segments_joinSegments {ss : List (List Char)} (hne : ss ≠ [])
    (h : ∀ s ∈ ss, '/' ∉ s) : segments (joinSegments ss) = ss := by
  fun_induction joinSegments ss with
  | case1 => exact absurd rfl hne
  | case2 s => exact segments_of_not_mem (h s (List.mem_singleton_self s))
  | case3 s t rest ih =>
    have hs : '/' ∉ s := h s (List.mem_cons_self ..)
    rw [segments_append_slash, segments_of_not_mem hs,
      ih (List.cons_ne_nil t rest) fun r hr => h r (List.mem_cons_of_mem s hr)]
    rfl

/-! ## Components of a text -/

/-- What a text says behind its start: a `.` anywhere names nothing. -/
def steps (cs : List Char) : List Component := (segments cs).filterMap ofSegment?

/-- What a text says by its start alone. -/
def start (cs : List Char) : List Component :=
  if cs.head? = some '/' then [root]
  else if (segments cs).head? = some ['.'] then [here]
  else []

/-- The components of a text are its start and its steps. -/
theorem ofChars_eq (cs : List Char) : ofChars cs = start cs ++ steps cs := by
  unfold ofChars start steps
  split
  · rfl
  · split <;> rfl

@[simp] theorem steps_nil : steps [] = [] := rfl

theorem steps_append_slash (cs ds : List Char) :
    steps (cs ++ '/' :: ds) = steps cs ++ steps ds := by
  simp only [steps, segments_append_slash, List.filterMap_append]

/-- The start of a text is decided before its first separator. -/
theorem start_append_slash {cs : List Char} (h : cs ≠ []) (ds : List Char) :
    start (cs ++ '/' :: ds) = start cs := by
  have hhead : (cs ++ '/' :: ds).head? = cs.head? := by
    obtain ⟨c, cs, rfl⟩ := List.exists_cons_of_ne_nil h
    rfl
  have hseg : (segments (cs ++ '/' :: ds)).head? = (segments cs).head? := by
    obtain ⟨s, ss, hs⟩ := List.exists_cons_of_ne_nil (segments_ne_nil cs)
    rw [segments_append_slash, hs]
    rfl
  rw [start, hhead, hseg, start]

/-- What follows a separator adds its steps to the components before it. -/
theorem ofChars_append_slash {cs : List Char} (h : cs ≠ []) (ds : List Char) :
    ofChars (cs ++ '/' :: ds) = ofChars cs ++ steps ds := by
  rw [ofChars_eq, ofChars_eq, start_append_slash h, steps_append_slash, List.append_assoc]

/-- Behind the root there are only steps. -/
theorem ofChars_slash (ds : List Char) : ofChars ('/' :: ds) = root :: steps ds := by
  have hs : steps ('/' :: ds) = steps ds := by simpa using steps_append_slash [] ds
  simp [ofChars_eq, start, hs]

/-- A text that ends in a separator is continued in the same way. -/
theorem ofChars_append_of_getLast? {cs : List Char} (h : cs.getLast? = some '/') (ds : List Char) :
    ofChars (cs ++ ds) = ofChars cs ++ steps ds := by
  obtain ⟨es, rfl⟩ := List.getLast?_eq_some_iff.1 h
  rw [List.append_assoc, List.singleton_append]
  by_cases hes : es = []
  · subst hes
    simp [ofChars_slash]
  · rw [ofChars_append_slash hes, ofChars_append_slash hes, steps_nil, List.append_nil]

/-! ## Reading a rendered list back -/

/-- A component that a piece between separators stands for. -/
def IsStep (c : Component) : Prop := ofSegment? c.chars = some c ∧ '/' ∉ c.chars

theorem isStep_up : IsStep up := ⟨rfl, by decide⟩

/-- A component is written like the piece from which it was read. -/
theorem chars_of_ofSegment? {s : List Char} {c : Component} (h : ofSegment? s = some c) :
    c.chars = s := by
  unfold ofSegment? at h
  split at h <;> cases h <;> rfl

/-- A piece between separators holds none. -/
theorem isStep_of_mem_steps {cs : List Char} {c : Component} (h : c ∈ steps cs) : IsStep c := by
  obtain ⟨s, hs, hc⟩ := List.mem_filterMap.1 h
  have hcs : c.chars = s := chars_of_ofSegment? hc
  exact ⟨hcs ▸ hc, hcs ▸ slash_not_mem_segments hs⟩

/-- The root is no step. -/
theorem IsStep.ne_root {c : Component} (h : IsStep c) : c ≠ root := by
  rintro rfl
  exact absurd h.1 (by decide)

theorem IsStep.ne_here {c : Component} (h : IsStep c) : c ≠ here := by
  rintro rfl
  exact absurd h.1 (by decide)

theorem segments_join_chars {cs : List Component} (hne : cs ≠ []) (h : ∀ c ∈ cs, IsStep c) :
    segments (joinSegments (cs.map chars)) = cs.map chars := by
  refine segments_joinSegments (mt List.map_eq_nil_iff.1 hne) fun s hs => ?_
  obtain ⟨c, hc, rfl⟩ := List.mem_map.1 hs
  exact (h c hc).2

theorem filterMap_chars {cs : List Component} (h : ∀ c ∈ cs, IsStep c) :
    (cs.map chars).filterMap ofSegment? = cs := by
  induction cs with
  | nil => rfl
  | cons c cs ih =>
    rw [List.map_cons, List.filterMap_cons_some (h c (List.mem_cons_self ..)).1,
      ih fun d hd => h d (List.mem_cons_of_mem c hd)]

/-- Steps that are put together with separators are read again. -/
theorem steps_join_chars {cs : List Component} (h : ∀ c ∈ cs, IsStep c) :
    steps (joinSegments (cs.map chars)) = cs := by
  by_cases hne : cs = []
  · subst hne
    rfl
  · rw [steps, segments_join_chars hne h, filterMap_chars h]

/-- A text that is put together from steps starts with the first of them. -/
theorem start_join_chars {cs : List Component} (h : ∀ c ∈ cs, IsStep c) :
    start (joinSegments (cs.map chars)) = [] := by
  cases cs with
  | nil => rfl
  | cons c cs =>
    obtain ⟨hseg, _⟩ := h c (List.mem_cons_self ..)
    have hfirst : (segments (joinSegments ((c :: cs).map chars))).head? = some c.chars := by
      rw [segments_join_chars (List.cons_ne_nil c cs) h]
      rfl
    -- neither of the two starts that count is the start of a step
    have hdot : c.chars ≠ ['.'] := by
      intro hc
      rw [hc] at hseg
      exact absurd hseg (by simp [ofSegment?])
    have hroot : (joinSegments ((c :: cs).map chars)).head? ≠ some '/' := by
      intro hhead
      obtain ⟨ds, hds⟩ := List.head?_eq_some_iff.1 hhead
      rw [hds] at hfirst
      simp only [segments, if_true, List.head?_cons, Option.some.injEq] at hfirst
      rw [← hfirst] at hseg
      exact absurd hseg (by simp [ofSegment?])
    rw [start, if_neg hroot, hfirst, if_neg (by simpa using hdot)]

/-! ## Folded lists -/

/-- Nothing is left to fold in these components, which are listed last first: names stand behind a
run of `..` or behind the root. -/
def IsFolded : List Component → Prop
  | [] => True
  | root :: rest => rest = []
  | here :: _ => False
  | up :: rest => ∀ c ∈ rest, c = up
  | name cs :: rest => IsStep (name cs) ∧ IsFolded rest

theorem isFolded_of_forall_up {cs : List Component} (h : ∀ c ∈ cs, c = up) : IsFolded cs := by
  cases cs with
  | nil => trivial
  | cons c cs =>
    obtain rfl := h c (List.mem_cons_self ..)
    exact fun d hd => h d (List.mem_cons_of_mem up hd)

/-- A step keeps a folded list folded. -/
theorem IsFolded.push {stack : List Component} (h : IsFolded stack) {c : Component}
    (hc : IsStep c) : IsFolded (push stack c) := by
  cases c with
  | root => exact absurd rfl hc.ne_root
  | here => exact absurd rfl hc.ne_here
  | name cs => exact ⟨hc, h⟩
  | up =>
    match stack, h with
    | [], _ => exact fun d hd => absurd hd List.not_mem_nil
    | root :: _, h => exact h
    | up :: rest, h =>
      intro d hd
      rcases List.mem_cons.1 hd with rfl | hd
      · rfl
      · exact h d hd
    | name _ :: _, h => exact h.2

theorem IsFolded.foldl_push {stack cs : List Component} (h : IsFolded stack)
    (hcs : ∀ c ∈ cs, IsStep c) : IsFolded (cs.foldl Component.push stack) := by
  induction cs generalizing stack with
  | nil => exact h
  | cons c cs ih =>
    exact ih (h.push (hcs c (List.mem_cons_self ..)))
      fun d hd => hcs d (List.mem_cons_of_mem c hd)

/-- The starts of a text leave nothing to fold. -/
theorem isFolded_foldl_start (cs : List Char) : IsFolded ((start cs).foldl push []) := by
  unfold start
  split
  · exact rfl
  · split <;> exact trivial

/-- Folding what a text says leaves nothing to fold. -/
theorem isFolded_reverse_fold (cs : List Char) : IsFolded (fold (ofChars cs)).reverse := by
  rw [fold, List.reverse_reverse, ofChars_eq, List.foldl_append]
  exact (isFolded_foldl_start cs).foldl_push fun c hc => isStep_of_mem_steps hc

/-- Folding a folded list changes nothing. -/
theorem foldl_push_reverse {stack : List Component} (h : IsFolded stack) :
    stack.reverse.foldl push [] = stack := by
  induction stack with
  | nil => rfl
  | cons c stack ih =>
    rw [List.reverse_cons, List.foldl_append]
    cases c with
    | root =>
      obtain rfl : stack = [] := h
      rfl
    | here => exact h.elim
    | up =>
      -- below a `..` there are only others, and none of them takes back another
      rw [ih (isFolded_of_forall_up h)]
      cases stack with
      | nil => rfl
      | cons d stack =>
        obtain rfl := h d (List.mem_cons_self ..)
        rfl
    | name cs =>
      rw [ih h.2]
      rfl

/-- Folding twice is folding once. -/
theorem fold_fold_ofChars (cs : List Char) : fold (fold (ofChars cs)) = fold (ofChars cs) := by
  have h := foldl_push_reverse (isFolded_reverse_fold cs)
  rw [List.reverse_reverse] at h
  rw [fold, h, List.reverse_reverse]

/-- Behind a root at the start, a folded list consists of steps. -/
theorem IsFolded.steps_or_root {stack : List Component} (h : IsFolded stack) :
    (∀ c ∈ stack, IsStep c) ∨ ∃ cs, stack.reverse = root :: cs ∧ ∀ c ∈ cs, IsStep c := by
  induction stack with
  | nil => exact Or.inl fun c hc => absurd hc List.not_mem_nil
  | cons c stack ih =>
    cases c with
    | root =>
      obtain rfl : stack = [] := h
      exact Or.inr ⟨[], rfl, fun c hc => absurd hc List.not_mem_nil⟩
    | here => exact h.elim
    | up =>
      -- a `..` that is left over has no root below it
      refine Or.inl fun c hc => ?_
      rcases List.mem_cons.1 hc with rfl | hc
      · exact isStep_up
      · exact h c hc ▸ isStep_up
    | name ds =>
      rcases ih h.2 with hsteps | ⟨cs, hcs, hsteps⟩
      · refine Or.inl fun c hc => ?_
        rcases List.mem_cons.1 hc with rfl | hc
        · exact h.1
        · exact hsteps c hc
      · refine Or.inr ⟨cs ++ [name ds], by rw [List.reverse_cons, hcs, List.cons_append], ?_⟩
        intro c hc
        rcases List.mem_append.1 hc with hc | hc
        · exact hsteps c hc
        · exact List.mem_singleton.1 hc ▸ h.1

/-- The components of a folded path, as they are read back: `.` stands for none. -/
def orHere (cs : List Component) : List Component := if cs = [] then [here] else cs

/-- A single `.` folds to nothing, so it does not count. -/
theorem fold_orHere (cs : List Component) : fold (orHere cs) = fold cs := by
  unfold orHere
  split
  · rename_i h
    rw [h]
    rfl
  · rfl

/-- Without a root the pieces of a text are those of its components. -/
theorem renderFolded_cons_of_ne_root {c : Component} {cs : List Component} (h : c ≠ root) :
    renderFolded (c :: cs) = joinSegments ((c :: cs).map chars) := by
  rw [renderFolded.eq_def]
  cases c with
  | root => exact absurd rfl h
  | here | up | name => rfl

/-- **A folded list is what its text says.** -/
theorem ofChars_renderFolded {cs : List Component} (h : IsFolded cs.reverse) :
    ofChars (renderFolded cs) = orHere cs := by
  by_cases hne : cs = []
  · subst hne
    rfl
  · rw [orHere, if_neg hne]
    have hcs := h.steps_or_root
    rw [List.reverse_reverse] at hcs
    rcases hcs with hsteps | ⟨ds, rfl, hsteps⟩
    · have hsteps' : ∀ c ∈ cs, IsStep c := fun c hc => hsteps c (List.mem_reverse.2 hc)
      obtain ⟨c, ds, rfl⟩ := List.exists_cons_of_ne_nil hne
      have hc : c ≠ root := (hsteps' c (List.mem_cons_self ..)).ne_root
      rw [renderFolded_cons_of_ne_root hc, ofChars_eq, start_join_chars hsteps',
        steps_join_chars hsteps', List.nil_append]
    · rw [show renderFolded (root :: ds) = '/' :: joinSegments (ds.map chars) from rfl,
        ofChars_slash, steps_join_chars hsteps]

end Component

namespace Path

open Component (ofChars_renderFolded isFolded_reverse_fold fold_orHere fold_fold_ofChars orHere)

/-- The components of a normal form are the folded ones. -/
theorem components_normalize (p : Path) :
    p.normalize.components = orHere (Component.fold p.components) := by
  rw [components, normalize, chars_ofChars]
  exact ofChars_renderFolded (isFolded_reverse_fold p.chars)

/-- A path and its normal form fold to the same components. -/
theorem fold_components_normalize (p : Path) :
    Component.fold p.normalize.components = Component.fold p.components := by
  rw [components_normalize, fold_orHere, components, fold_fold_ofChars]

/-- Paths that fold to the same components have the same normal form. -/
theorem normalize_congr {p q : Path}
    (h : Component.fold p.components = Component.fold q.components) :
    p.normalize = q.normalize := by
  rw [normalize, normalize, h]

@[simp] theorem normalize_normalize (p : Path) : p.normalize.normalize = p.normalize :=
  normalize_congr (fold_components_normalize p)

/-- Where nothing is left, a normal form is written as `.`. -/
theorem text_normalize_ne_empty (p : Path) : p.normalize.text ≠ "" := by
  intro h
  have hc : p.normalize.components = [] := by
    rw [components, chars, h]
    rfl
  rw [components_normalize, orHere] at hc
  split at hc
  · cases hc
  · contradiction

end Path

end IncludeAudit
