import IncludeAudit.Proofs.Path.Absolute

/-! # The path above a path

The path above a path is cut off the text, and pieces at the end that name nothing are cut off with
it.  What that takes from the components is exactly the last one (`components_of_parent?`), and only
the empty path and the root have nothing to give (`components_of_parent?_eq_none`).
-/
namespace IncludeAudit

namespace Component

/-! ## Components of pieces -/

theorem joinSegments_segments (cs : List Char) : joinSegments (segments cs) = cs := by
  induction cs with
  | nil => rfl
  | cons c cs ih =>
    obtain ⟨first, more, hsegments⟩ := List.exists_cons_of_ne_nil (segments_ne_nil cs)
    rw [hsegments] at ih
    rw [segments, hsegments]
    by_cases hc : c = '/'
    · rw [if_pos hc, joinSegments, ih, hc, List.nil_append]
    · rw [if_neg hc]
      show joinSegments ((c :: first) :: more) = c :: cs
      rw [← ih]
      cases more <;> rfl

/-- What a first piece says by standing there: an empty one stands before the root's separator. -/
def ofFirst (s : List Char) : List Component :=
  if s = [] then [root] else if s = ['.'] then [here] else []

/-- What a text starts with is decided by its first piece. -/
theorem start_joinSegments {s : List Char} {ss : List (List Char)} (hs : '/' ∉ s)
    (hss : ∀ t ∈ ss, '/' ∉ t) (hne : s ≠ [] ∨ ss ≠ []) :
    start (joinSegments (s :: ss)) = ofFirst s := by
  have hsegments : segments (joinSegments (s :: ss)) = s :: ss :=
    segments_joinSegments (List.cons_ne_nil s ss) (List.forall_mem_cons.2 ⟨hs, hss⟩)
  rw [start, hsegments, ofFirst, List.head?_cons]
  cases s with
  | nil =>
    -- the separator behind the empty piece is the first character
    obtain ⟨t, rest, rfl⟩ := List.exists_cons_of_ne_nil (hne.resolve_left fun h => h rfl)
    rfl
  | cons c s =>
    have hhead : (joinSegments ((c :: s) :: ss)).head? ≠ some '/' := by
      intro h
      have hc : c = '/' := by cases ss <;> exact Option.some.inj h
      exact hs (hc ▸ List.mem_cons_self ..)
    rw [if_neg hhead, if_neg (List.cons_ne_nil c s)]
    simp only [Option.some.injEq]

/-- The components of pieces that are listed last piece first. -/
def ofReversed (ss : List (List Char)) : List Component :=
  ss.getLast?.elim [] ofFirst ++ ss.reverse.filterMap ofSegment?

/-- The last piece adds its component, if it stands for one. -/
theorem ofReversed_cons (s : List Char) {ss : List (List Char)} (h : ss ≠ []) :
    ofReversed (s :: ss) = ofReversed ss ++ (ofSegment? s).toList := by
  obtain ⟨t, rest, rfl⟩ := List.exists_cons_of_ne_nil h
  rw [ofReversed, ofReversed, List.getLast?_cons_cons, List.reverse_cons, List.filterMap_append,
    List.append_assoc, List.filterMap_cons, List.filterMap_nil]
  cases ofSegment? s <;> rfl

/-- Empty pieces and single dots are the only ones that name nothing. -/
theorem exists_ofSegment? {s : List Char} (hempty : s ≠ []) (hdot : s ≠ ['.']) :
    ∃ c, ofSegment? s = some c := by
  unfold ofSegment?
  split
  · exact absurd rfl hempty
  · exact absurd rfl hdot
  · exact ⟨_, rfl⟩
  · exact ⟨_, rfl⟩

/-- A single piece that is not empty is a single component. -/
theorem exists_ofReversed_singleton {s : List Char} (h : s ≠ []) : ∃ c, ofReversed [s] = [c] := by
  by_cases hdot : s = ['.']
  · subst hdot
    exact ⟨here, rfl⟩
  · obtain ⟨c, hc⟩ := exists_ofSegment? h hdot
    refine ⟨c, ?_⟩
    simp [ofReversed, ofFirst, h, hdot, hc]

end Component

namespace Path

open Component

/-- Pieces that name nothing do not count. -/
theorem ofReversed_dropIdle (ss : List (List Char)) : ofReversed (dropIdle ss) = ofReversed ss := by
  fun_induction dropIdle ss with
  | case1 => rfl
  | case2 => rfl
  | case3 s t rest hidle ih =>
    have hs : ofSegment? s = none := by
      rcases hidle with rfl | rfl <;> rfl
    rw [ih, ofReversed_cons s (List.cons_ne_nil t rest), hs, Option.toList_none, List.append_nil]
  | case4 => rfl

/-- When the pieces that name nothing are gone from the end, the last one names something. -/
theorem exists_ofSegment?_of_dropIdle {ss rest : List (List Char)} {s : List Char}
    (h : dropIdle ss = s :: rest) (hrest : rest ≠ []) : ∃ c, ofSegment? s = some c := by
  fun_induction dropIdle ss with
  | case1 => cases h
  | case2 first =>
    cases h
    exact absurd rfl hrest
  | case3 _ _ _ _ ih => exact ih h
  | case4 t u more hidle =>
    obtain ⟨rfl, rfl⟩ := List.cons.inj h
    obtain ⟨hempty, hdot⟩ := not_or.1 hidle
    exact exists_ofSegment? hempty hdot

theorem dropIdle_ne_nil {ss : List (List Char)} (h : ss ≠ []) : dropIdle ss ≠ [] := by
  fun_induction dropIdle ss with
  | case1 => exact h
  | case2 => exact h
  | case3 _ t rest _ ih => exact ih (List.cons_ne_nil t rest)
  | case4 => exact h

theorem mem_of_mem_dropIdle {ss : List (List Char)} {s : List Char} (h : s ∈ dropIdle ss) :
    s ∈ ss := by
  fun_induction dropIdle ss with
  | case1 => exact h
  | case2 => exact h
  | case3 t _ _ _ ih => exact List.mem_cons_of_mem t (ih h)
  | case4 => exact h

theorem components_ofReversedSegments {ss : List (List Char)} (h : ∀ s ∈ ss, '/' ∉ s) :
    (ofReversedSegments ss).components = ofReversed ss := by
  by_cases hroot : ss = [[]]
  · subst hroot
    rfl
  · rw [ofReversedSegments.eq_def]
    split
    · exact absurd rfl hroot
    · rw [components, chars_ofChars, ofReversed]
      cases hss : ss.reverse with
      | nil =>
        obtain rfl := List.reverse_eq_nil_iff.1 hss
        rfl
      | cons s rest =>
        obtain rfl : ss = (s :: rest).reverse := by rw [← hss, List.reverse_reverse]
        have hslash : ∀ t ∈ s :: rest, '/' ∉ t := fun t ht => h t (List.mem_reverse.2 ht)
        obtain ⟨hs, hrest⟩ := List.forall_mem_cons.1 hslash
        have hne : s ≠ [] ∨ rest ≠ [] := by
          by_cases hempty : s = []
          · right
            rintro rfl
            exact hroot (by rw [hempty]; rfl)
          · exact Or.inl hempty
        rw [Component.ofChars_eq, start_joinSegments hs hrest hne, steps,
          segments_joinSegments (List.cons_ne_nil s rest) hslash, List.getLast?_reverse,
          List.head?_cons]
        rfl

theorem components_eq_ofReversed {p : Path} (h : p.chars ≠ []) :
    p.components = ofReversed (segments p.chars).reverse := by
  rw [← components_ofReversedSegments fun s hs => slash_not_mem_segments (List.mem_reverse.1 hs),
    ofReversedSegments.eq_def]
  split
  · rename_i hroot
    -- only the empty text is a single empty piece
    have hchars := joinSegments_segments p.chars
    rw [List.reverse_eq_iff.1 hroot] at hchars
    exact absurd hchars.symm h
  · rw [List.reverse_reverse, joinSegments_segments, ofChars_chars]

/-! ## The last component -/

/-- **The path above a path lacks its last component** and no other one. -/
theorem components_of_parent? {p q : Path} (h : p.parent? = some q) :
    ∃ c, p.components = q.components ++ [c] := by
  obtain ⟨ss, habove, rfl⟩ := Option.map_eq_some_iff.1 h
  have hne : p.chars ≠ [] := by
    intro hchars
    rw [hchars] at habove
    cases habove
  have hslash : ∀ s ∈ dropIdle (segments p.chars).reverse, '/' ∉ s := fun s hs =>
    slash_not_mem_segments (List.mem_reverse.1 (mem_of_mem_dropIdle hs))
  rw [components_eq_ofReversed hne, ← ofReversed_dropIdle]
  unfold above? at habove
  split at habove
  · cases habove
  · rename_i first hdrop
    by_cases hfirst : first = []
    · rw [if_pos hfirst] at habove
      cases habove
    · rw [if_neg hfirst] at habove
      cases habove
      rw [hdrop]
      exact exists_ofReversed_singleton hfirst
  · rename_i s rest hmany hdrop
    cases habove
    have hne' : rest ≠ [] := by
      rintro rfl
      exact hmany rfl
    obtain ⟨c, hc⟩ := exists_ofSegment?_of_dropIdle hdrop hne'
    rw [hdrop] at hslash ⊢
    have hrest : ∀ t ∈ dropIdle rest, '/' ∉ t := fun t ht =>
      hslash t (List.mem_cons_of_mem s (mem_of_mem_dropIdle ht))
    refine ⟨c, ?_⟩
    rw [components_ofReversedSegments hrest, ofReversed_dropIdle, ofReversed_cons s hne', hc]
    rfl

/-- Only the empty path and the root have no parent. -/
theorem components_of_parent?_eq_none {p : Path} (h : p.parent? = none) :
    p.components = [] ∨ p.components = [root] := by
  by_cases hne : p.chars = []
  · exact Or.inl (components_eq_nil_iff.2 hne)
  · right
    rw [components_eq_ofReversed hne, ← ofReversed_dropIdle]
    have habove := Option.map_eq_none_iff.1 h
    unfold above? at habove
    split at habove
    · rename_i hdrop
      exact absurd hdrop (dropIdle_ne_nil (by simp [segments_ne_nil]))
    · rename_i first hdrop
      by_cases hfirst : first = []
      · rw [hdrop, hfirst]
        rfl
      · rw [if_neg hfirst] at habove
        cases habove
    · cases habove

theorem dropIdle_of_ofSegment? {s : List Char} {c : Component} (h : ofSegment? s = some c)
    (ss : List (List Char)) : dropIdle (s :: ss) = s :: ss := by
  have hidle : ¬ (s = [] ∨ s = ['.']) := by
    rintro (rfl | rfl) <;> cases h
  cases ss with
  | nil => rfl
  | cons t rest => rw [dropIdle, if_neg hidle]

/-- What stands behind the last separator is taken off, if it and the piece before it name
something. -/
theorem parent?_append_slash {cs s t : List Char} {b c : Component} (hs : ofSegment? s = some b)
    (hslash : '/' ∉ s) (ht : ofSegment? t = some c) (hcs : (segments cs).getLast? = some t) :
    (ofChars (cs ++ '/' :: s)).parent? = some (ofChars cs) := by
  obtain ⟨before, hbefore⟩ := List.getLast?_eq_some_iff.1 hcs
  have hreverse : (segments cs).reverse = t :: before.reverse := by
    rw [hbefore, List.reverse_append, List.reverse_singleton, List.singleton_append]
  have hdrop := dropIdle_of_ofSegment? hs (t :: before.reverse)
  have habove : above? (s :: t :: before.reverse) = some (t :: before.reverse) := by
    rw [above?, hdrop]
    exact congrArg some (dropIdle_of_ofSegment? ht before.reverse)
  have hroot : t :: before.reverse ≠ [[]] := by
    intro h
    rw [(List.cons.inj h).1] at ht
    cases ht
  rw [parent?, chars_ofChars, segments_append_slash, segments_of_not_mem hslash,
    List.reverse_append, hreverse, List.reverse_singleton, List.singleton_append, habove,
    Option.map_some, ofReversedSegments.eq_def]
  split
  · rename_i h
    exact absurd h hroot
  · rw [← hreverse, List.reverse_reverse, joinSegments_segments]

/-- The last component of a path is a name. -/
def EndsInName (p : Path) : Prop := ∃ n, p.components.getLast? = some (.name n)

/-- A path that ends in a name has a parent, and the parent has all components but that one. -/
theorem EndsInName.exists_parent? {p : Path} (h : p.EndsInName) :
    ∃ q n, p.parent? = some q ∧ p.components = q.components ++ [.name n] := by
  obtain ⟨n, hn⟩ := h
  cases hparent : p.parent? with
  | none =>
    rcases components_of_parent?_eq_none hparent with hp | hp
    · rw [hp] at hn
      cases hn
    · rw [hp] at hn
      cases hn
  | some q =>
    obtain ⟨c, hc⟩ := components_of_parent? hparent
    rw [hc, List.getLast?_concat] at hn
    cases hn
    exact ⟨q, n, rfl, hc⟩

end Path

end IncludeAudit
