import IncludeAudit.Command.Arguments
import IncludeAudit.Proofs.Text.Part

/-! # What the values of a flag are

A bare flag takes the argument after it, whatever that looks like.  So an argument that starts with
the flag can be lost as the value of a bare one; where that does not happen
(`¬ [flag, flag ++ v] <:+: args`), every such argument yields its value (`mem_flagValues`).
-/
namespace IncludeAudit

section

variable {flag : String} {others args : List String}

theorem flagValues_cons_append {v : String} (hv : v ≠ "") (hothers : flag ++ v ∉ others)
    (rest : List String) :
    flagValues flag others ((flag ++ v) :: rest) = v :: flagValues flag others rest := by
  have hne : flag ++ v ≠ flag := fun heq => hv (by simpa using heq)
  rw [flagValues.eq_def]
  simp only [if_neg hne, if_neg hothers, Text.after?_append]

/-- A bare flag takes the next argument. -/
theorem flagValues_cons_flag (value : String) (rest : List String) :
    flagValues flag others (flag :: value :: rest) = value :: flagValues flag others rest := by
  rw [flagValues.eq_def]
  simp only [if_true]

theorem flagValues_cons_of_mem {a : String} (hne : a ≠ flag) (ha : a ∈ others)
    (rest : List String) :
    flagValues flag others (a :: rest) = flagValues flag others rest := by
  rw [flagValues.eq_def]
  simp only [if_neg hne, if_pos ha]

/-- An argument that does not start with the flag is passed over. -/
theorem flagValues_cons_of_not_start {a : String} (ha : ¬ flag.toList <+: a.toList)
    (rest : List String) :
    flagValues flag others (a :: rest) = flagValues flag others rest := by
  have hne : a ≠ flag := fun heq => ha (heq ▸ List.prefix_refl _)
  rw [flagValues.eq_def]
  simp only [if_neg hne, Text.after?_eq_none ha, ite_self]

/-- **An argument that carries its value is read** if it is not the value of a bare flag. -/
theorem mem_flagValues {v : String} (h : ∀ w, ¬ [flag, flag ++ w] <:+: args)
    (hmem : flag ++ v ∈ args) (hv : v ≠ "") (hothers : flag ++ v ∉ others) :
    v ∈ flagValues flag others args := by
  have hne : flag ++ v ≠ flag := fun heq => hv (by simpa using heq)
  fun_induction flagValues flag others args with
  | case1 => exact absurd hmem List.not_mem_nil
  | case2 => exact absurd (List.mem_singleton.1 hmem) hne
  | case3 value more ih =>
    -- the bare flag takes `value`, which is another argument than the one looked for
    have hvalue : flag ++ v ≠ value := fun heq => h v ⟨[], more, by rw [heq]; rfl⟩
    have hrest : flag ++ v ∈ more := by
      rcases List.mem_cons.1 hmem with heq | hmem
      · exact absurd heq hne
      · exact (List.mem_cons.1 hmem).resolve_left hvalue
    refine List.mem_cons_of_mem value (ih (fun w hw => h w ?_) hrest)
    exact (hw.trans (List.suffix_cons value more).isInfix).trans
      (List.suffix_cons flag (value :: more)).isInfix
  | case4 a rest _ ha ih =>
    have hrest : flag ++ v ∈ rest :=
      (List.mem_cons.1 hmem).resolve_left fun heq => hothers (heq ▸ ha)
    exact ih (fun w hw => h w (hw.trans (List.suffix_cons a rest).isInfix)) hrest
  | case5 a rest _ _ value hvalue ih =>
    rcases List.mem_cons.1 hmem with heq | hrest
    · rw [← heq, Text.after?_append] at hvalue
      rw [Option.some.inj hvalue]
      exact List.mem_cons_self ..
    · refine List.mem_cons_of_mem value (ih (fun w hw => h w ?_) hrest)
      exact hw.trans (List.suffix_cons a rest).isInfix
  | case6 a rest _ _ hnone ih =>
    rcases List.mem_cons.1 hmem with heq | hrest
    · rw [← heq, Text.after?_append] at hnone
      cases hnone
    · exact ih (fun w hw => h w (hw.trans (List.suffix_cons a rest).isInfix)) hrest

theorem mem_includeDirectories {dir : String} (h : ∀ w, ¬ ["-I", "-I" ++ w] <:+: args)
    (hmem : "-I" ++ dir ∈ args) (hempty : dir ≠ "") (hdash : dir ≠ "-") :
    dir ∈ includeDirectories args := by
  refine mem_flagValues h hmem hempty fun hdir => hdash ?_
  exact (String.append_right_inj "-I").1 (List.mem_singleton.1 hdir)

end

end IncludeAudit
