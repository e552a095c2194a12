import IncludeAudit.Proofs.Path.Normal
import IncludeAudit.Proofs.Text.Part

/-! # Joined paths

Joining keeps the components of the directory and appends the steps of what is joined to it
(`components_join`), so it does not depend on how the two are spelled.  As text it is undone by
removing what was joined: what is left has the normal form of the directory
(`normalize_removeSuffix_join`).
-/
namespace IncludeAudit

namespace Path

open Component

/-! ## Components -/

theorem components_eq (p : Path) : p.components = start p.chars ++ steps p.chars :=
  Component.ofChars_eq p.chars

/-- Separators at the end of a text do not count. -/
theorem ofChars_append_replicate {cs : List Char} (h : cs ≠ []) (n : Nat) :
    Component.ofChars (cs ++ List.replicate n '/') = Component.ofChars cs := by
  induction n with
  | zero => rw [List.replicate_zero, List.append_nil]
  | succ n ih =>
    rw [List.replicate_succ', ← List.append_assoc, ofChars_append_slash (by simp [h]), ih,
      steps_nil, List.append_nil]

/-- Only the empty path has no components. -/
theorem components_eq_nil_iff {p : Path} : p.components = [] ↔ p.chars = [] := by
  refine ⟨fun h => ?_, fun h => by rw [components, h]; rfl⟩
  cases hchars : p.chars with
  | nil => rfl
  | cons c cs =>
    exfalso
    rw [components, hchars] at h
    by_cases hc : c = '/'
    · rw [hc, ofChars_slash] at h
      cases h
    · -- the first segment is not empty, so it is a step or a `.` at the start
      obtain ⟨first, more, hsegments⟩ :
          ∃ first more, segments (c :: cs) = (c :: first) :: more := by
        rw [segments, if_neg hc]
        cases segments cs with
        | nil => exact ⟨[], [], rfl⟩
        | cons first more => exact ⟨first, more, rfl⟩
      rw [Component.ofChars_eq, List.append_eq_nil_iff, start, steps, hsegments] at h
      obtain ⟨hstart, hsteps⟩ := h
      by_cases hdot : c :: first = ['.']
      · simp [hc, hdot] at hstart
      · have hnone := List.filterMap_eq_nil_iff.1 hsteps _ (List.mem_cons_self ..)
        unfold ofSegment? at hnone
        split at hnone
        · contradiction
        · contradiction
        · cases hnone
        · cases hnone

/-- A path is absolute just if the root is its first component. -/
theorem isAbsolute_iff {p : Path} : p.isAbsolute = true ↔ p.components.head? = some root := by
  rw [isAbsolute, decide_eq_true_eq, components_eq, start]
  by_cases h : p.chars.head? = some '/'
  · simp [h]
  · rw [if_neg h]
    refine ⟨fun hp => absurd hp h, fun hroot => ?_⟩
    split at hroot
    · cases hroot
    · rw [List.nil_append] at hroot
      exact absurd rfl (isStep_of_mem_steps (List.mem_of_mem_head? hroot)).ne_root

theorem isAbsolute_congr {p q : Path} (h : p.components = q.components) :
    p.isAbsolute = q.isAbsolute := by
  rw [Bool.eq_iff_iff, isAbsolute_iff, isAbsolute_iff, h]

/-- The steps of a relative path are its components without a `.` at the start. -/
theorem steps_eq_filter {p : Path} (h : p.isAbsolute = false) :
    steps p.chars = p.components.filter fun c => c ≠ here := by
  have hsteps : (steps p.chars).filter (fun c => c ≠ here) = steps p.chars := by
    rw [List.filter_eq_self]
    intro c hc
    simpa using (isStep_of_mem_steps hc).ne_here
  rw [components_eq, List.filter_append, hsteps, start, if_neg (by simpa [isAbsolute] using h)]
  split <;> simp

/-! ## Joins -/

/-- What stands between a directory and the path joined to it. -/
def separator (d : Path) : List Char :=
  if d.chars.getLast?.all (· = '/') then [] else ['/']

theorem chars_join (d : Path) {p : Path} (h : p.isAbsolute = false) :
    (d.join p).chars = d.chars ++ (d.separator ++ p.chars) := by
  rw [join, h, separator]
  cases hlast : d.chars.getLast? with
  | none =>
    rw [List.getLast?_eq_none_iff.1 hlast]
    rfl
  | some c => by_cases hc : c = '/' <;> simp [hc]

/-- The empty directory leaves a path as it is, without a separator. -/
theorem join_of_chars_eq_nil {d : Path} (h : d.chars = []) (p : Path) : d.join p = p := by
  rw [join, h]
  split <;> rfl

theorem isAbsolute_join (d : Path) {p : Path} (h : p.isAbsolute = false) :
    (d.join p).isAbsolute = d.isAbsolute := by
  by_cases hd : d.chars = []
  · rw [join_of_chars_eq_nil hd, h, isAbsolute, hd]
    rfl
  · obtain ⟨c, cs, hchars⟩ := List.exists_cons_of_ne_nil hd
    rw [isAbsolute, isAbsolute, chars_join d h, hchars]
    rfl

/-- Whether or not the directory ends in a separator, the path behind it adds its steps. -/
theorem ofChars_append_separator {d : Path} (hd : d.chars ≠ []) (cs : List Char) :
    Component.ofChars (d.chars ++ (d.separator ++ cs)) = d.components ++ steps cs := by
  obtain ⟨c, hlast⟩ : ∃ c, d.chars.getLast? = some c :=
    ⟨d.chars.getLast hd, List.getLast?_eq_some_getLast hd⟩
  rw [separator, hlast]
  by_cases hc : c = '/'
  · rw [if_pos (by simpa using hc), List.nil_append]
    exact ofChars_append_of_getLast? (hc ▸ hlast) cs
  · rw [if_neg (by simpa using hc), List.singleton_append]
    exact ofChars_append_slash hd cs

/-- Neither part is longer than the path that is joined from them. -/
theorem length_le_length_join {d p : Path} (h : p.isAbsolute = false) :
    d.chars.length ≤ (d.join p).chars.length ∧ p.chars.length ≤ (d.join p).chars.length := by
  rw [chars_join d h, List.length_append, List.length_append]
  omega

/-- What is joined to a directory adds its steps. -/
theorem components_join {d p : Path} (hd : d.chars ≠ []) (h : p.isAbsolute = false) :
    (d.join p).components = d.components ++ steps p.chars := by
  rw [components, chars_join d h, ofChars_append_separator hd]

/-- Spellings of one directory lead to the same place, with or without a separator at their end. -/
theorem components_join_congr_left {d e p : Path} (hde : d.components = e.components)
    (h : p.isAbsolute = false) : (d.join p).components = (e.join p).components := by
  by_cases hd : d.chars = []
  · have he : e.chars = [] := by rwa [← components_eq_nil_iff, ← hde, components_eq_nil_iff]
    rw [join_of_chars_eq_nil hd, join_of_chars_eq_nil he]
  · have he : e.chars ≠ [] := by rwa [Ne, ← components_eq_nil_iff, ← hde, components_eq_nil_iff]
    rw [components_join hd h, components_join he h, hde]

/-- So do spellings of what is joined to it. -/
theorem components_join_congr_right {d p q : Path} (hpq : p.components = q.components) :
    (d.join p).components = (d.join q).components := by
  cases hp : p.isAbsolute with
  | true =>
    have hq : q.isAbsolute = true := isAbsolute_congr hpq ▸ hp
    rw [join, join, hp, hq]
    exact hpq
  | false =>
    have hq : q.isAbsolute = false := isAbsolute_congr hpq ▸ hp
    by_cases hd : d.chars = []
    · rw [join_of_chars_eq_nil hd, join_of_chars_eq_nil hd, hpq]
    · -- a `.` at the start of what is joined does not count any more
      rw [components_join hd hp, components_join hd hq, steps_eq_filter hp, steps_eq_filter hq, hpq]

/-- A path joined to a directory that is not empty stands behind a separator. -/
theorem exists_chars_join {d p : Path} (hd : d.chars ≠ []) (h : p.isAbsolute = false) :
    ∃ cs, (d.join p).chars = cs ++ '/' :: p.chars := by
  obtain ⟨c, hlast⟩ : ∃ c, d.chars.getLast? = some c :=
    ⟨d.chars.getLast hd, List.getLast?_eq_some_getLast hd⟩
  rw [chars_join d h, separator, hlast]
  by_cases hc : c = '/'
  · obtain ⟨cs, hcs⟩ := List.getLast?_eq_some_iff.1 (hc ▸ hlast)
    refine ⟨cs, ?_⟩
    rw [if_pos (by simpa using hc), hcs, List.nil_append, List.append_assoc]
    rfl
  · exact ⟨d.chars, by rw [if_neg (by simpa using hc)]; rfl⟩

/-- What is joined to a directory stands at the end. -/
theorem exists_chars_join_of_chars (d : Path) {p : Path} {cs es : List Char}
    (hp : p.chars = cs ++ '/' :: es) : ∃ ds, (d.join p).chars = ds ++ '/' :: es := by
  cases h : p.isAbsolute with
  | true => exact ⟨cs, by rw [join, h]; exact hp⟩
  | false =>
    refine ⟨d.chars ++ (d.separator ++ cs), ?_⟩
    rw [chars_join d h, hp, List.append_assoc, List.append_assoc]

/-! ## Joins undone -/

theorem normalize_append_separator (d : Path) :
    (ofChars (d.chars ++ d.separator)).normalize = d.normalize := by
  by_cases hd : d.chars = []
  · have hsep : d.separator = [] := by rw [separator, hd]; rfl
    rw [hsep, List.append_nil, ofChars_chars]
  · have hcomponents : (ofChars (d.chars ++ d.separator)).components = d.components := by
      have h := ofChars_append_separator hd []
      rw [List.append_nil, steps_nil, List.append_nil] at h
      rw [components, chars_ofChars, h]
    exact normalize_congr (congrArg fold hcomponents)

/-- **A join is undone by removing what was joined**, up to the spelling of the directory. -/
theorem normalize_removeSuffix_join (d : Path) {s : String} (h : isAbsolute ⟨s⟩ = false) :
    normalize ⟨Text.removeSuffix (d.join ⟨s⟩).text s⟩ = d.normalize := by
  have htext : (d.join ⟨s⟩).text.toList = (d.chars ++ d.separator) ++ s.toList := by
    rw [List.append_assoc]
    exact chars_join d h
  rw [Text.removeSuffix_of_toList htext]
  exact normalize_append_separator d

end Path

end IncludeAudit
