/-! # Outcomes

What it takes for a computation that may fail to succeed, and what the results of a list of such
computations are.
-/
namespace IncludeAudit

variable {α β ε : Type}

theorem bind_eq_ok_iff {x : Except ε α} {f : α → Except ε β} {b : β} :
    x.bind f = .ok b ↔ ∃ a, x = .ok a ∧ f a = .ok b := by
  cases x with
  | error e => simp [Except.bind]
  | ok a => simp [Except.bind]

theorem map_eq_ok_iff {x : Except ε α} {f : α → β} {b : β} :
    x.map f = .ok b ↔ ∃ a, x = .ok a ∧ f a = b := by
  cases x with
  | error e => simp [Except.map]
  | ok a => simp [Except.map]

theorem mapError_eq_ok_iff {δ : Type} {x : Except ε α} {f : ε → δ} {a : α} :
    x.mapError f = .ok a ↔ x = .ok a := by
  cases x with
  | error e => exact ⟨nofun, nofun⟩
  | ok b => exact ⟨fun h => congrArg _ (Except.ok.inj h), fun h => congrArg _ (Except.ok.inj h)⟩

theorem mapM_cons (f : α → Except ε β) (x : α) (l : List α) :
    (x :: l).mapM f = (f x).bind fun y => (l.mapM f).map fun zs => y :: zs := by
  rw [List.mapM_cons]
  cases f x <;> rfl

theorem mapM_cons_eq_ok_iff {f : α → Except ε β} {x : α} {l : List α} {ys : List β} :
    (x :: l).mapM f = .ok ys ↔ ∃ y zs, f x = .ok y ∧ l.mapM f = .ok zs ∧ y :: zs = ys := by
  rw [mapM_cons, bind_eq_ok_iff]
  simp only [map_eq_ok_iff]
  exact exists_congr fun y => exists_and_left.symm

/-- When every element of a list has a result, the results are those of the elements. -/
theorem mem_iff_of_mapM_eq_ok {f : α → Except ε β} {l : List α} {ys : List β}
    (h : l.mapM f = .ok ys) (y : β) : y ∈ ys ↔ ∃ x ∈ l, f x = .ok y := by
  induction l generalizing ys with
  | nil =>
    cases h
    simp
  | cons x l ih =>
    obtain ⟨z, zs, hx, hl, rfl⟩ := mapM_cons_eq_ok_iff.1 h
    rw [List.mem_cons, ih hl]
    constructor
    · rintro (rfl | ⟨w, hw, hy⟩)
      · exact ⟨x, List.mem_cons_self .., hx⟩
      · exact ⟨w, List.mem_cons_of_mem x hw, hy⟩
    · rintro ⟨w, hw, hy⟩
      rcases List.mem_cons.1 hw with rfl | hw
      · exact Or.inl (Except.ok.inj (hy.symm.trans hx))
      · exact Or.inr ⟨w, hw, hy⟩

theorem exists_ok_of_mapM_eq_ok {f : α → Except ε β} {l : List α} {ys : List β}
    (h : l.mapM f = .ok ys) {x : α} (hx : x ∈ l) : ∃ y, f x = .ok y := by
  induction l generalizing ys with
  | nil => exact absurd hx List.not_mem_nil
  | cons w l ih =>
    obtain ⟨z, zs, hw, hl, _⟩ := mapM_cons_eq_ok_iff.1 h
    rcases List.mem_cons.1 hx with rfl | hx
    · exact ⟨z, hw⟩
    · exact ih hl hx

theorem exists_mapM_eq_ok {f : α → Except ε β} {l : List α} (h : ∀ x ∈ l, ∃ y, f x = .ok y) :
    ∃ ys, l.mapM f = .ok ys := by
  induction l with
  | nil => exact ⟨[], rfl⟩
  | cons x l ih =>
    obtain ⟨y, hy⟩ := h x (List.mem_cons_self ..)
    obtain ⟨ys, hys⟩ := ih fun w hw => h w (List.mem_cons_of_mem x hw)
    exact ⟨y :: ys, mapM_cons_eq_ok_iff.2 ⟨y, ys, hy, hys, rfl⟩⟩

/-- What the results of a list are put together from, if each result does the same as its
element. -/
theorem flatMap_eq_of_mapM_eq_ok {γ : Type} {f : α → Except ε β} {g : β → List γ} {h : α → List γ}
    {l : List α} {ys : List β} (hl : l.mapM f = .ok ys)
    (hgh : ∀ x ∈ l, ∀ y, f x = .ok y → g y = h x) : ys.flatMap g = l.flatMap h := by
  induction l generalizing ys with
  | nil =>
    cases hl
    rfl
  | cons x l ih =>
    obtain ⟨y, zs, hx, hrest, rfl⟩ := mapM_cons_eq_ok_iff.1 hl
    rw [List.flatMap_cons, List.flatMap_cons, hgh x (List.mem_cons_self ..) y hx,
      ih hrest fun w hw => hgh w (List.mem_cons_of_mem x hw)]

/-- The first failure of two lists in a row is that of the first list if there is one. -/
theorem mapM_append_eq_bind (f : α → Except ε β) (l m : List α) :
    (l ++ m).mapM f = (l.mapM f).bind fun xs => (m.mapM f).map fun ys => xs ++ ys := by
  rw [List.mapM_append]
  cases l.mapM f with
  | error e => rfl
  | ok xs => cases m.mapM f <;> rfl

end IncludeAudit
