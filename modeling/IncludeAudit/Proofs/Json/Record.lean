import IncludeAudit.Json.Record
import Mathlib.Data.List.Nodup
import Mathlib.Data.List.Forall2

/-! # What a record says

A record of some fields is written as an object or as an array.  Either way it comes down to one
value for each field, or to none where the field is missing (`IsRecord`), and that is what is read
(`fields?_eq_some_iff`).  A list is read just if each of its items is (`listOf?_eq_some_iff`).
-/
namespace IncludeAudit.Json

/-- A record of the fields `names` in which each field has the given value, if it has any.  Of an
object the members with a field's name are that value and no other one; an array gives the fields
in the order of their names, as far as it goes. -/
def IsRecord (names : List String) (value? : String → Option Json) : Json → Prop
  | object members => (∀ m ∈ members, m.1.isSome) ∧
    ∀ n ∈ names, (members.filter fun m => m.1 = some n).map (·.2) = (value? n).toList
  | array items => items.length ≤ names.length ∧
    ∀ (i : Nat) n, names[i]? = some n → value? n = items[i]?
  | _ => False

theorem toList_head?_of_length_le_one {α : Type} {l : List α} (h : l.length ≤ 1) :
    l.head?.toList = l := by
  match l, h with
  | [], _ => rfl
  | [_], _ => rfl

theorem fields?_object_eq_some_iff {names : List String} {members : List (Option String × Json)}
    {values : List (Option Json)} :
    (object members).fields? names = some values ↔
      ∃ value?, (object members).IsRecord names value? ∧ values = names.map value? := by
  have hcondition : (members.all (fun m => m.1.isSome) &&
      names.all fun n => (members.filter fun m => m.1 = some n).length ≤ 1) = true ↔
      (∀ m ∈ members, m.1.isSome) ∧
        ∀ n ∈ names, (members.filter fun m => m.1 = some n).length ≤ 1 := by simp
  rw [fields?]
  constructor
  · intro h
    split at h
    · rename_i hread
      obtain ⟨hnamed, honce⟩ := hcondition.1 hread
      refine ⟨_, ⟨hnamed, fun n hn => ?_⟩, (Option.some.inj h).symm⟩
      rw [← List.head?_filter, ← List.head?_map, toList_head?_of_length_le_one]
      rw [List.length_map]
      exact honce n hn
    · cases h
  · rintro ⟨value?, ⟨hnamed, hvalue⟩, rfl⟩
    have honce : ∀ n ∈ names, (members.filter fun m => m.1 = some n).length ≤ 1 := by
      intro n hn
      rw [← List.length_map (·.2), hvalue n hn]
      cases value? n <;> simp
    rw [if_pos (hcondition.2 ⟨hnamed, honce⟩), Option.some.injEq]
    refine List.map_congr_left fun n hn => ?_
    rw [← List.head?_filter, ← List.head?_map, hvalue n hn, Option.head?_toList]

/-- The items of an array, and nothing for the fields behind its end. -/
theorem map_value?_of_array {names : List String} {items : List Json}
    {value? : String → Option Json} (h : (array items).IsRecord names value?) :
    items.map some ++ List.replicate (names.length - items.length) none = names.map value? := by
  obtain ⟨hlength, hvalue⟩ := h
  refine List.ext_getElem? fun i => ?_
  rw [List.getElem?_map]
  cases hname : names[i]? with
  | none =>
    have hi := List.getElem?_eq_none_iff.1 hname
    rw [List.getElem?_eq_none_iff.2]
    · rfl
    · rw [List.length_append, List.length_map, List.length_replicate]
      omega
  | some n =>
    obtain ⟨hi, _⟩ := List.getElem?_eq_some_iff.1 hname
    rw [Option.map_some, hvalue i n hname]
    by_cases hitem : i < items.length
    · rw [List.getElem?_append_left (by rwa [List.length_map]), List.getElem?_map,
        List.getElem?_eq_getElem hitem, Option.map_some]
    · have hbehind : items.length ≤ i := Nat.le_of_not_lt hitem
      rw [List.getElem?_append_right (by rwa [List.length_map]), List.length_map,
        List.getElem?_replicate_of_lt (by omega), List.getElem?_eq_none_iff.2 hbehind]

theorem fields?_array_eq_some_iff {names : List String} (hnames : names.Nodup) {items : List Json}
    {values : List (Option Json)} :
    (array items).fields? names = some values ↔
      ∃ value?, (array items).IsRecord names value? ∧ values = names.map value? := by
  rw [fields?]
  constructor
  · intro h
    split at h
    · rename_i hlength
      have hrecord : (array items).IsRecord names fun n => items[names.idxOf n]? := by
        refine ⟨hlength, fun i n hname => ?_⟩
        obtain ⟨hi, rfl⟩ := List.getElem?_eq_some_iff.1 hname
        exact congrArg (fun k => items[k]?) (hnames.idxOf_getElem i hi)
      exact ⟨_, hrecord, map_value?_of_array hrecord ▸ (Option.some.inj h).symm⟩
    · cases h
  · rintro ⟨value?, hrecord, rfl⟩
    rw [if_pos hrecord.1, map_value?_of_array hrecord]

/-- **The fields of a record are read just as they are given.** -/
theorem fields?_eq_some_iff {names : List String} (hnames : names.Nodup) {j : Json}
    {values : List (Option Json)} :
    j.fields? names = some values ↔
      ∃ value?, j.IsRecord names value? ∧ values = names.map value? := by
  cases j with
  | object members => exact fields?_object_eq_some_iff
  | array items => exact fields?_array_eq_some_iff hnames
  | null | bool | number | string =>
    refine ⟨fun h => ?_, fun ⟨_, h, _⟩ => h.elim⟩
    cases h

/-! ## Values -/

theorem text?_eq_some_iff {j : Json} {text : String} :
    j.text? = some text ↔ j = string (some text) := by
  cases j <;> simp [text?]

theorem mapM_eq_some_iff {α β : Type} {f : α → Option β} {r : α → β → Prop}
    (hf : ∀ x y, f x = some y ↔ r x y) {l : List α} {ys : List β} :
    l.mapM f = some ys ↔ List.Forall₂ r l ys := by
  induction l generalizing ys with
  | nil =>
    rw [List.mapM_nil, List.forall₂_nil_left_iff]
    exact ⟨fun h => (Option.some.inj h).symm, fun h => h ▸ rfl⟩
  | cons x l ih =>
    rw [List.mapM_cons, List.forall₂_cons_left_iff]
    simp only [← ih, ← hf]
    cases hx : f x with
    | none => simp
    | some y => cases hl : l.mapM f <;> simp [eq_comm]

/-- A list is read just if each of its items is. -/
theorem listOf?_eq_some_iff {α : Type} {f : Json → Option α} {r : Json → α → Prop}
    (hf : ∀ item x, f item = some x ↔ r item x) {j : Json} {xs : List α} :
    j.listOf? f = some xs ↔ ∃ items, j = array items ∧ List.Forall₂ r items xs := by
  cases j with
  | array items => simp [listOf?, mapM_eq_some_iff hf]
  | null | bool | number | string | object => simp [listOf?]

end IncludeAudit.Json
