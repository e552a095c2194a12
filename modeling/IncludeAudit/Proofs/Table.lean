import Mathlib.Data.Finset.Card
import Mathlib.Data.List.Induction
import Std.Data.HashMap

/-! # Tables filled from lists

A table is filled with the items of a list one after the other, and an item may be kept together
with what its key had before.  Whatever is kept, the table has a place for each key of the list and
for no other, and one place for a key that comes several times (`size_fill`).
-/
namespace IncludeAudit.Table

variable {κ β α : Type} [DecidableEq κ] [Hashable κ]

/-- Fills an empty table. -/
def fill (key : α → κ) (value : Std.HashMap κ β → α → β) (xs : List α) : Std.HashMap κ β :=
  xs.foldl (fun table x => table.insert (key x) (value table x)) {}

variable (key : α → κ) (value : Std.HashMap κ β → α → β)

/-- The last entry is put in last, and may look at what is there. -/
theorem fill_concat (xs : List α) (x : α) :
    fill key value (xs ++ [x]) =
      (fill key value xs).insert (key x) (value (fill key value xs) x) := by
  rw [fill, List.foldl_append]
  rfl

/-- The keys are those of the entries. -/
theorem mem_fill_iff (xs : List α) (k : κ) : k ∈ fill key value xs ↔ k ∈ xs.map key := by
  induction xs using List.reverseRecOn with
  | nil => simp [fill]
  | append_singleton xs x ih =>
    rw [fill_concat, Std.HashMap.mem_insert, ih, List.map_append, List.mem_append, beq_iff_eq,
      List.map_singleton, List.mem_singleton, or_comm, eq_comm]

/-- Entries with the same key count once. -/
theorem size_fill (xs : List α) : (fill key value xs).size = (xs.map key).toFinset.card := by
  have hkeys : (fill key value xs).keys.toFinset = (xs.map key).toFinset := by
    ext k
    rw [List.mem_toFinset, List.mem_toFinset, Std.HashMap.mem_keys, mem_fill_iff]
  rw [← hkeys, List.toFinset_card_of_nodup Std.HashMap.nodup_keys, Std.HashMap.length_keys]

end IncludeAudit.Table
