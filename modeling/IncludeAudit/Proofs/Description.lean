import IncludeAudit.Description
import IncludeAudit.Proofs.Outcome
import IncludeAudit.Proofs.Text.Bytes
import IncludeAudit.Proofs.Text.Part
import Mathlib.Data.List.Induction
import Mathlib.Data.List.Sort

/-! # Labels and the targets they stand for

A description lists its targets by label, each label once and in the order of the bytes
(`pairwise_labels`), so it is known by what it lists (`items_eq_of_mem_iff`).  A look-up finds what
is listed under a label without its toolchain (`get_eq_ok_iff`).
-/
namespace IncludeAudit

/-- A label with a toolchain. -/
def withToolchain (base toolchain : String) : String := base ++ "(" ++ toolchain ++ ")"

theorem removeToolchain_of_not_mem {label : String} (h : '(' ∉ label.toList) :
    removeToolchain label = label :=
  Text.beforeLast_of_not_mem h

/-- A toolchain is removed if no parenthesis opens in it. -/
theorem removeToolchain_withToolchain (base : String) {toolchain : String}
    (h : '(' ∉ toolchain.toList) : removeToolchain (withToolchain base toolchain) = base := by
  have hsuffix : ("(" ++ (toolchain ++ ")")).toList = '(' :: (toolchain.toList ++ [')']) := by simp
  rw [removeToolchain, withToolchain, String.append_assoc, String.append_assoc]
  exact Text.beforeLast_append hsuffix (by simpa using h)

namespace Description

variable {d : Description} {label : String} {t : Target}

/-- A label is listed with the target for which it stands. -/
theorem mem_items_iff : (label, t) ∈ d.items ↔ d.targets[label]? = some t :=
  Std.TreeMap.mem_toList_iff_getElem?_eq_some

theorem size_eq (d : Description) : d.size = d.items.length :=
  Std.TreeMap.length_toList.symm

/-! ## The order of labels -/

/-- The labels are in increasing order, so none is listed twice. -/
theorem pairwise_items (d : Description) : d.items.Pairwise fun x y => x.1 < y.1 := by
  have hordered : d.items.Pairwise fun x y => compare x.1 y.1 = .lt :=
    Std.TreeMap.ordered_keys_toList
  exact hordered.imp compareOfLessAndEq_eq_lt.1

/-- The same by bytes, which order strings as their characters do. -/
theorem pairwise_labels (d : Description) :
    (d.items.map (·.1)).Pairwise fun k l => Glob.bytes k.toList < Glob.bytes l.toList :=
  List.pairwise_map.2 (d.pairwise_items.imp fun h => Glob.bytes_lt_bytes (String.lt_iff.1 h))

/-- What a description lists determines the list. -/
theorem items_eq_of_mem_iff {ts : List (String × Target)}
    (hts : ts.Pairwise fun x y => x.1 < y.1) (h : ∀ x, x ∈ d.items ↔ x ∈ ts) : d.items = ts := by
  have hasymm : Std.Asymm fun x y : String × Target => x.1 < y.1 :=
    ⟨fun _ _ hxy hyx => String.lt_asymm hxy hyx⟩
  exact d.pairwise_items.eq_of_mem_iff hts h

/-! ## Parts of descriptions, and descriptions made from lists -/

theorem items_filter (d : Description) (condition : Target → Bool) :
    (d.filter condition).items = d.items.filter fun x => condition x.2 :=
  Std.TreeMap.toList_filter

theorem items_singleton (x : String × Target) : (ofList [x]).items = [x] := rfl

/-- The last target with a label is the one that counts. -/
theorem mem_items_ofList_concat_iff (ts : List (String × Target)) (x : String × Target) :
    (label, t) ∈ (ofList (ts ++ [x])).items ↔
      if x.1 = label then x.2 = t else (label, t) ∈ (ofList ts).items := by
  rw [mem_items_iff, ofList, List.foldl_append, List.foldl_cons, List.foldl_nil,
    Std.TreeMap.getElem?_insert]
  by_cases hx : x.1 = label
  · simp [hx]
  · simp [hx, mem_items_iff, ofList]

/-- A list in which every label stands for one target is kept as it is, up to its order. -/
theorem mem_items_ofList_iff {ts : List (String × Target)}
    (h : ∀ x ∈ ts, ∀ y ∈ ts, x.1 = y.1 → x.2 = y.2) :
    (label, t) ∈ (ofList ts).items ↔ (label, t) ∈ ts := by
  induction ts using List.reverseRecOn with
  | nil => simp [mem_items_iff, ofList]
  | append_singleton ts x ih =>
    have hts : ∀ y ∈ ts, ∀ z ∈ ts, y.1 = z.1 → y.2 = z.2 := fun y hy z hz =>
      h y (List.mem_append_left _ hy) z (List.mem_append_left _ hz)
    have hlast : x ∈ ts ++ [x] := List.mem_append_right _ (List.mem_singleton_self x)
    rw [mem_items_ofList_concat_iff, ih hts]
    split
    · rename_i hx
      -- what the label stood for before is the same target
      refine ⟨fun hxt => ?_, fun hmem => h x hlast _ hmem hx⟩
      exact (Prod.ext hx hxt : x = (label, t)) ▸ hlast
    · rename_i hx
      have hne : (label, t) ≠ x := fun heq => hx (heq ▸ rfl)
      rw [List.mem_append, List.mem_singleton, or_iff_left hne]

theorem parse_eq_ok {text : String} {ts : List (String × Target)}
    (h : (do (← (← Json.parse? text).table?).mapM fun m => do some (m.1, ← Target.ofJson? m.2)) =
      some ts) : parse text = .ok (ofList ts) := by
  rw [parse, h]

theorem load_eq_ok {fs : FileSystem} {file : Path} {text : String}
    (hread : fs.read file = .ok text) (hparse : parse text = .ok d) : load fs file = .ok d := by
  rw [load, hread]
  exact mapError_eq_ok_iff.2 hparse

/-! ## Looking up -/

theorem get_eq_ok_iff : d.get label = .ok t ↔ (removeToolchain label, t) ∈ d.items := by
  rw [mem_items_iff, get, Std.TreeMap.get?_eq_getElem?]
  cases d.targets[removeToolchain label]? <;> simp

/-- The label is reported as it was given, with its toolchain. -/
theorem get_eq_error (h : ∀ t, (removeToolchain label, t) ∉ d.items) :
    d.get label = .error (.unknownTarget label) := by
  simp only [mem_items_iff] at h
  rw [get, Std.TreeMap.get?_eq_getElem?, Option.eq_none_iff_forall_ne_some.2 h]

/-- What is listed under a label that names no toolchain is found under it. -/
theorem get_of_mem_items (h : (label, t) ∈ d.items) (hlabel : '(' ∉ label.toList) :
    d.get label = .ok t := by
  rw [get_eq_ok_iff, removeToolchain_of_not_mem hlabel]
  exact h

/-- Whatever its toolchain, a label stands for the same target. -/
theorem get_withToolchain_eq_ok_iff (base : String) {toolchain : String}
    (h : '(' ∉ toolchain.toList) :
    d.get (withToolchain base toolchain) = .ok t ↔ (base, t) ∈ d.items := by
  rw [get_eq_ok_iff, removeToolchain_withToolchain base h]

/-- A label that is not listed is not found with a toolchain either, and the failure names both. -/
theorem get_withToolchain_eq_error {base toolchain : String} (h : '(' ∉ toolchain.toList)
    (hbase : ∀ t, (base, t) ∉ d.items) :
    d.get (withToolchain base toolchain) = .error (.unknownTarget (withToolchain base toolchain)) :=
  get_eq_error fun t => (removeToolchain_withToolchain base h).symm ▸ hbase t

end Description

end IncludeAudit
