import IncludeAudit.Overlay
import IncludeAudit.Proofs.Json.Record
import IncludeAudit.Proofs.Table

/-! # What an overlay document means

An overlay is the list of pairs of its document, and of a physical path the last pair counts
(`resolve_ofPairs_of_isLast`).  Which pairs a document lists is described without reading it
(`Lists`).  The two forms a document can have exclude each other (`flatPairs?_or_nestedPairs?`), so
it does not matter which one is tried first, and the document lists one list of pairs at most
(`pairs?_eq_some_iff`).
-/
namespace IncludeAudit.Overlay

open Json (IsRecord fields?_eq_some_iff text?_eq_some_iff listOf?_eq_some_iff)

/-! ## Tables -/

theorem ofPairs_concat (pairs : List (String × String)) (x : String × String) :
    ofPairs (pairs ++ [x]) = ⟨(ofPairs pairs).table.insert x.1 x.2⟩ := by
  rw [ofPairs, List.foldl_append]
  rfl

/-- A later entry takes the place of an earlier one for the same file. -/
theorem resolve_ofPairs_concat (pairs : List (String × String)) (x : String × String)
    (physical fallback : String) :
    (ofPairs (pairs ++ [x])).resolve physical fallback =
      if x.1 = physical then x.2 else (ofPairs pairs).resolve physical fallback := by
  rw [ofPairs_concat, resolve, Std.HashMap.getD_insert]
  simp only [beq_iff_eq]
  rfl

/-- The last pair of a physical path has the logical path `logical`. -/
def IsLast (pairs : List (String × String)) (physical logical : String) : Prop :=
  ∃ before after, pairs = before ++ (physical, logical) :: after ∧ ∀ x ∈ after, x.1 ≠ physical

/-- So the last entry for a file decides what it is called. -/
theorem resolve_ofPairs_of_isLast {pairs : List (String × String)} {physical logical : String}
    (h : IsLast pairs physical logical) (fallback : String) :
    (ofPairs pairs).resolve physical fallback = logical := by
  obtain ⟨before, after, rfl, hafter⟩ := h
  induction after using List.reverseRecOn with
  | nil => rw [resolve_ofPairs_concat, if_pos rfl]
  | append_singleton after x ih =>
    obtain ⟨hafter, hx⟩ := List.forall_mem_append.1 hafter
    rw [← List.cons_append, ← List.append_assoc, resolve_ofPairs_concat,
      if_neg (hx x (List.mem_singleton_self x)), ih hafter]

/-- A file without an entry is called by the name that is given for that case. -/
theorem resolve_ofPairs_of_forall_ne {pairs : List (String × String)} {physical : String}
    (h : ∀ x ∈ pairs, x.1 ≠ physical) (fallback : String) :
    (ofPairs pairs).resolve physical fallback = fallback := by
  induction pairs using List.reverseRecOn with
  | nil => exact Std.HashMap.getD_empty
  | append_singleton pairs x ih =>
    obtain ⟨hpairs, hx⟩ := List.forall_mem_append.1 h
    rw [resolve_ofPairs_concat, if_neg (hx x (List.mem_singleton_self x)), ih hpairs]

/-- A physical path takes one place in the table, however often it is mapped. -/
theorem size_ofPairs (pairs : List (String × String)) :
    (ofPairs pairs).size = (pairs.map Prod.fst).toFinset.card :=
  Table.size_fill Prod.fst (fun _ x => x.2) pairs

/-! ## Documents -/

/-- A record of two fields that are texts. -/
def IsTextPair (first second : String) (j : Json) (x : String × String) : Prop :=
  ∃ value?, j.IsRecord [first, second] value? ∧
    value? first = some (.string (some x.1)) ∧ value? second = some (.string (some x.2))

/-- A root with its type, its path and its files, each with the physical path it is read from. The
files may be left out. -/
def IsRoot (j : Json) (root : String × Path × List (String × String)) : Prop :=
  ∃ value?, j.IsRecord ["type", "name", "contents"] value? ∧
    value? "type" = some (.string (some root.1)) ∧
    value? "name" = some (.string (some root.2.1.text)) ∧
    (value? "contents" = none ∧ root.2.2 = [] ∨
      ∃ items, value? "contents" = some (.array items) ∧
        List.Forall₂ (IsTextPair "name" "external-contents") items root.2.2)

/-- The pairs of some roots in their order: for each file of each directory the physical path, and
the path of the directory joined with the file's name. -/
def pairsOfRoots (roots : List (String × Path × List (String × String))) :
    List (String × String) :=
  (roots.filter fun root => root.1 = "directory").flatMap fun root =>
    root.2.2.map fun file => (file.2, (root.2.1.join ⟨file.1⟩).text)

/-- The pairs that a document lists: those of a flat list, which gives the physical path of a pair
as its target and the logical path as its source, or those of the roots of a compiler's overlay. -/
inductive Lists : Json → List (String × String) → Prop
  | flat {items : List Json} {pairs : List (String × String)}
    (hitems : List.Forall₂ (IsTextPair "target" "source") items pairs) : Lists (.array items) pairs
  | nested {j : Json} {value? : String → Option Json} {items : List Json}
    {roots : List (String × Path × List (String × String))} (hj : j.IsRecord ["roots"] value?)
    (hvalue : value? "roots" = some (.array items)) (hitems : List.Forall₂ IsRoot items roots) :
    Lists j (pairsOfRoots roots)

/-- The reader of a record with two texts accepts just these records. -/
theorem textPair_eq_some_iff {first second : String} (hne : first ≠ second) {j : Json}
    {x : String × String} :
    (do match ← j.fields? [first, second] with
      | [s, t] => some (← (← s).text?, ← (← t).text?)
      | _ => none) = some x ↔ IsTextPair first second j x := by
  have hnames : [first, second].Nodup := by simpa using hne
  constructor
  · intro h
    obtain ⟨values, hfields, h⟩ := Option.bind_eq_some_iff.1 h
    obtain ⟨value?, hrecord, rfl⟩ := (fields?_eq_some_iff hnames).1 hfields
    obtain ⟨s, hs, h⟩ := Option.bind_eq_some_iff.1 h
    obtain ⟨a, ha, h⟩ := Option.bind_eq_some_iff.1 h
    obtain ⟨t, ht, h⟩ := Option.bind_eq_some_iff.1 h
    obtain ⟨b, hb, h⟩ := Option.bind_eq_some_iff.1 h
    cases h
    rw [text?_eq_some_iff.1 ha] at hs
    rw [text?_eq_some_iff.1 hb] at ht
    exact ⟨value?, hrecord, hs, ht⟩
  · rintro ⟨value?, hrecord, hs, ht⟩
    rw [(fields?_eq_some_iff hnames).2 ⟨value?, hrecord, rfl⟩]
    simp only [List.map_cons, List.map_nil, hs, ht]
    rfl

theorem flatPairs?_eq_some_iff {j : Json} {pairs : List (String × String)} :
    flatPairs? j = some pairs ↔
      ∃ items, j = .array items ∧ List.Forall₂ (IsTextPair "target" "source") items pairs :=
  listOf?_eq_some_iff fun _ _ => textPair_eq_some_iff (by decide)

theorem file?_eq_some_iff {j : Json} {x : String × String} :
    file? j = some x ↔ IsTextPair "name" "external-contents" j x :=
  textPair_eq_some_iff (by decide)

theorem defaulted?_eq_some_iff {v? : Option Json} {files : List (String × String)} :
    Json.defaulted? [] (Json.listOf? file?) v? = some files ↔
      v? = none ∧ files = [] ∨ ∃ items, v? = some (.array items) ∧
        List.Forall₂ (IsTextPair "name" "external-contents") items files := by
  cases v? with
  | none => simp [Json.defaulted?, eq_comm]
  | some j =>
    have hlist : j.listOf? file? = some files ↔ ∃ items, j = .array items ∧
        List.Forall₂ (IsTextPair "name" "external-contents") items files :=
      listOf?_eq_some_iff fun _ _ => file?_eq_some_iff
    simpa [Json.defaulted?] using hlist

/-- The reader of a root accepts just these records. -/
theorem root?_eq_some_iff {j : Json} {root : String × Path × List (String × String)} :
    root? j = some root ↔ IsRoot j root := by
  have hnames : ["type", "name", "contents"].Nodup := by decide
  constructor
  · intro h
    obtain ⟨values, hfields, h⟩ := Option.bind_eq_some_iff.1 h
    obtain ⟨value?, hrecord, rfl⟩ := (fields?_eq_some_iff hnames).1 hfields
    obtain ⟨s, hs, h⟩ := Option.bind_eq_some_iff.1 h
    obtain ⟨type, htype, h⟩ := Option.bind_eq_some_iff.1 h
    obtain ⟨t, ht, h⟩ := Option.bind_eq_some_iff.1 h
    obtain ⟨name, hname, h⟩ := Option.bind_eq_some_iff.1 h
    obtain ⟨files, hfiles, h⟩ := Option.bind_eq_some_iff.1 h
    cases h
    rw [text?_eq_some_iff.1 htype] at hs
    rw [text?_eq_some_iff.1 hname] at ht
    exact ⟨value?, hrecord, hs, ht, defaulted?_eq_some_iff.1 hfiles⟩
  · rintro ⟨value?, hrecord, htype, hname, hfiles⟩
    have hfields := (fields?_eq_some_iff hnames).2 ⟨value?, hrecord, rfl⟩
    refine Option.bind_eq_some_iff.2 ⟨_, hfields, Option.bind_eq_some_iff.2 ⟨_, htype, ?_⟩⟩
    refine Option.bind_eq_some_iff.2 ⟨_, rfl, Option.bind_eq_some_iff.2 ⟨_, hname, ?_⟩⟩
    refine Option.bind_eq_some_iff.2 ⟨_, rfl, Option.bind_eq_some_iff.2 ⟨_, ?_, rfl⟩⟩
    exact defaulted?_eq_some_iff.2 hfiles

/-- Only directories give pairs; a root of another type is passed over. -/
theorem flatMap_rootPairs (roots : List (String × Path × List (String × String))) :
    roots.flatMap rootPairs = pairsOfRoots roots := by
  induction roots with
  | nil => rfl
  | cons root roots ih =>
    obtain ⟨type, name, files⟩ := root
    rw [List.flatMap_cons, ih, pairsOfRoots, pairsOfRoots, rootPairs]
    by_cases htype : type = "directory" <;> simp [htype]

theorem nestedPairs?_eq_some_iff {j : Json} {pairs : List (String × String)} :
    nestedPairs? j = some pairs ↔
      ∃ value? items roots, j.IsRecord ["roots"] value? ∧ value? "roots" = some (.array items) ∧
        List.Forall₂ IsRoot items roots ∧ pairsOfRoots roots = pairs := by
  have hnames : ["roots"].Nodup := by decide
  constructor
  · intro h
    obtain ⟨values, hfields, h⟩ := Option.bind_eq_some_iff.1 h
    obtain ⟨value?, hrecord, rfl⟩ := (fields?_eq_some_iff hnames).1 hfields
    obtain ⟨s, hs, h⟩ := Option.bind_eq_some_iff.1 h
    obtain ⟨roots, hroots, hpairs⟩ := Option.bind_eq_some_iff.1 h
    obtain ⟨items, rfl, hitems⟩ := (listOf?_eq_some_iff fun _ _ => root?_eq_some_iff).1 hroots
    rw [flatMap_rootPairs] at hpairs
    exact ⟨value?, items, roots, hrecord, hs, hitems, Option.some.inj hpairs⟩
  · rintro ⟨value?, items, roots, hrecord, hvalue, hitems, rfl⟩
    have hfields := (fields?_eq_some_iff hnames).2 ⟨value?, hrecord, rfl⟩
    have hroots := (listOf?_eq_some_iff fun _ _ => root?_eq_some_iff).2 ⟨items, rfl, hitems⟩
    refine Option.bind_eq_some_iff.2 ⟨_, hfields, Option.bind_eq_some_iff.2 ⟨_, hvalue, ?_⟩⟩
    refine Option.bind_eq_some_iff.2 ⟨roots, hroots, ?_⟩
    rw [flatMap_rootPairs]

/-! ## The two forms -/

/-- A text is no root, so that a list of texts is not taken for a list of roots. -/
theorem not_isRoot_string {text? : Option String} {root : String × Path × List (String × String)} :
    ¬ IsRoot (.string text?) root :=
  fun ⟨_, hrecord, _⟩ => hrecord

/-- **No document has both forms.**  One that had would be an array of one pair, and this pair a
list of roots; but its first item is a text, which is no root. -/
theorem flatPairs?_or_nestedPairs? (j : Json) : flatPairs? j = none ∨ nestedPairs? j = none := by
  cases hflat : flatPairs? j with
  | none => exact Or.inl rfl
  | some pairs =>
    right
    rw [Option.eq_none_iff_forall_ne_some]
    intro others hnested
    obtain ⟨documents, rfl, hpairs⟩ := flatPairs?_eq_some_iff.1 hflat
    obtain ⟨value?, items, roots, ⟨_, hfirst⟩, hvalue, hroots, _⟩ :=
      nestedPairs?_eq_some_iff.1 hnested
    have hpair : documents[0]? = some (.array items) := (hfirst 0 "roots" rfl).symm.trans hvalue
    obtain ⟨rest, rfl⟩ := List.head?_eq_some_iff.1 (List.head?_eq_getElem? .. ▸ hpair)
    obtain ⟨x, _, ⟨pair?, ⟨_, hfields⟩, htarget, _⟩, _, _⟩ := List.forall₂_cons_left_iff.1 hpairs
    have htext : items[0]? = some (.string (some x.1)) :=
      (hfields 0 "target" rfl).symm.trans htarget
    obtain ⟨more, rfl⟩ := List.head?_eq_some_iff.1 (List.head?_eq_getElem? .. ▸ htext)
    obtain ⟨root, _, hroot, _, _⟩ := List.forall₂_cons_left_iff.1 hroots
    exact not_isRoot_string hroot

/-- The forms may be tried in either order. -/
theorem pairs?_eq_or (j : Json) : pairs? j = (nestedPairs? j).or (flatPairs? j) := by
  rw [pairs?]
  rcases flatPairs?_or_nestedPairs? j with h | h
  · rw [h, Option.none_or, Option.or_none]
  · rw [h, Option.none_or, Option.or_none]

/-- What is read from a document is what it lists. -/
theorem pairs?_eq_some_iff {j : Json} {pairs : List (String × String)} :
    pairs? j = some pairs ↔ Lists j pairs := by
  constructor
  · intro h
    rcases Option.or_eq_some_iff.1 h with h | ⟨_, h⟩
    · obtain ⟨items, rfl, hitems⟩ := flatPairs?_eq_some_iff.1 h
      exact .flat hitems
    · obtain ⟨value?, items, roots, hj, hvalue, hitems, rfl⟩ := nestedPairs?_eq_some_iff.1 h
      exact .nested hj hvalue hitems
  · intro h
    cases h with
    | flat hitems => rw [pairs?, flatPairs?_eq_some_iff.2 ⟨_, rfl, hitems⟩, Option.some_or]
    | nested hj hvalue hitems =>
      rw [pairs?_eq_or, nestedPairs?_eq_some_iff.2 ⟨_, _, _, hj, hvalue, hitems, rfl⟩,
        Option.some_or]

theorem parse_eq_ok_iff {text : String} {o : Overlay} :
    parse text = .ok o ↔ ∃ j pairs, Json.parse? text = some j ∧
      j.isKept Json.depthLimit = true ∧ Lists j pairs ∧ o = ofPairs pairs := by
  constructor
  · intro h
    rw [parse] at h
    split at h
    · rename_i pairs hread
      obtain ⟨j, hj, hpairs⟩ := Option.bind_eq_some_iff.1 hread
      split at hpairs
      · rename_i hkept
        exact ⟨j, pairs, hj, hkept, pairs?_eq_some_iff.1 hpairs, (Except.ok.inj h).symm⟩
      · cases hpairs
    · cases h
  · rintro ⟨j, pairs, hj, hkept, hlists, rfl⟩
    have hread : ((Json.parse? text).bind fun j =>
        if j.isKept Json.depthLimit then pairs? j else none) = some pairs :=
      Option.bind_eq_some_iff.2 ⟨j, hj, by rw [if_pos hkept, pairs?_eq_some_iff.2 hlists]⟩
    rw [parse]
    split
    · rename_i h
      rw [Option.some.inj (h.symm.trans hread)]
    · rename_i h
      cases h.symm.trans hread

/-- **What a document means.**  It has one form at most, so that the order in which the forms are
tried does not matter.  It is read just if it can be kept and has one of them; and then the logical
path of a physical one is that of its last pair, a path without a pair has the fallback, and each
physical path counts once. -/
theorem parse_meaning (text : String) :
    (∀ j, (flatPairs? j = none ∨ nestedPairs? j = none) ∧
      pairs? j = (nestedPairs? j).or (flatPairs? j)) ∧
    ((∃ o, parse text = .ok o) ↔ ∃ j pairs, Json.parse? text = some j ∧
      j.isKept Json.depthLimit = true ∧ Lists j pairs) ∧
    ∀ o, parse text = .ok o → ∃ j pairs, Json.parse? text = some j ∧ Lists j pairs ∧
      (∀ physical logical fallback, IsLast pairs physical logical →
        o.resolve physical fallback = logical) ∧
      (∀ physical fallback, (∀ x ∈ pairs, x.1 ≠ physical) →
        o.resolve physical fallback = fallback) ∧
      o.size = (pairs.map Prod.fst).toFinset.card := by
  refine ⟨fun j => ⟨flatPairs?_or_nestedPairs? j, pairs?_eq_or j⟩, ?_, ?_⟩
  · simp only [parse_eq_ok_iff]
    constructor
    · rintro ⟨_, j, pairs, hj, hkept, hlists, _⟩
      exact ⟨j, pairs, hj, hkept, hlists⟩
    · rintro ⟨j, pairs, hj, hkept, hlists⟩
      exact ⟨_, j, pairs, hj, hkept, hlists, rfl⟩
  · intro o ho
    obtain ⟨j, pairs, hj, _, hlists, rfl⟩ := parse_eq_ok_iff.1 ho
    refine ⟨j, pairs, hj, hlists, ?_, ?_, size_ofPairs pairs⟩
    · exact fun _ _ fallback h => resolve_ofPairs_of_isLast h fallback
    · exact fun _ fallback h => resolve_ofPairs_of_forall_ne h fallback

/-! ## A sample

Two directories map one physical path, and a root between them is no directory.  Records are written
as arrays and as objects.
-/
namespace Sample

def layeredText : String :=
  "\x7b\"roots\": [[\"directory\", \"/w\", [[\"a.h\", \"gen/x\"], [\"b.h\", \"gen/y\"]]], " ++
  "\x7b\"type\": \"file\", \"name\": \"z.h\", \"contents\": [[\"z.h\", \"gen/z\"]]\x7d, " ++
  "\x7b\"name\": \"v/\", \"type\": \"directory\", \"contents\": " ++
  "[\x7b\"external-contents\": \"gen/x\", \"name\": \"c.h\"\x7d]\x7d]\x7d"

def layeredPairs : List (String × String) :=
  [("gen/x", "/w/a.h"), ("gen/y", "/w/b.h"), ("gen/x", "v/c.h")]

theorem pairs?_layeredText : ((Json.parse? layeredText).bind fun j =>
    if j.isKept Json.depthLimit then pairs? j else none) = some layeredPairs := by
  decide +kernel

end Sample

/-- The later directory counts, and the root that is no directory does not. -/
theorem parse_meaning_sample :
    ∃ o, parse Sample.layeredText = .ok o ∧ o.resolve "gen/x" "none" = "v/c.h" ∧
      o.resolve "gen/z" "none" = "none" ∧ o.size = 2 := by
  obtain ⟨_, hread, hmeaning⟩ := parse_meaning Sample.layeredText
  obtain ⟨j, hj, hpairs⟩ := Option.bind_eq_some_iff.1 Sample.pairs?_layeredText
  split at hpairs
  · rename_i hkept
    obtain ⟨o, ho⟩ := hread.2 ⟨j, _, hj, hkept, pairs?_eq_some_iff.1 hpairs⟩
    obtain ⟨k, pairs, hk, hlists, hlast, hother, hsize⟩ := hmeaning o ho
    obtain rfl : j = k := Option.some.inj (hj.symm.trans hk)
    obtain rfl : Sample.layeredPairs = pairs :=
      Option.some.inj (hpairs.symm.trans (pairs?_eq_some_iff.2 hlists))
    refine ⟨o, ho, hlast _ _ _ ?_, hother _ _ (by decide), hsize⟩
    exact ⟨[("gen/x", "/w/a.h"), ("gen/y", "/w/b.h")], [], rfl, nofun⟩
  · cases hpairs

end IncludeAudit.Overlay
