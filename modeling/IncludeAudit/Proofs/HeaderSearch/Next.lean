import IncludeAudit.Proofs.HeaderSearch
import IncludeAudit.Proofs.Path.Holds

/-! # Where `#include_next` goes on

An `#include_next` searches behind the first directory that holds its file.  The directories are
searched without repetitions, and what is left of those behind that one are the ones that repeat
none before them (`distinct_append`).  A file that is spelled in a directory is held by one, so the
search never starts over (`resolveNext_ofDirectories`).  The directory that holds the file need not
be the one it is spelled in: another way of writing that one may come before it
(`not_forall_resolveNext_eq`).
-/
namespace IncludeAudit

namespace HeaderSearch

/-! ## Directories without repetitions -/

/-- The directories that were kept from the first part count as known in the second. -/
theorem distinctFrom_append (found xs ys : List Path) :
    distinctFrom found (xs ++ ys) = distinctFrom (distinctFrom found xs) ys :=
  List.foldl_append

/-- The directories of a list that repeat none of some others. -/
def newTo (known dirs : List Path) : List Path := dirs.filter fun d => !known.any (·.same d)

/-- Another spelling of a known directory is left out. -/
theorem newTo_cons_of_any {known : List Path} {e : Path} (h : known.any (·.same e) = true)
    (dirs : List Path) : newTo known (e :: dirs) = newTo known dirs :=
  List.filter_cons_of_neg (by simp [h])

theorem newTo_cons_of_not_any {known : List Path} {e : Path} (h : known.any (·.same e) = false)
    (dirs : List Path) : newTo known (e :: dirs) = e :: newTo known dirs :=
  List.filter_cons_of_pos (by simp [h])

/-- What repeats none of the first directories is continued as it would be without them. -/
theorem distinctFrom_append_left (xs ys dirs : List Path) :
    distinctFrom (xs ++ ys) dirs = xs ++ distinctFrom ys (newTo xs dirs) := by
  induction dirs generalizing ys with
  | nil => rfl
  | cons e dirs ih =>
    cases hxs : xs.any (·.same e) with
    | true =>
      rw [distinctFrom_cons_of_any (by rw [List.any_append, hxs, Bool.true_or]),
        newTo_cons_of_any hxs, ih]
    | false =>
      rw [newTo_cons_of_not_any hxs]
      cases hys : ys.any (·.same e) with
      | true =>
        rw [distinctFrom_cons_of_any (by rw [List.any_append, hxs, hys, Bool.false_or]),
          distinctFrom_cons_of_any hys, ih]
      | false =>
        rw [distinctFrom_cons_of_not_any (by rw [List.any_append, hxs, hys, Bool.false_or]),
          distinctFrom_cons_of_not_any hys, List.append_assoc, ih]

/-- No directory is lost: some spelling of it is kept. -/
theorem any_same_distinctFrom (found dirs : List Path) (e : Path) :
    (distinctFrom found dirs).any (·.same e) = (found ++ dirs).any (·.same e) := by
  induction dirs generalizing found with
  | nil => rw [distinctFrom, List.foldl_nil, List.append_nil]
  | cons d dirs ih =>
    cases hfound : found.any (·.same d) with
    | true =>
      rw [distinctFrom_cons_of_any hfound, ih, List.any_append, List.any_append, List.any_cons]
      cases hde : d.same e with
      | false => rw [Bool.false_or]
      | true =>
        -- what `d` repeats is the same as `e`, too
        obtain ⟨c, hc, hcd⟩ := List.any_eq_true.1 hfound
        have hce : c.same e = true :=
          decide_eq_true ((of_decide_eq_true hcd).trans (of_decide_eq_true hde))
        rw [List.any_eq_true.2 ⟨c, hc, hce⟩, Bool.true_or, Bool.true_or]
    | false =>
      rw [distinctFrom_cons_of_not_any hfound, ih, List.append_assoc, List.singleton_append]

theorem mem_of_mem_distinctFrom {found dirs : List Path} {d : Path}
    (h : d ∈ distinctFrom found dirs) : d ∈ found ++ dirs := by
  induction dirs generalizing found with
  | nil => exact List.mem_append_left _ h
  | cons e dirs ih =>
    cases hfound : found.any (·.same e) with
    | true =>
      rw [distinctFrom_cons_of_any hfound] at h
      rcases List.mem_append.1 (ih h) with hd | hd
      · exact List.mem_append_left _ hd
      · exact List.mem_append_right _ (List.mem_cons_of_mem e hd)
    | false =>
      rw [distinctFrom_cons_of_not_any hfound] at h
      have hd := ih h
      rwa [List.append_assoc] at hd

/-- Nothing is added. -/
theorem mem_of_mem_distinct {dirs : List Path} {d : Path} (h : d ∈ distinct dirs) : d ∈ dirs :=
  mem_of_mem_distinctFrom h

/-- **Of further directories those stay that are new.** -/
theorem distinct_append (xs ys : List Path) :
    distinct (xs ++ ys) = distinct xs ++ distinct (newTo xs ys) := by
  have hknown : newTo (distinct xs) ys = newTo xs ys := by
    rw [newTo, newTo]
    refine List.filter_congr fun d _ => ?_
    rw [distinct_eq, any_same_distinctFrom, List.nil_append]
  have h := distinctFrom_append_left (distinct xs) [] ys
  rw [List.append_nil, hknown] at h
  rw [distinct_eq, distinctFrom_append]
  exact h

/-- A directory that is new is kept in the last place. -/
theorem distinct_concat {xs : List Path} {e : Path} (h : xs.any (·.same e) = false) :
    distinct (xs ++ [e]) = distinct xs ++ [e] := by
  rw [distinct_append, newTo_cons_of_not_any h]
  rfl

/-! ## The directory that holds the file -/

/-- Directories that do not hold the file are passed over. -/
theorem behind?_append {f : Path} {before : List Path} (h : ∀ b ∈ before, b.holds f = false)
    (dirs : List Path) : behind? f (before ++ dirs) = behind? f dirs := by
  induction before with
  | nil => rfl
  | cons b before ih =>
    obtain ⟨hb, hbefore⟩ := List.forall_mem_cons.1 h
    rw [List.cons_append, behind?, if_neg (by rw [← Path.holds, hb]; exact Bool.false_ne_true)]
    exact ih hbefore

/-- The search goes on behind the first one that does. -/
theorem behind?_cons_of_holds {f d : Path} (h : d.holds f = true) (dirs : List Path) :
    behind? f (d :: dirs) = some dirs := by
  rw [behind?]
  exact if_pos h

/-- Which directory is the first to hold a file does not depend on repetitions. -/
theorem behind?_distinct {f e : Path} {before after : List Path} (he : e.holds f = true)
    (hbefore : ∀ b ∈ before, b.holds f = false) :
    behind? f (distinct (before ++ e :: after)) =
      some (distinct (newTo (before ++ [e]) after)) := by
  have hnew : before.any (·.same e) = false := by
    rw [List.any_eq_false]
    intro b hb hsame
    have hholds := Path.holds_congr (f := f) (of_decide_eq_true hsame)
    rw [hbefore b hb, he] at hholds
    cases hholds
  rw [List.append_cons, distinct_append, distinct_concat hnew, List.append_assoc,
    behind?_append fun b hb => hbefore b (mem_of_mem_distinct hb)]
  exact behind?_cons_of_holds he _

/-- The first directory that holds a file does not stand behind any other one that holds it. -/
theorem exists_first_holds {f d : Path} {dirs : List Path} (hd : d ∈ dirs)
    (hholds : d.holds f = true) :
    ∃ before e after, dirs = before ++ e :: after ∧ e.holds f = true ∧
      (∀ b ∈ before, b.holds f = false) ∧ d ∈ e :: after := by
  have hsome : (dirs.find? fun e => e.holds f).isSome = true := List.find?_isSome.2 ⟨d, hd, hholds⟩
  obtain ⟨e, hfirst⟩ := Option.isSome_iff_exists.1 hsome
  obtain ⟨he, before, after, rfl, hnone⟩ := List.find?_eq_some_iff_append.1 hfirst
  have hbefore : ∀ b ∈ before, b.holds f = false :=
    fun b hb => Bool.not_eq_eq_eq_not.1 (hnone b hb)
  refine ⟨before, e, after, rfl, he, hbefore, ?_⟩
  rcases List.mem_append.1 hd with hd | hd
  · rw [hbefore d hd] at hholds
    cases hholds
  · exact hd

/-- Quotes make no difference to where the search goes on. -/
theorem resolveNext_of_behind? {s : HeaderSearch} {fs : FileSystem} {header : String} {f : Path}
    {dirs : List Path} (h : behind? f s.includePaths = some dirs) (angled : Bool) :
    s.resolveNext fs header angled f =
      (dirs.find? (has fs s.workingDir header)).map fun d => d.join ⟨header⟩ := by
  rw [resolveNext, h]
  exact s.find?_eq fs dirs header

/-- **`#include_next` moves on.**  A file that is spelled in one of the directories, other than one
for `.`, is held by a first directory `e`, which does not stand behind that one.  The header is then
searched for in the directories behind `e` that repeat none up to `e`, each in its first spelling.
As long as no path is too long, all their spellings may as well be kept. -/
theorem resolveNext_ofDirectories (fs : FileSystem) (workingDir : Path) (quotePaths : List Path)
    {dirs : List Path} {header : String} (hrel : Path.isAbsolute ⟨header⟩ = false) (angled : Bool)
    {d f : Path} (hd : d ∈ dirs) (hspelled : f.IsSpelledIn d) (hdot : d.normalize ≠ ⟨"."⟩) :
    ∃ before e after, dirs = before ++ e :: after ∧ e.holds f = true ∧
      (∀ b ∈ before, b.holds f = false) ∧ d ∈ e :: after ∧
      (ofDirectories workingDir quotePaths dirs).resolveNext fs header angled f =
        ((distinct (newTo (before ++ [e]) after)).find? (has fs workingDir header)).map
          (fun a => a.join ⟨header⟩) ∧
      ((∀ a ∈ newTo (before ++ [e]) after, FileSystem.Fits (workingDir.join (a.join ⟨header⟩))) →
        (ofDirectories workingDir quotePaths dirs).resolveNext fs header angled f =
          ((newTo (before ++ [e]) after).find? (has fs workingDir header)).map
            fun a => a.join ⟨header⟩) := by
  have hholds := Path.holds_of_isSpelledIn hdot hspelled
  obtain ⟨before, e, after, rfl, he, hbefore, hmem⟩ := exists_first_holds hd hholds
  have hresolve : (ofDirectories workingDir quotePaths (before ++ e :: after)).resolveNext fs header
      angled f = ((distinct (newTo (before ++ [e]) after)).find?
        (has fs workingDir header)).map fun a => a.join ⟨header⟩ :=
    resolveNext_of_behind? (behind?_distinct he hbefore) angled
  refine ⟨before, e, after, rfl, he, hbefore, hmem, hresolve, ?_⟩
  intro hfits
  rw [hresolve, find?_has_distinct fs workingDir hrel hfits]

end HeaderSearch

/-! ## A sample

A header lies in two directories, one of which is written in two ways.
-/
namespace Sample

def twoCopies : FileSystem where
  entries := [(["inc".toList], .directory), (["inc".toList, "x.h".toList], .file ""),
    (["b".toList], .directory), (["b".toList, "x.h".toList], .file "")]
  workingDirectory := []

theorem isSpelledIn_inc : Path.IsSpelledIn ⟨"inc/x.h"⟩ ⟨"inc"⟩ := by
  have hcomponents : Path.components ⟨"x.h"⟩ = [.name "x.h".toList] := by decide +kernel
  refine ⟨⟨"x.h"⟩, ?_, by decide +kernel⟩
  intro c hc
  rw [hcomponents] at hc
  exact ⟨_, List.mem_singleton.1 hc⟩

theorem not_isSpelledIn_before :
    ∀ b ∈ [(⟨"./inc"⟩ : Path), ⟨"b"⟩], ¬ Path.IsSpelledIn ⟨"inc/x.h"⟩ b := by
  intro b hb hspelled
  have hstart : ∀ b ∈ [(⟨"./inc"⟩ : Path), ⟨"b"⟩], ¬ b.chars <+: Path.chars ⟨"inc/x.h"⟩ := by
    decide +kernel
  exact hstart b hb hspelled.starts

/-- The first spelling of the directory holds the includer, so the search goes on behind that. -/
theorem resolveNext_twoCopies :
    (HeaderSearch.ofDirectories ⟨"."⟩ [] [⟨"./inc"⟩, ⟨"b"⟩, ⟨"inc"⟩]).resolveNext twoCopies "x.h" true
      ⟨"inc/x.h"⟩ = some ⟨"b/x.h"⟩ := by
  decide +kernel

end Sample

namespace HeaderSearch

theorem resolveNext_ofDirectories_sample :
    (⟨"inc"⟩ : Path) ∈ [(⟨"./inc"⟩ : Path), ⟨"b"⟩, ⟨"inc"⟩] ∧
    Path.IsSpelledIn ⟨"inc/x.h"⟩ ⟨"inc"⟩ ∧ Path.normalize ⟨"inc"⟩ ≠ ⟨"."⟩ ∧
    ∃ before e after, [(⟨"./inc"⟩ : Path), ⟨"b"⟩, ⟨"inc"⟩] = before ++ e :: after ∧
      e.holds ⟨"inc/x.h"⟩ = true ∧
      ((distinct (newTo (before ++ [e]) after)).find?
        (has Sample.twoCopies ⟨"."⟩ "x.h")).map (fun a => a.join ⟨"x.h"⟩) = some ⟨"b/x.h"⟩ := by
  have hmem : (⟨"inc"⟩ : Path) ∈ [(⟨"./inc"⟩ : Path), ⟨"b"⟩, ⟨"inc"⟩] := by decide
  have hdot : Path.normalize ⟨"inc"⟩ ≠ ⟨"."⟩ := by decide +kernel
  have hrel : Path.isAbsolute ⟨"x.h"⟩ = false := rfl
  obtain ⟨before, e, after, hsplit, he, _, _, hresolve, _⟩ := resolveNext_ofDirectories
    Sample.twoCopies ⟨"."⟩ [] hrel true hmem Sample.isSpelledIn_inc hdot
  rw [Sample.resolveNext_twoCopies] at hresolve
  exact ⟨hmem, Sample.isSpelledIn_inc, hdot, before, e, after, hsplit, he, hresolve.symm⟩

/-- The search can go on before the directory that a file is spelled in. -/
theorem not_forall_resolveNext_eq :
    ¬ ∀ (fs : FileSystem) (workingDir : Path) (quotePaths before : List Path) (e : Path)
      (after : List Path) (header : String) (angled : Bool) (f : Path),
      Path.isAbsolute ⟨header⟩ = false → f.IsSpelledIn e → (∀ b ∈ before, ¬ f.IsSpelledIn b) →
      (ofDirectories workingDir quotePaths (before ++ e :: after)).resolveNext fs header angled f =
        ((newTo (before ++ [e]) after).find? (has fs workingDir header)).map
          fun a => a.join ⟨header⟩ := by
  intro h
  have hnone := h Sample.twoCopies ⟨"."⟩ [] [⟨"./inc"⟩, ⟨"b"⟩] ⟨"inc"⟩ [] "x.h" true ⟨"inc/x.h"⟩ rfl
    Sample.isSpelledIn_inc Sample.not_isSpelledIn_before
  cases hnone.symm.trans Sample.resolveNext_twoCopies

end HeaderSearch

end IncludeAudit
