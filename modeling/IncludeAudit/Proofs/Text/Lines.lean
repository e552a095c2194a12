import IncludeAudit.Text.Lines

/-! # Texts put together from lines and words

A text is split at its line feeds.  Lines that hold no line feed and end in something visible are
the lines of the text in which a line feed follows each of them (`lines_unlines`), and nothing is
trimmed off them (`trimEnd_of_endsVisibly`).  A line is split at its blanks, and words without
blanks are the words of the line in which a blank stands before each of them (`words_unwords`).
-/
namespace IncludeAudit.Text

/-! ## Lines -/

/-- Some lines, each followed by a line feed. -/
def unlines (ls : List (List Char)) : List Char := ls.flatMap fun l => l ++ ['\n']

@[simp] theorem unlines_cons (l : List Char) (ls : List (List Char)) :
    unlines (l :: ls) = l ++ '\n' :: unlines ls := by
  simp [unlines]

/-- The last character of a text is there and is no blank. -/
def EndsVisibly (cs : List Char) : Prop := ∃ c, cs.getLast? = some c ∧ isBlank c = false

theorem endsVisibly_append {cs : List Char} (h : EndsVisibly cs) (before : List Char) :
    EndsVisibly (before ++ cs) := by
  obtain ⟨c, hlast, hc⟩ := h
  refine ⟨c, ?_, hc⟩
  rw [List.getLast?_append, hlast]
  rfl

theorem trimEnd_of_endsVisibly {cs : List Char} (h : EndsVisibly cs) : trimEnd cs = cs := by
  obtain ⟨c, hlast, hc⟩ := h
  obtain ⟨before, rfl⟩ := List.getLast?_eq_some_iff.1 hlast
  rw [trimEnd, List.reverse_concat, List.dropWhile_cons_of_neg (by simp [hc]), List.reverse_cons,
    List.reverse_reverse]

/-- No carriage return is taken off such a line. -/
theorem closeLine_reverse {cs : List Char} (h : EndsVisibly cs) : closeLine cs.reverse = cs := by
  obtain ⟨c, hlast, hc⟩ := h
  obtain ⟨before, rfl⟩ := List.getLast?_eq_some_iff.1 hlast
  rw [List.reverse_concat]
  unfold closeLine
  split
  · rename_i heq
    rw [(List.cons.inj heq).1] at hc
    exact absurd hc (by decide)
  · rw [List.reverse_cons, List.reverse_reverse]

/-- Up to a line feed everything goes to the current line. -/
theorem linesFrom_append {cs : List Char} (h : '\n' ∉ cs) (done : List (List Char))
    (before rest : List Char) :
    linesFrom done before (cs ++ rest) = linesFrom done (cs.reverse ++ before) rest := by
  induction cs generalizing before with
  | nil => rfl
  | cons c cs ih =>
    have hc : c ≠ '\n' := fun heq => h (heq ▸ List.mem_cons_self ..)
    rw [List.cons_append, linesFrom, if_neg hc, ih fun hmem => h (List.mem_cons_of_mem c hmem),
      List.reverse_cons, List.append_assoc]
    rfl

/-- Lines that end visibly lose nothing at their end. -/
theorem linesFrom_unlines {ls : List (List Char)} (hfeed : ∀ l ∈ ls, '\n' ∉ l)
    (hends : ∀ l ∈ ls, EndsVisibly l) (done : List (List Char)) :
    linesFrom done [] (unlines ls) = done.reverse ++ ls := by
  induction ls generalizing done with
  | nil => simp [unlines, linesFrom]
  | cons l ls ih =>
    have hclose : closeLine (l.reverse ++ []) = l := by
      rw [List.append_nil, closeLine_reverse (hends l (List.mem_cons_self ..))]
    rw [unlines_cons, linesFrom_append (hfeed l (List.mem_cons_self ..)), linesFrom, if_pos rfl,
      hclose, ih (fun m hm => hfeed m (List.mem_cons_of_mem l hm))
        fun m hm => hends m (List.mem_cons_of_mem l hm)]
    rw [List.reverse_cons, List.append_assoc]
    rfl

/-- **Lines are read back from the text they are put into.** -/
theorem lines_unlines {ls : List (List Char)} (hfeed : ∀ l ∈ ls, '\n' ∉ l)
    (hends : ∀ l ∈ ls, EndsVisibly l) : lines (unlines ls) = ls :=
  linesFrom_unlines hfeed hends []

/-! ## Words -/

/-- Some words, each behind a blank. -/
def unwords (ws : List (List Char)) : List Char := ws.flatMap (' ' :: ·)

theorem unwords_cons (w : List Char) (ws : List (List Char)) :
    unwords (w :: ws) = ' ' :: (w ++ unwords ws) := rfl

/-- The words found so far, last one first, after the end of a word that is listed last character
first. -/
def endWord (word : List Char) (done : List (List Char)) : List (List Char) :=
  if word.isEmpty then done else word.reverse :: done

/-- Takes one character. -/
def wordStep : List Char × List (List Char) → Char → List Char × List (List Char) :=
  fun (word, done) c => if isBlank c then ([], endWord word done) else (c :: word, done)

theorem words_eq (cs : List Char) :
    words cs = (endWord (cs.foldl wordStep ([], [])).1 (cs.foldl wordStep ([], [])).2).reverse :=
  rfl

/-- Up to a blank everything goes to the current word. -/
theorem foldl_wordStep_of_visible {cs : List Char} (h : ∀ c ∈ cs, isBlank c = false)
    (word : List Char) (done : List (List Char)) :
    cs.foldl wordStep (word, done) = (cs.reverse ++ word, done) := by
  induction cs generalizing word with
  | nil => rfl
  | cons c cs ih =>
    obtain ⟨hc, hcs⟩ := List.forall_mem_cons.1 h
    have hstep : wordStep (word, done) c = (c :: word, done) := by
      rw [wordStep, hc]
      rfl
    rw [List.foldl_cons, hstep, ih hcs, List.reverse_cons, List.append_assoc]
    rfl

/-- The blank before each word ends the one before it. -/
theorem endWord_foldl_unwords {ws : List (List Char)} (hne : ∀ w ∈ ws, w ≠ [])
    (hvisible : ∀ w ∈ ws, ∀ c ∈ w, isBlank c = false) (word : List Char)
    (done : List (List Char)) :
    (endWord ((unwords ws).foldl wordStep (word, done)).1
      ((unwords ws).foldl wordStep (word, done)).2).reverse = (endWord word done).reverse ++ ws := by
  induction ws generalizing word done with
  | nil =>
    rw [List.append_nil]
    rfl
  | cons w ws ih =>
    obtain ⟨hw, hws⟩ := List.forall_mem_cons.1 hne
    obtain ⟨hcs, hrest⟩ := List.forall_mem_cons.1 hvisible
    have hblank : wordStep (word, done) ' ' = ([], endWord word done) := rfl
    have hend : endWord w.reverse (endWord word done) = w :: endWord word done := by
      rw [endWord, List.isEmpty_eq_false_iff.2 (mt List.reverse_eq_nil_iff.1 hw),
        if_neg Bool.false_ne_true, List.reverse_reverse]
    rw [unwords_cons, List.foldl_cons, List.foldl_append, hblank, foldl_wordStep_of_visible hcs,
      List.append_nil, ih hws hrest, hend, List.reverse_cons, List.append_assoc]
    rfl

/-- **Words are read back from the text they are put into.** -/
theorem words_unwords {ws : List (List Char)} (hne : ∀ w ∈ ws, w ≠ [])
    (hvisible : ∀ w ∈ ws, ∀ c ∈ w, isBlank c = false) : words (unwords ws) = ws := by
  rw [words_eq]
  exact endWord_foldl_unwords hne hvisible [] []

end IncludeAudit.Text
