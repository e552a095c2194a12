import IncludeAudit.Preprocessed.FileName

/-! # Writing file names

In a marker a file name stands between double quotes.  A backslash goes before a backslash and a
double quote of the name, and a line feed, which would end the line, is written in octal digits.
What is written so ends at the first double quote that is not part of it (`quoted?_escape`) and is
read as the name it was written for (`unescape_escape`).
-/
namespace IncludeAudit.Preprocessed.FileName

/-! ## Reading -/

theorem unescape_cons {c : Char} (h : c ≠ '\\') (rest : List Char) :
    unescape (c :: rest) = c :: unescape rest := by
  rw [unescape.eq_def]
  simp only [if_neg h]

/-- After a backslash anything but an octal digit is meant as itself. -/
theorem unescape_backslash {c : Char} (h : Text.octalValue? c = none) (rest : List Char) :
    unescape ('\\' :: c :: rest) = c :: unescape rest := by
  have hdigits : octalDigits (c :: rest) = [] := by
    rw [octalDigits, List.take_succ_cons, List.takeWhile_cons_of_neg (by simp [h])]
  rw [unescape, if_pos rfl]
  simp only [hdigits, List.isEmpty_nil, if_true]

/-- Three octal digits after a backslash are a code point. -/
theorem unescape_octal {c d e : Char} {k m n : Nat} (hc : Text.octalValue? c = some k)
    (hd : Text.octalValue? d = some m) (he : Text.octalValue? e = some n) (rest : List Char) :
    unescape ('\\' :: c :: d :: e :: rest) = Char.ofNat (64 * k + 8 * m + n) :: unescape rest := by
  have hdigits : octalDigits (c :: d :: e :: rest) = [c, d, e] := by
    simp [octalDigits, hc, hd, he]
  have hnumber : octalNumber [c, d, e] = 64 * k + 8 * m + n := by
    simp only [octalNumber, List.foldl_cons, List.foldl_nil, hc, hd, he, Option.getD_some]
    omega
  rw [unescape, if_pos rfl]
  simp only [hdigits, hnumber, List.isEmpty_cons, Bool.false_eq_true, if_false]
  rfl

theorem quoted?_cons {c : Char} (hquote : c ≠ '"') (hbackslash : c ≠ '\\') (rest : List Char) :
    quoted? (c :: rest) = (quoted? rest).map fun p => (c :: p.1, p.2) := by
  rw [quoted?]
  · exact hquote
  · intro h
    exact absurd h hbackslash
  · intro _ _ h
    exact absurd h hbackslash

/-- After a backslash any character but a line feed belongs to the name, a quote too. -/
theorem quoted?_backslash {c : Char} (h : c ≠ '\n') (rest : List Char) :
    quoted? ('\\' :: c :: rest) = (quoted? rest).map fun p => ('\\' :: c :: p.1, p.2) := by
  rw [quoted?, if_neg h]

/-! ## Writing -/

/-- How one character of a name is written. -/
def escapeChar (c : Char) : List Char :=
  if c = '\n' then ['\\', '0', '1', '2'] else if c = '\\' ∨ c = '"' then ['\\', c] else [c]

/-- How a name is written. -/
def escape (name : List Char) : List Char := name.flatMap escapeChar

/-- Whatever follows, the character is read where it was written. -/
theorem unescape_escapeChar_append (c : Char) (rest : List Char) :
    unescape (escapeChar c ++ rest) = c :: unescape rest := by
  unfold escapeChar
  split
  · rename_i hfeed
    rw [hfeed]
    exact unescape_octal (k := 0) (m := 1) (n := 2) rfl rfl rfl rest
  · split
    · rename_i hspecial
      have hdigit : Text.octalValue? c = none := by
        rcases hspecial with rfl | rfl <;> rfl
      exact unescape_backslash hdigit rest
    · rename_i hplain
      exact unescape_cons (fun h => hplain (Or.inl h)) rest

/-- **A name is read back from how it is written.** -/
theorem unescape_escape (name : List Char) : unescape (escape name) = name := by
  induction name with
  | nil => rw [escape, List.flatMap_nil, unescape]
  | cons c name ih =>
    rw [escape, List.flatMap_cons, unescape_escapeChar_append]
    exact congrArg (c :: ·) ih

/-- No character is written with a quote that would end the name. -/
theorem quoted?_escapeChar_append (c : Char) (rest : List Char) :
    quoted? (escapeChar c ++ rest) = (quoted? rest).map fun p => (escapeChar c ++ p.1, p.2) := by
  unfold escapeChar
  split
  · -- the digits after the first one are read as plain characters
    show quoted? ('\\' :: '0' :: '1' :: '2' :: rest) = _
    rw [quoted?_backslash (by decide), quoted?_cons (by decide) (by decide),
      quoted?_cons (by decide) (by decide), Option.map_map, Option.map_map]
    rfl
  · rename_i hfeed
    split
    · exact quoted?_backslash hfeed rest
    · rename_i hplain
      exact quoted?_cons (fun h => hplain (Or.inr h)) (fun h => hplain (Or.inl h)) rest

/-- What is written for a name ends at the quote behind it. -/
theorem quoted?_escape (name after : List Char) :
    quoted? (escape name ++ '"' :: after) = some (escape name, after) := by
  induction name with
  | nil => rfl
  | cons c name ih =>
    rw [escape, List.flatMap_cons, List.append_assoc, quoted?_escapeChar_append, ← escape, ih]
    rfl

/-- A line feed is written in digits, so the name stays on its line. -/
theorem feed_not_mem_escape (name : List Char) : '\n' ∉ escape name := by
  intro h
  obtain ⟨c, _, hc⟩ := List.mem_flatMap.1 h
  unfold escapeChar at hc
  split at hc
  · exact absurd hc (by decide)
  · rename_i hfeed
    split at hc
    · rcases List.mem_cons.1 hc with heq | hc
      · exact absurd heq (by decide)
      · exact hfeed (List.mem_singleton.1 hc).symm
    · exact hfeed (List.mem_singleton.1 hc).symm

end IncludeAudit.Preprocessed.FileName
