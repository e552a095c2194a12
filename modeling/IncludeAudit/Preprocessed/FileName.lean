import IncludeAudit.Text.CharClass

/-! # File names in line markers

A marker writes a file name between double quotes; a backslash introduces up to three octal digits,
which give a code point, or stands before a character that is meant as itself.
-/
namespace IncludeAudit.Preprocessed.FileName

/-- The octal digits at the start of a text, three at most. -/
def octalDigits (cs : List Char) : List Char :=
  (cs.take 3).takeWhile fun c => (Text.octalValue? c).isSome

/-- The number written by octal digits. -/
def octalNumber (cs : List Char) : Nat :=
  cs.foldl (fun n c => 8 * n + (Text.octalValue? c).getD 0) 0

/-- The name that a marker writes between its quotes. A backslash at the very end is kept. -/
def unescape : List Char → List Char
  | [] => []
  | c :: rest =>
    if c = '\\' then
      match rest with
      | [] => ['\\']
      | d :: more =>
        let digits := octalDigits (d :: more)
        if digits.isEmpty then d :: unescape more
        else Char.ofNat (octalNumber digits) :: unescape ((d :: more).drop digits.length)
    else c :: unescape rest
termination_by cs => cs.length
decreasing_by all_goals simp_wf; try omega

/-- Splits a text behind an opening quote into what stands before the closing quote, still escaped,
and what follows it. -/
def quoted? : List Char → Option (List Char × List Char)
  | [] => none
  | '"' :: rest => some ([], rest)
  | ['\\'] => none
  | '\\' :: c :: rest =>
    if c = '\n' then none else (quoted? rest).map fun (name, after) => ('\\' :: c :: name, after)
  | c :: rest => (quoted? rest).map fun (name, after) => (c :: name, after)

end IncludeAudit.Preprocessed.FileName
