import IncludeAudit.Text.CharClass

/-! # Lines and words of a text

Lines of a text. A line ends at a line feed, and a carriage return right before that line feed
belongs to the end; what follows the last line feed is a line only if it is not empty.
-/
namespace IncludeAudit.Text

/-- A line whose characters are listed last first, without the carriage return at its end. -/
def closeLine : List Char → List Char
  | '\r' :: before => before.reverse
  | before => before.reverse

/-- Lines of a text of which `before` has been read since the last line feed and `done` are the
lines before that, both listed last first. -/
def linesFrom (done : List (List Char)) (before : List Char) : List Char → List (List Char)
  | [] => (if before.isEmpty then done else before.reverse :: done).reverse
  | c :: rest =>
    if c = '\n' then linesFrom (closeLine before :: done) [] rest
    else linesFrom done (c :: before) rest

/-- The lines of a text, without their ends. -/
def lines (cs : List Char) : List (List Char) := linesFrom [] [] cs

/-- A text without the blanks at its end. -/
def trimEnd (cs : List Char) : List Char := (cs.reverse.dropWhile isBlank).reverse

/-- The words of a text: its longest pieces without blanks. -/
def words (cs : List Char) : List (List Char) :=
  let close (word : List Char) (done : List (List Char)) :=
    if word.isEmpty then done else word.reverse :: done
  let (word, done) := cs.foldl
    (fun (word, done) c => if isBlank c then ([], close word done) else (c :: word, done)) ([], [])
  (close word done).reverse

/-- Whether `part` occurs in a text. -/
def occursIn (part : List Char) : List Char → Bool
  | [] => part.isEmpty
  | c :: rest => part.isPrefixOf (c :: rest) || occursIn part rest

end IncludeAudit.Text
