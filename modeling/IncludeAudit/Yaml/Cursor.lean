import IncludeAudit.Text.Utf8

/-! # Places in a YAML stream

Indentation gives that text its structure, so every place knows its line and its column.
-/
namespace IncludeAudit.Yaml

/-- A space or a tab. -/
def isBlank (c : Char) : Bool := c = ' ' || c = '\t'

/-- A line break, once all breaks that are no character of their own have become line feeds. -/
def isBreak (c : Char) : Bool := c = '\n' || c = '\u2028' || c = '\u2029'

/-- A character of the names that directives, tags and anchors have. -/
def isWord (c : Char) : Bool := c.isAlphanum || c = '-' || c = '_'

/-- A character that may stand in a stream. -/
def isAllowed (c : Char) : Bool :=
  let n := c.toNat
  n = 0x09 || n = 0x0A || n = 0x0D || (0x20 ≤ n && n ≤ 0x7E) || n = 0x85 ||
    (0xA0 ≤ n && n ≤ 0xFFFD) || 0x10000 ≤ n

/-- The byte order mark. -/
def byteOrderMark : Char := '\ufeff'

/-- A text in which line feeds stand for carriage returns, for the two together and for the
character U+0085. -/
def unifyBreaks : List Char → List Char
  | [] => []
  | '\r' :: '\n' :: rest => '\n' :: unifyBreaks rest
  | c :: rest => (if c = '\r' || c = '\u0085' then '\n' else c) :: unifyBreaks rest

/-- Whether no word goes on here: at a blank, a line break or the end. -/
def endsWord : List Char → Bool
  | [] => true
  | c :: _ => isBlank c || isBreak c

/-- A place in a stream: what follows it, its line and its column. -/
structure Cursor where
  rest : List Char
  line : Nat := 0
  column : Nat := 0
deriving Repr

namespace Cursor

/-- The start of a text; none if a character may not stand there. -/
def ofText? (text : String) : Option Cursor :=
  let cs := text.toList
  if cs.all isAllowed then some { rest := unifyBreaks cs } else none

/-- The next character. -/
def peek? (c : Cursor) : Option Char := c.rest.head?

/-- The place behind some characters of the line. -/
def skip (c : Cursor) (n : Nat) : Cursor :=
  { c with rest := c.rest.drop n, column := c.column + n }

/-- The place in the line where `rest` follows. -/
def skipTo (c : Cursor) (rest : List Char) : Cursor :=
  { c with rest := rest, column := c.column + (c.rest.length - rest.length) }

/-- The place behind a line break. -/
def nextLine (c : Cursor) : Cursor := ⟨c.rest.tail, c.line + 1, 0⟩

/-- The characters of the line that satisfy a condition, up to the first that does not, and the
place behind them. -/
def run (c : Cursor) (condition : Char → Bool) : List Char × Cursor :=
  let (found, rest) := c.rest.span condition
  (found, ⟨rest, c.line, c.column + found.length⟩)

/-- The number of UTF-8 bytes between a place and a later one in the same line. -/
def bytesTo (c d : Cursor) : Nat := Text.byteCount (c.rest.take (d.column - c.column))

/-- Whether three characters stand at the start of a line, as a word. -/
def atMark (c : Cursor) (mark : Char) : Bool :=
  c.column = 0 && (List.replicate 3 mark).isPrefixOf c.rest && endsWord (c.rest.drop 3)

/-- Whether a mark that starts or ends a document stands here. -/
def atDocumentMark (c : Cursor) : Bool := c.atMark '-' || c.atMark '.'

/-- The next line, if only blanks and a comment are left in this one. At the end of the stream there
is none, and the end itself is the place. -/
def finishLine? (c : Cursor) : Option Cursor :=
  let c := (c.run isBlank).2
  let c := if c.peek? = some '#' then (c.run fun ch => !isBreak ch).2 else c
  match c.rest with
  | [] => some c
  | ch :: _ => if isBreak ch then some c.nextLine else none

end Cursor

end IncludeAudit.Yaml
