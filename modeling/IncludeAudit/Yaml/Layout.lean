import IncludeAudit.Yaml.Scalar
import IncludeAudit.Yaml.Tag

/-! # The tokens of a YAML stream

Blocks have no brackets: a block collection opens where a key or a dash stands further right than
the ones around it, and closes where a line starts further left. A key needs no sign of its own
either, so every place where one may have started is kept in mind until a colon follows or cannot
follow any more.
-/
namespace IncludeAudit.Yaml

/-- A place where a key may have started. -/
structure KeySlot where
  /-- The number of tokens before it. -/
  index : Nat
  line : Nat
  column : Nat
  /-- Whether nothing but a key can stand there. -/
  isRequired : Bool
  /-- The number of bytes from there to the last token. -/
  length : Nat := 0
deriving Repr

/-- What is known between two tokens. -/
structure Layout where
  cursor : Cursor
  /-- Where the last token starts. -/
  tokenStart : Cursor
  tokens : Array Token := #[]
  /-- The columns of the open block collections, innermost first. -/
  indents : List Nat := []
  /-- Where a key may have started, in the innermost flow collection or outside of all. -/
  slot? : Option KeySlot := none
  /-- The same for all that is around the innermost flow collection. -/
  outerSlots : List (Option KeySlot) := []
  /-- Whether a key may start here. -/
  mayStartKey : Bool := true
deriving Repr

namespace Layout

/-- Whether a flow collection is open. -/
def inFlow (l : Layout) : Bool := !l.outerSlots.isEmpty

/-- The column from which on a line belongs to the innermost block collection. -/
def margin (l : Layout) : Nat := l.indents.head?.elim 0 (· + 1)

/-- Adds a token. -/
def push (l : Layout) (t : Token) : Layout := { l with tokens := l.tokens.push t }

/-- Adds a token after the first `index` ones. -/
def insertAt (l : Layout) (index : Nat) (t : Token) : Layout :=
  { l with tokens := l.tokens.insertIdxIfInBounds index t }

/-- Adds a token of some characters and goes behind them. -/
def take (l : Layout) (t : Token) (count : Nat) : Layout :=
  { l.push t with cursor := l.cursor.skip count }

/-- Forgets where a key may have started; a required one must not be missing. -/
def clearSlot? (l : Layout) : Option Layout :=
  if l.slot?.any KeySlot.isRequired then none else some { l with slot? := none }

/-- Keeps in mind that a key may start here, if one may. -/
def saveSlot? (l : Layout) : Option Layout :=
  if l.mayStartKey then do
    let c := l.cursor
    let l ← l.clearSlot?
    some { l with slot? := some {
      index := l.tokens.size
      line := c.line
      column := c.column
      isRequired := !l.inFlow && l.indents.head? = some c.column } }
  else some l

/-- A slot when a token in a line is looked at that starts `more` bytes behind the one before. It is
given up if the key would be too long: it has to end in its line, and within 1024 bytes. None if the
key was required. -/
def keepSlot? (line more : Nat) : Option KeySlot → Option (Option KeySlot)
  | none => some none
  | some s =>
    if s.line < line || 1024 < s.length + more then if s.isRequired then none else some none
    else some (some { s with length := s.length + more })

/-- Goes to the start of a token, and forgets the places from which on a key would be too long. -/
def startToken? (l : Layout) (c : Cursor) : Option Layout := do
  let more := l.tokenStart.bytesTo c
  some { l with
    cursor := c
    tokenStart := c
    slot? := ← keepSlot? c.line more l.slot?
    outerSlots := ← l.outerSlots.mapM (keepSlot? c.line more) }

/-- Closes the block collections whose column does not satisfy a condition, from the inside. -/
def closeBlocks (l : Layout) (isKept : Nat → Bool) : Layout :=
  if l.inFlow then l
  else
    let closed := l.indents.takeWhile fun i => !isKept i
    { l with
      indents := l.indents.drop closed.length
      tokens := closed.foldl (fun tokens _ => tokens.push .blockEnd) l.tokens }

/-- Opens a block collection at a column, if that is further right than those around it; its token
goes after the first `index` ones. -/
def openBlock (l : Layout) (column index : Nat) (t : Token) : Layout :=
  if !l.inFlow && l.indents.head?.all (· < column) then
    { l.insertAt index t with indents := column :: l.indents }
  else l

/-- Skips blanks, comments and line breaks. A new line may start a key. Where a key may start in a
block, tabs are not skipped. A byte order mark at the start of a line is skipped and takes up a
column, so what follows it does not stand at the start. -/
def skipGap (inFlow inComment mayStartKey : Bool) (line column : Nat) : List Char → Bool × Cursor
  | [] => (mayStartKey, ⟨[], line, column⟩)
  | c :: rest =>
    if isBreak c then skipGap inFlow false (mayStartKey || !inFlow) (line + 1) 0 rest
    else if inComment || c = '#' then skipGap inFlow true mayStartKey line (column + 1) rest
    else if (column = 0 && c = byteOrderMark) || c = ' ' ||
        ((inFlow || !mayStartKey) && c = '\t') then
      skipGap inFlow false mayStartKey line (column + 1) rest
    else (mayStartKey, ⟨c :: rest, line, column⟩)

/-- Goes to the next token, closing what ends before it. -/
def advance? (l : Layout) : Option Layout := do
  let c := l.cursor
  let (mayStartKey, c) := skipGap l.inFlow false l.mayStartKey c.line c.column c.rest
  let l ← { l with mayStartKey := mayStartKey }.startToken? c
  some (l.closeBlocks (· ≤ c.column))

/-- Leaves all block collections, as before a directive and around a document. -/
def leaveBlocks? (l : Layout) : Option Layout := do
  some { ← (l.closeBlocks fun _ => false).clearSlot? with mayStartKey := false }

/-- Reads the opening bracket of a flow collection. -/
def openFlow? (l : Layout) (t : Token) : Option Layout := do
  let l ← l.saveSlot?
  some { l.take t 1 with
    slot? := none, outerSlots := l.slot? :: l.outerSlots, mayStartKey := true }

/-- Reads the closing bracket of a flow collection. -/
def closeFlow? (l : Layout) (t : Token) : Option Layout := do
  let l := { (← l.clearSlot?).take t 1 with mayStartKey := false }
  match l.outerSlots with
  | [] => some l
  | slot? :: outer => some { l with slot? := slot?, outerSlots := outer }

/-- Reads a comma of a flow collection. -/
def flowEntry? (l : Layout) : Option Layout := do
  some { (← l.clearSlot?).take .flowEntry 1 with mayStartKey := true }

/-- Opens a block collection for a sign here, which is not allowed where no key may start. -/
def startBlock? (l : Layout) (t : Token) : Option Layout :=
  if l.inFlow then some l
  else if l.mayStartKey then some (l.openBlock l.cursor.column l.tokens.size t)
  else none

/-- Reads the dash of a block sequence. -/
def blockEntry? (l : Layout) : Option Layout := do
  let l ← (← l.startBlock? .blockSequence).clearSlot?
  some { l.take .blockEntry 1 with mayStartKey := true }

/-- Reads the question mark before a key. -/
def key? (l : Layout) : Option Layout := do
  let l ← (← l.startBlock? .blockMapping).clearSlot?
  some { l.take .key 1 with mayStartKey := !l.inFlow }

/-- Reads the colon before a value. If a key may have started before, it did. -/
def value? (l : Layout) : Option Layout := do
  match l.slot? with
  | some s =>
    let l := (l.insertAt s.index .key).openBlock s.column s.index .blockMapping
    some { l.take .value 1 with slot? := none, mayStartKey := false }
  | none =>
    let l ← l.startBlock? .blockMapping
    some { l.take .value 1 with mayStartKey := !l.inFlow }

/-- Adds a token that may start a key and ends at a place. -/
def node? (l : Layout) (read : Cursor → Option (Token × Cursor)) : Option Layout := do
  let l ← l.saveSlot?
  let (t, c) ← read l.cursor
  some { l.push t with cursor := c, mayStartKey := false }

/-- Reads a plain scalar. If a line break follows it, a key may start behind it. -/
def plain? (l : Layout) : Option Layout := do
  let l ← l.saveSlot?
  let (text, isBroken, c) ← Yaml.plain? l.inFlow l.margin l.cursor
  some { l.push (.scalar text true) with cursor := c, mayStartKey := isBroken }

/-- Reads a block of lines. -/
def block? (l : Layout) : Option Layout := do
  let l ← l.clearSlot?
  let (text, c) ← Yaml.block? l.indents.head? l.cursor
  some { l.push (.scalar text false) with cursor := c, mayStartKey := true }

/-- Whether a plain scalar may start with a character that something follows. -/
def mayStartPlain (inFlow : Bool) (c : Char) (rest : List Char) : Bool :=
  if c = '-' then !rest.head?.any isBlank
  else if c = '?' || c = ':' then !inFlow && !endsWord rest
  else !isBlank c && !isBreak c && !isFlowIndicator c &&
    !(['#', '&', '*', '!', '|', '>', '\x27', '"', '%', '@', '\x60'].contains c)

/-- Reads the next token, of which `c` is the first character. -/
def token? (l : Layout) (c : Char) (rest : List Char) : Option Layout :=
  if l.cursor.column = 0 && c = '%' then do
    let l ← l.leaveBlocks?
    let (t, c) ← directive? l.cursor
    some { l.push t with cursor := c }
  else if l.cursor.atMark '-' then do some ((← l.leaveBlocks?).take .documentStart 3)
  else if l.cursor.atMark '.' then do some ((← l.leaveBlocks?).take .documentEnd 3)
  else if c = '[' then l.openFlow? .flowSequence
  else if c = '\x7b' then l.openFlow? .flowMapping
  else if c = ']' then l.closeFlow? .flowSequenceEnd
  else if c = '\x7d' then l.closeFlow? .flowMappingEnd
  else if c = ',' then l.flowEntry?
  else if c = '-' && endsWord rest then l.blockEntry?
  else if c = '?' && (l.inFlow || endsWord rest) then l.key?
  else if c = ':' && (l.inFlow || endsWord rest) then l.value?
  else if c = '*' then l.node? fun d => (anchorName? d).map fun (n, d) => (.reference n, d)
  else if c = '&' then l.node? fun d => (anchorName? d).map fun (n, d) => (.anchor n, d)
  else if c = '!' then l.node? (tag? l.inFlow)
  else if (c = '|' || c = '>') && !l.inFlow then l.block?
  else if c = '\x27' || c = '"' then
    l.node? fun d => (quoted? d).map fun (text, d) => (.scalar text false, d)
  else if mayStartPlain l.inFlow c rest then l.plain?
  else none

/-- The tokens of the rest of a stream. Every token has a character at least. -/
def finish? : Nat → Layout → Option (List Token)
  | 0, _ => none
  | fuel + 1, l => do
    let l ← l.advance?
    match l.cursor.rest with
    | [] => some (← l.leaveBlocks?).tokens.toList
    | c :: rest => finish? fuel (← l.token? c rest)

end Layout

/-- The tokens of a stream, none if it has some place where no token can stand. -/
def Token.ofText? (text : String) : Option (List Token) := do
  let c ← Cursor.ofText? text
  Layout.finish? (c.rest.length + 1) { cursor := c, tokenStart := c }

end IncludeAudit.Yaml
