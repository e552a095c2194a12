import IncludeAudit.Text.CharClass
import IncludeAudit.Yaml.Cursor

/-! # Scalars of a YAML stream

A scalar is plain, quoted, or a block of lines. A single line break between two words is read as a
space, and of several the first is left out.
-/
namespace IncludeAudit.Yaml

/-! ## Gaps between words -/

/-- Blanks and line breaks between two words of a scalar. -/
structure Gap where
  /-- The blanks, as long as there is no line break. -/
  blanks : String := ""
  isBroken : Bool := false
  /-- The first line break, unless a backslash took it away. -/
  firstBreak? : Option Char := none
  moreBreaks : String := ""

namespace Gap

/-- What a gap adds to the text. -/
def text (g : Gap) : String :=
  if g.isBroken then
    match g.firstBreak? with
    | some '\n' => if g.moreBreaks.isEmpty then " " else g.moreBreaks
    | some c => g.moreBreaks.toList.foldl String.push (String.singleton c)
    | none => g.moreBreaks
  else g.blanks

/-- The gap with one line break more. -/
def push (g : Gap) (c : Char) : Gap :=
  if g.isBroken then { g with moreBreaks := g.moreBreaks.push c }
  else { isBroken := true, firstBreak? := some c }

/-- Reads the rest of a gap. After a line break no tab may stand left of `margin`. -/
def read? (margin : Nat) (g : Gap) (line column : Nat) : List Char → Option (Gap × Cursor)
  | [] => some (g, ⟨[], line, column⟩)
  | c :: rest =>
    if isBlank c then
      if g.isBroken && column < margin && c = '\t' then none
      else
        let g := if g.isBroken then g else { g with blanks := g.blanks.push c }
        read? margin g line (column + 1) rest
    else if isBreak c then read? margin (g.push c) (line + 1) 0 rest
    else some (g, ⟨c :: rest, line, column⟩)

/-- Reads the rest of a gap at a place. -/
def readAt? (margin : Nat) (g : Gap) (c : Cursor) : Option (Gap × Cursor) :=
  read? margin g c.line c.column c.rest

end Gap

/-! ## Plain scalars -/

/-- A character that has a meaning of its own in a flow collection. -/
def isFlowIndicator (c : Char) : Bool :=
  c = ',' || c = '[' || c = ']' || c = '\x7b' || c = '\x7d'

/-- A word of a plain scalar and what follows it. A colon ends it only before a blank; in a flow
collection it must not stand before an indicator. -/
def plainWord? (inFlow : Bool) : List Char → Option (List Char × List Char)
  | [] => some ([], [])
  | c :: rest =>
    if isBlank c || isBreak c then some ([], c :: rest)
    else if c = ':' && inFlow && rest.head?.any (fun d => isFlowIndicator d || d = '?') then none
    else if (c = ':' && endsWord rest) || (inFlow && isFlowIndicator c) then some ([], c :: rest)
    else (plainWord? inFlow rest).map fun (word, rest) => (c :: word, rest)

/-- The words of a plain scalar, which do not go on left of `margin` unless in a flow collection.
The second result says whether a line break follows the last word. -/
def plainFrom? (inFlow : Bool) (margin : Nat) :
    Nat → String → Gap → Cursor → Option (String × Bool × Cursor)
  | 0, _, _, _ => none
  | fuel + 1, text, gap, c => do
    if c.atDocumentMark || c.peek? = some '#' then return (text, gap.isBroken, c)
    let (word, rest) ← plainWord? inFlow c.rest
    if word.isEmpty then return (text, gap.isBroken, c)
    let text := text ++ gap.text ++ String.ofList word
    let c := c.skip word.length
    if rest.isEmpty || !endsWord rest then return (text, false, c)
    let (gap, c) ← Gap.readAt? margin {} c
    if !inFlow && c.column < margin then return (text, gap.isBroken, c)
    plainFrom? inFlow margin fuel text gap c

/-- A plain scalar at a place. -/
def plain? (inFlow : Bool) (margin : Nat) (c : Cursor) : Option (String × Bool × Cursor) :=
  plainFrom? inFlow margin (c.rest.length + 1) "" {} c

/-! ## Quoted scalars -/

/-- The character that some hexadecimal digits number, and what follows them. -/
def numbered? (digits : Nat) (cs : List Char) : Option (Char × List Char) := do
  let values ← (cs.take digits).mapM Text.hexValue?
  let n := values.foldl (fun n d => 16 * n + d) 0
  if values.length = digits ∧ n.isValidChar then some (Char.ofNat n, cs.drop digits) else none

/-- The character that a backslash and what follows it stand for, and the rest. -/
def escaped? : List Char → Option (Char × List Char)
  | [] => none
  | c :: rest =>
    match c with
    | '0' => some ('\x00', rest)
    | 'a' => some ('\x07', rest)
    | 'b' => some ('\x08', rest)
    | 't' | '\t' => some ('\t', rest)
    | 'n' => some ('\n', rest)
    | 'v' => some ('\x0b', rest)
    | 'f' => some ('\x0c', rest)
    | 'r' => some ('\r', rest)
    | 'e' => some ('\x1b', rest)
    | ' ' | '"' | '/' | '\\' => some (c, rest)
    | 'N' => some ('\u0085', rest)
    | '_' => some ('\u00a0', rest)
    | 'L' => some ('\u2028', rest)
    | 'P' => some ('\u2029', rest)
    | 'x' => numbered? 2 rest
    | 'u' => numbered? 4 rest
    | 'U' => numbered? 8 rest
    | _ => none

/-- The rest of a quoted scalar, up to the closing quote. Between single quotes, two of them stand
for one; between double quotes, a backslash starts an escape or takes away a line break. -/
def quotedFrom? (isDouble : Bool) : Nat → String → Cursor → Option (String × Cursor)
  | 0, _, _ => none
  | fuel + 1, text, c =>
    if c.atDocumentMark then none else
    match c.rest with
    | [] => none
    | ch :: rest =>
      if ch = (if isDouble then '"' else '\x27') then
        if !isDouble && rest.head? = some '\x27' then
          quotedFrom? isDouble fuel (text.push '\x27') (c.skip 2)
        else some (text, c.skip 1)
      else if isBlank ch || isBreak ch then do
        let (gap, c) ← Gap.readAt? 0 {} c
        quotedFrom? isDouble fuel (text ++ gap.text) c
      else if isDouble && ch = '\\' then
        if rest.head?.any isBreak then do
          let (gap, c) ← Gap.readAt? 0 { isBroken := true } (c.skip 1).nextLine
          quotedFrom? isDouble fuel (text ++ gap.text) c
        else do
          let (e, rest) ← escaped? rest
          quotedFrom? isDouble fuel (text.push e) (c.skipTo rest)
      else quotedFrom? isDouble fuel (text.push ch) (c.skip 1)

/-- A quoted scalar at its opening quote. -/
def quoted? (c : Cursor) : Option (String × Cursor) :=
  quotedFrom? (c.peek? = some '"') (c.rest.length + 1) "" (c.skip 1)

/-! ## Blocks of lines -/

/-- What becomes of the line breaks at the end of a block. -/
inductive Chomping where
  /-- None is kept. -/
  | strip
  /-- The one of the last line is kept. -/
  | clip
  /-- All are kept. -/
  | keep
deriving DecidableEq, Repr

/-- The sign for chomping at a place, if there is one. -/
def chomping? (c : Cursor) : Option (Chomping × Cursor) :=
  match c.peek? with
  | some '+' => some (.keep, c.skip 1)
  | some '-' => some (.strip, c.skip 1)
  | _ => none

/-- The digit for the indentation at a place, if there is one, which must not be zero. -/
def indentation? (c : Cursor) : Option (Option Nat × Cursor) :=
  match c.peek? with
  | some d => if d = '0' then none
    else if d.isDigit then some (some (d.toNat - 48), c.skip 1) else some (none, c)
  | none => some (none, c)

/-- What stands in a block's first line: chomping and indentation in either order. -/
def blockHeader? (c : Cursor) : Option (Chomping × Option Nat × Cursor) := do
  let (chomping, digit?, c) ← match chomping? c with
    | some (k, c) => do
      let (d?, c) ← indentation? c
      pure (k, d?, c)
    | none => do
      let (d?, c) ← indentation? c
      match d?, chomping? c with
      | some _, some (k, c) => pure (k, d?, c)
      | _, _ => pure (.clip, d?, c)
  some (chomping, digit?, ← c.finishLine?)

/-- Spaces left of the margin and empty lines: the breaks of those lines, the rightmost column that
was reached, and the place behind. Without a margin all spaces are skipped. -/
def emptyLines? (margin? : Option Nat) (breaks : String) (widest line column : Nat) :
    List Char → Option (String × Nat × Cursor)
  | [] => some (breaks, max widest column, ⟨[], line, column⟩)
  | c :: rest =>
    let isLeft := margin?.all fun m => column < m
    if isLeft && c = ' ' then emptyLines? margin? breaks widest line (column + 1) rest
    else if isLeft && c = '\t' then none
    else if isBreak c then
      emptyLines? margin? (breaks.push c) (max widest column) (line + 1) 0 rest
    else some (breaks, max widest column, ⟨c :: rest, line, column⟩)

/-- What has been read of a block. -/
structure Block where
  text : String := ""
  /-- The break of the last line. -/
  lastBreak : String := ""
  /-- The breaks of the empty lines after it. -/
  emptyBreaks : String
  /-- Whether the last line started with a blank. -/
  startedBlank : Bool := false

/-- The block with one line more. In a folded block, the break between two lines that do not start
with a blank is read as a space. -/
def Block.push (b : Block) (isLiteral : Bool) (line : List Char) (lastBreak emptyBreaks : String) :
    Block :=
  let startsBlank := line.head?.any isBlank
  let isFolded := !isLiteral && b.lastBreak = "\n" && !b.startedBlank && !startsBlank
  let joint :=
    if !isFolded then b.lastBreak else if b.emptyBreaks.isEmpty then " " else ""
  { text := b.text ++ joint ++ b.emptyBreaks ++ String.ofList line
    lastBreak := lastBreak
    emptyBreaks := emptyBreaks
    startedBlank := startsBlank }

/-- The text of a finished block. -/
def Block.finish (b : Block) : Chomping → String
  | .strip => b.text
  | .clip => b.text ++ b.lastBreak
  | .keep => b.text ++ b.lastBreak ++ b.emptyBreaks

/-- The lines of a block that start at its margin. -/
def blockFrom? (isLiteral : Bool) (margin : Nat) : Nat → Block → Cursor → Option (Block × Cursor)
  | 0, _, _ => none
  | fuel + 1, b, c =>
    if c.column = margin && !c.rest.isEmpty then do
      let (line, c) := c.run fun ch => !isBreak ch
      let (lastBreak, c) := match c.peek? with
        | some ch => (String.singleton ch, c.nextLine)
        | none => ("", c)
      let (emptyBreaks, _, c) ← emptyLines? (some margin) "" 0 c.line c.column c.rest
      blockFrom? isLiteral margin fuel (b.push isLiteral line lastBreak emptyBreaks) c
    else some (b, c)

/-- A block of lines at its indicator, inside a block collection at column `outer?`. -/
def block? (outer? : Option Nat) (c : Cursor) : Option (String × Cursor) := do
  let (chomping, digit?, d) ← blockHeader? (c.skip 1)
  let fixed? := digit?.map fun n => outer?.getD 0 + n
  let (breaks, widest, d) ← emptyLines? fixed? "" 0 d.line d.column d.rest
  let margin := fixed?.getD (max widest (max (outer?.elim 0 (· + 1)) 1))
  let (b, d) ← blockFrom? (c.peek? = some '|') margin (d.rest.length + 1)
    { emptyBreaks := breaks } d
  some (b.finish chomping, d)

end IncludeAudit.Yaml
