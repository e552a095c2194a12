import IncludeAudit.Text.CharClass
import IncludeAudit.Text.Utf8
import IncludeAudit.Yaml.Cursor
import IncludeAudit.Yaml.Token

/-! # Anchors, tags and directives of a YAML stream

An anchor names a node and an alias refers to a name. A tag says what a node is meant as; directives
at the start of a document introduce the handles that tags are shortened by.
-/
namespace IncludeAudit.Yaml

/-- The name behind the sign of an anchor or an alias. -/
def anchorName? (c : Cursor) : Option (String × Cursor) :=
  let (name, d) := (c.skip 1).run isWord
  let isFinished := endsWord d.rest ||
    d.peek?.any fun ch => ['?', ':', ',', ']', '\x7d', '%', '@', '\x60'].contains ch
  if !name.isEmpty && isFinished then some (String.ofList name, d) else none

/-- An exclamation mark and word characters, with a second exclamation mark if one follows. -/
def tagHandle? (c : Cursor) : Option (List Char × Cursor) :=
  if c.peek? = some '!' then
    let (name, d) := (c.skip 1).run isWord
    if d.peek? = some '!' then some ('!' :: name ++ ['!'], d.skip 1) else some ('!' :: name, d)
  else none

/-- A character that stands for itself in a tag. Commas and brackets do so only in a tag that is
written out in full. -/
def isUriChar (isFull : Bool) (c : Char) : Bool :=
  isWord c || [';', '/', '?', ':', '@', '&', '=', '+', '$', '.', '!', '~', '*'].contains c ||
    ['\x27', '(', ')'].contains c || (isFull && [',', '[', ']'].contains c)

/-- A percent sign with two hexadecimal digits. -/
def octet? : List Char → Option (Nat × List Char)
  | '%' :: a :: b :: rest => do
    let high ← Text.hexValue? a
    let low ← Text.hexValue? b
    some (16 * high + low, rest)
  | _ => none

/-- The number of octets that follow the first one of a character. -/
def followers? (first : Nat) : Option Nat :=
  if first < 0x80 then some 0
  else if first / 32 = 6 then some 1
  else if first / 16 = 14 then some 2
  else if first / 8 = 30 then some 3
  else none

/-- Some octets that continue a character. -/
def continuation? : Nat → List Char → Option (List UInt8 × List Char)
  | 0, cs => some ([], cs)
  | n + 1, cs => do
    let (o, rest) ← octet? cs
    let (os, rest) ← if o / 64 = 2 then continuation? n rest else none
    some (o.toUInt8 :: os, rest)

/-- The octets of the longest text of a tag, and what follows. -/
def uriFrom? (isFull : Bool) : Nat → List Char → Option (List UInt8 × List Char)
  | 0, _ => none
  | _, [] => some ([], [])
  | fuel + 1, c :: rest =>
    if c = '%' then do
      let (first, rest) ← octet? (c :: rest)
      let (os, rest) ← continuation? (← followers? first) rest
      let (more, rest) ← uriFrom? isFull fuel rest
      some (first.toUInt8 :: os ++ more, rest)
    else if isUriChar isFull c then do
      let (more, rest) ← uriFrom? isFull fuel rest
      some (c.toNat.toUInt8 :: more, rest)
    else some ([], c :: rest)

/-- The text of a tag at a place, which ends before a zero octet; no octet at all only where that is
allowed. -/
def uri? (isFull mayBeEmpty : Bool) (c : Cursor) : Option (String × Cursor) := do
  let (octets, rest) ← uriFrom? isFull (c.rest.length + 1) c.rest
  if octets.isEmpty && !mayBeEmpty then none
  else some (String.ofList (Text.decodeLossy (octets.takeWhile (· != 0))), c.skipTo rest)

/-- The tag at a place before anything is known about what follows it: written out in full, with a
handle, or with the handle `!`; the sign alone is a tag of its own. -/
def bareTag? (c : Cursor) : Option (Token × Cursor) := do
  if (c.rest.drop 1).head? = some '<' then
    let (text, d) ← uri? true false (c.skip 2)
    if d.peek? = some '>' then some (.tag "" text, d.skip 1) else none
  else
    let (handle, d) ← tagHandle? c
    if 1 < handle.length && handle.getLast? = some '!' then
      let (text, d) ← uri? false false d
      some (.tag (String.ofList handle) text, d)
    else
      let (more, d) ← uri? false true d
      let text := String.ofList handle.tail ++ more
      some (if text.isEmpty then .tag "" "!" else .tag "!" text, d)

/-- The tag at a place, which a blank has to follow, or a comma in a flow collection. -/
def tag? (inFlow : Bool) (c : Cursor) : Option (Token × Cursor) := do
  let (token, d) ← bareTag? c
  if endsWord d.rest || (inFlow && d.peek? = some ',') then some (token, d) else none

/-- A number of at most nine digits. -/
def versionNumber? (c : Cursor) : Option (Nat × Cursor) := do
  let (digits, d) := c.run Char.isDigit
  if digits.length ≤ 9 then some (← Text.decimalValue? digits, d) else none

/-- What a directive's name is followed by. -/
def directiveValue? (name : String) (c : Cursor) : Option (Token × Cursor) := do
  let c := (c.run isBlank).2
  if name = "YAML" then
    let (major, c) ← versionNumber? c
    let (minor, c) ← if c.peek? = some '.' then versionNumber? (c.skip 1) else none
    some (.version major minor, c)
  else if name = "TAG" then
    let (handle, c) ← tagHandle? c
    let isHandle := handle.length = 1 || handle.getLast? = some '!'
    if !isHandle || !c.peek?.any isBlank then none
    else
      let (meaning, c) ← uri? true false (c.run isBlank).2
      if endsWord c.rest then some (.tagHandle (String.ofList handle) meaning, c) else none
  else none

/-- The directive at a place, with its line. -/
def directive? (c : Cursor) : Option (Token × Cursor) := do
  let (name, c) := (c.skip 1).run isWord
  if name.isEmpty || !endsWord c.rest then none
  else
    let (token, c) ← directiveValue? (String.ofList name) c
    some (token, ← c.finishLine?)

end IncludeAudit.Yaml
