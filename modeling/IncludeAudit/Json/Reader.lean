import IncludeAudit.Json.Basic
import IncludeAudit.Text.CharClass

/-! # Reading JSON text

A document is one value with blanks around it; there are no comments, no trailing commas and no byte
order mark.
-/
namespace IncludeAudit.Json

/-- A blank of the JSON grammar. -/
def isBlank (c : Char) : Bool := c = ' ' || c = '\n' || c = '\t' || c = '\r'

/-- A text behind its leading blanks. -/
def skipBlanks (cs : List Char) : List Char := cs.dropWhile isBlank

/-! ## Strings -/

/-- The characters that a list of UTF-16 units encodes, if every surrogate is half of a pair. Units
of written characters may lie beyond 16 bits and stand for themselves. -/
def ofUnits? : List Nat → Option (List Char)
  | [] => some []
  | high :: rest =>
    if 0xD800 ≤ high ∧ high < 0xDC00 then
      match rest with
      | low :: rest =>
        if 0xDC00 ≤ low ∧ low < 0xE000 then
          (ofUnits? rest).map (Char.ofNat (0x10000 + (high - 0xD800) * 0x400 + (low - 0xDC00)) :: ·)
        else none
      | [] => none
    else if 0xDC00 ≤ high ∧ high < 0xE000 then none
    else (ofUnits? rest).map (Char.ofNat high :: ·)

/-- The character that a backslash and a letter stand for. -/
def escaped? : Char → Option Nat
  | '"' => some 0x22
  | '\\' => some 0x5C
  | '/' => some 0x2F
  | 'b' => some 0x08
  | 'f' => some 0x0C
  | 'n' => some 0x0A
  | 'r' => some 0x0D
  | 't' => some 0x09
  | _ => none

/-- The number of four hexadecimal digits. -/
def hexUnit? (a b c d : Char) : Option Nat := do
  some (((← Text.hexValue? a) * 16 + (← Text.hexValue? b)) * 256 +
    ((← Text.hexValue? c) * 16 + (← Text.hexValue? d)))

/-- Reads a string behind its opening quote, as units, up to and with the closing quote. -/
def stringUnits? : List Char → Option (List Nat × List Char)
  | [] => none
  | '"' :: rest => some ([], rest)
  | '\\' :: 'u' :: a :: b :: c :: d :: rest => do
    let unit ← hexUnit? a b c d
    let (units, after) ← stringUnits? rest
    some (unit :: units, after)
  | '\\' :: c :: rest => do
    let unit ← escaped? c
    let (units, after) ← stringUnits? rest
    some (unit :: units, after)
  | c :: rest => do
    if c = '\\' ∨ c.toNat < 0x20 then none
    let (units, after) ← stringUnits? rest
    some (c.toNat :: units, after)

/-- Reads a string behind its opening quote. -/
def string? (cs : List Char) : Option (Option String × List Char) :=
  (stringUnits? cs).map fun (units, after) => ((ofUnits? units).map String.ofList, after)

/-! ## Numbers -/

/-- The values of the digits at the start of a text, and the text behind them. -/
def digits (cs : List Char) : List Nat × List Char :=
  ((cs.takeWhile Char.isDigit).map fun c => c.toNat - 48, cs.dropWhile Char.isDigit)

/-- Reads the digits after a point, if there is a point. -/
def fraction? : List Char → Option (List Nat × List Char)
  | '.' :: rest => match digits rest with
    | ([], _) => none
    | found => some found
  | cs => some ([], cs)

/-- Reads an exponent, if there is one. -/
def exponent? : List Char → Option (Int × List Char)
  | c :: rest =>
    if c = 'e' ∨ c = 'E' then
      let (sign, rest) : Int × List Char := match rest with
        | '-' :: rest => (-1, rest)
        | '+' :: rest => (1, rest)
        | rest => (1, rest)
      match digits rest with
      | ([], _) => none
      | (ds, after) => some (sign * (ds.foldl (fun n d => 10 * n + d) 0 : Nat), after)
    else some (0, c :: rest)
  | [] => some (0, [])

/-- Reads a number. Only zero itself may start with the digit zero. -/
def number? (cs : List Char) : Option (Numeral × List Char) := do
  let (negative, cs) := match cs with
    | '-' :: rest => (true, rest)
    | cs => (false, cs)
  let (whole, cs) := digits cs
  if whole.isEmpty ∨ (whole.head? = some 0 ∧ whole.length ≠ 1) then none
  let (fraction, cs) ← fraction? cs
  let (exponent, cs) ← exponent? cs
  some (⟨negative, whole, fraction, exponent⟩, cs)

/-! ## Values -/

/-- The text behind a given word at its start. -/
def after? (word : String) (cs : List Char) : Option (List Char) :=
  if word.toList.isPrefixOf cs then some (cs.drop word.length) else none

mutual

/-- Reads a value. The first argument bounds the number of steps. -/
def value? : Nat → List Char → Option (Json × List Char)
  | 0, _ => none
  | fuel + 1, cs =>
    match skipBlanks cs with
    | '[' :: rest => match skipBlanks rest with
      | ']' :: after => some (array [], after)
      | _ => (items? fuel rest).map fun (items, after) => (array items, after)
    | '\x7b' :: rest => match skipBlanks rest with
      | '\x7d' :: after => some (object [], after)
      | _ => (members? fuel rest).map fun (members, after) => (object members, after)
    | '"' :: rest => (string? rest).map fun (text?, after) => (string text?, after)
    | 'n' :: rest => (after? "ull" rest).map fun after => (null, after)
    | 't' :: rest => (after? "rue" rest).map fun after => (bool true, after)
    | 'f' :: rest => (after? "alse" rest).map fun after => (bool false, after)
    | rest => (number? rest).map fun (n, after) => (number n, after)

/-- Reads the values of an array, one at least, and its closing bracket. -/
def items? : Nat → List Char → Option (List Json × List Char)
  | 0, _ => none
  | fuel + 1, cs => do
    let (item, after) ← value? fuel cs
    match skipBlanks after with
    | ',' :: rest =>
      let (items, after) ← items? fuel rest
      some (item :: items, after)
    | ']' :: after => some ([item], after)
    | _ => none

/-- Reads the members of an object, one at least, and its closing brace. -/
def members? : Nat → List Char → Option (List (Option String × Json) × List Char)
  | 0, _ => none
  | fuel + 1, cs =>
    match skipBlanks cs with
    | '"' :: rest => do
      let (name?, after) ← string? rest
      match skipBlanks after with
      | ':' :: rest =>
        let (item, after) ← value? fuel rest
        match skipBlanks after with
        | ',' :: rest =>
          let (members, after) ← members? fuel rest
          some ((name?, item) :: members, after)
        | '\x7d' :: after => some ([(name?, item)], after)
        | _ => none
      | _ => none
    | _ => none

end

/-- Reads a document. Every step that does not read a character is followed by one that does, so
twice the length of the text is more than enough steps. -/
def parse? (text : String) : Option Json :=
  let cs := text.toList
  match value? (2 * cs.length + 2) cs with
  | some (j, after) => if (skipBlanks after).isEmpty then some j else none
  | none => none

end IncludeAudit.Json
