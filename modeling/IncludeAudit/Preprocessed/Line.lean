import IncludeAudit.Preprocessed.FileName
import IncludeAudit.Text.Lines
import IncludeAudit.Tree

/-! # Lines of preprocessed text

Besides program text a preprocessor writes line markers, which say where the next line comes from,
and on request the inclusion directives and macro definitions that it carried out. Blanks at the end
of a line never count.
-/
namespace IncludeAudit.Preprocessed

open Text (isBlank isDecimalDigit)

/-- What a line of preprocessed text says. -/
inductive Line where
  /-- The next line is `line` of `file`; `enter` if that file starts here, `leave` if the text goes
  on in it after an entered file has ended. -/
  | marker (line : Nat) (file : String) (enter leave : Bool)
  | inclusion (keyword : Keyword) (spelling : String) (angled : Bool)
  | define (name : String)
  | blank
  | text
deriving DecidableEq, Inhabited, Repr

namespace Line

/-- A line number beyond 32 bits, or written in other digits than ASCII ones, counts as 1. -/
def lineNumber (digits : List Char) : Nat :=
  match Text.decimalValue? digits with
  | some n => if n < 1 <<< 32 then n else 1
  | none => 1

/-- The words after the file name of a marker, if they are numbers. -/
def flags? (cs : List Char) : Option (List (List Char)) :=
  if cs.all (fun c => isBlank c || isDecimalDigit c) && cs.head?.all isBlank then
    some (Text.words cs)
  else none

/-- Reads a line marker behind its `#`: a line number, a quoted file name, and flags. The word
`line` may stand before the number. -/
def marker? (cs : List Char) : Option Line :=
  let cs := (if "line".toList.isPrefixOf cs then cs.drop 4 else cs).dropWhile isBlank
  let digits := cs.takeWhile isDecimalDigit
  let after := cs.dropWhile isDecimalDigit
  if digits.isEmpty || !after.head?.any isBlank then none
  else match after.dropWhile isBlank with
    | '"' :: body => do
      let (name, after) ← FileName.quoted? body
      let flags ← flags? after
      some (marker (lineNumber digits) (String.ofList (FileName.unescape name))
        (flags.contains ['1']) (flags.contains ['2']))
    | _ => none

/-- What stands before the first `close`, if there is one. -/
def upTo? (close : Char) (cs : List Char) : Option String :=
  if cs.contains close then some (String.ofList (cs.takeWhile (· != close))) else none

/-- Splits a directive behind its `#` into its name and what follows the blanks after the name. -/
def directive (cs : List Char) : List Char × List Char :=
  let cs := cs.dropWhile isBlank
  (cs.takeWhile fun c => !isBlank c, (cs.dropWhile fun c => !isBlank c).dropWhile isBlank)

/-- Reads an inclusion directive behind its `#`. What follows the spelling does not matter. -/
def inclusion? (cs : List Char) : Option Line :=
  let (name, rest) := directive cs
  match Keyword.ofText? (String.ofList name), rest with
  | some keyword, '<' :: body => (upTo? '>' body).map fun s => inclusion keyword s true
  | some keyword, '"' :: body => (upTo? '"' body).map fun s => inclusion keyword s false
  | _, _ => none

/-- A character that may start an identifier. -/
def isIdentifierStart (c : Char) : Bool := c.isAlpha || c = '_'

/-- A character that may stand in an identifier after its start. -/
def isIdentifierRest (c : Char) : Bool := c.isAlphanum || c = '_'

/-- Reads a macro definition behind its `#`. -/
def define? (cs : List Char) : Option Line :=
  match directive cs with
  | (name, first :: rest) =>
    if name = "define".toList && isIdentifierStart first then
      some (define (String.ofList (first :: rest.takeWhile isIdentifierRest)))
    else none
  | (_, []) => none

/-- What a line says. A directive starts at the first character of its line. -/
def classify (cs : List Char) : Line :=
  match Text.trimEnd cs with
  | [] => blank
  | '#' :: rest => ((marker? rest).or ((inclusion? rest).or (define? rest))).getD text
  | _ => text

end Line

end IncludeAudit.Preprocessed
