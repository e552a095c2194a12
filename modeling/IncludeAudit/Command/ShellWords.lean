/-! # Words of a command line

A text is split into words as a shell splits it, but nothing is expanded. Blanks, tabs and line
feeds separate words; single quotes keep everything, double quotes let a backslash protect `$`, a
back quote, a double quote and itself; outside of quotes a backslash protects any character; a
backslash before a line feed joins two lines; and `#` at the start of a word makes the rest of the
line a comment.
-/
namespace IncludeAudit.ShellWords

/-- Where in the text of a command a reader stands. -/
inductive State where
  /-- Between words. -/
  | outside
  /-- After a backslash that stands where a word may start. -/
  | outsideEscape
  | word
  | wordEscape
  | single
  | double
  | doubleEscape
  | comment
deriving DecidableEq, Repr

/-- A character that ends a word. -/
def isSeparator (c : Char) : Bool := c = ' ' || c = '\t' || c = '\n'

/-- A character that a backslash protects between double quotes. -/
def isProtected (c : Char) : Bool := c = '$' || c = '\x60' || c = '"' || c = '\\'

/-- What a state leaves open at the end of the text: nothing, a word, a word with a backslash that
protects nothing and so stands for itself, or a quote without its end. -/
inductive Ending where
  | complete
  | word
  | backslash
  | quote

/-- What is open when the text ends in a state. -/
def State.ending : State → Ending
  | outside => .complete
  | comment => .complete
  | word => .word
  | outsideEscape => .backslash
  | wordEscape => .backslash
  | single => .quote
  | double => .quote
  | doubleEscape => .quote

/-- What reading a character outside of quotes and escapes leads to, in a word or between words. -/
def State.plain (inWord : Bool) (c : Char) : State :=
  if c = '\x27' then single
  else if c = '"' then double
  else if c = '\\' then (if inWord then wordEscape else outsideEscape)
  else if isSeparator c then outside
  else if c = '#' && !inWord then comment
  else word

/-- The words of a text, read from a state on; `current` is the word begun, last character first,
and `done` the words before it, last one first. None if a quote is not closed. -/
def splitFrom (state : State) (current : List Char) (done : List String) :
    List Char → Option (List String)
  | [] =>
    let close (cs : List Char) := some (String.ofList cs.reverse :: done).reverse
    match state.ending with
    | .complete => some done.reverse
    | .word => close current
    | .backslash => close ('\\' :: current)
    | .quote => none
  | c :: rest =>
    let next (state : State) (current : List Char) := splitFrom state current done rest
    match state with
    | .outside =>
      let state := State.plain false c
      next state (if state = .word then c :: current else current)
    | .word =>
      let state := State.plain true c
      if state = .outside then splitFrom .outside [] (String.ofList current.reverse :: done) rest
      else next state (if state = .word then c :: current else current)
    | .outsideEscape => if c = '\n' then next .outside current else next .word (c :: current)
    | .wordEscape => if c = '\n' then next .word current else next .word (c :: current)
    | .single => if c = '\x27' then next .word current else next .single (c :: current)
    | .double =>
      if c = '"' then next .word current
      else if c = '\\' then next .doubleEscape current
      else next .double (c :: current)
    | .doubleEscape =>
      if c = '\n' then next .double current
      else if isProtected c then next .double (c :: current)
      else next .double (c :: '\\' :: current)
    | .comment => next (if c = '\n' then .outside else .comment) current

/-- The words of a command, none if a quote is not closed. -/
def split? (command : String) : Option (List String) := splitFrom .outside [] [] command.toList

end IncludeAudit.ShellWords
