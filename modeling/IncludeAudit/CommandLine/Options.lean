import IncludeAudit.Text.CharClass

/-! # Options on a command line

An option is given by its name after two dashes, or by its letter after one; letters can share a
dash. A value follows in the same word, after an equals sign or straight after a letter, or it is
the next word, which then must not look like an option.
-/
namespace IncludeAudit.CommandLine

/-- What an option takes. -/
inductive Operand where
  | nothing
  | path
  | text
  | count
deriving DecidableEq, Repr

/-- A number with an optional plus sign, below 2 to the power of 64. -/
def count? (s : String) : Option Nat := do
  let digits := if s.toList.head? = some '+' then s.toList.tail else s.toList
  let n ← Text.decimalValue? digits
  if n < 1 <<< 64 then some n else none

/-- Whether a value can be taken. Only a path must not be empty. -/
def Operand.accepts : Operand → String → Bool
  | nothing, s => s.isEmpty
  | path, s => !s.isEmpty
  | text, _ => true
  | count, s => (count? s).isSome

/-- An option that a command knows. -/
structure OptionSpec where
  name : String
  letter? : Option Char := none
  operand : Operand := .nothing
  mayRepeat : Bool := false
  /-- Whether nothing after it matters. -/
  isFinal : Bool := false
deriving Repr

/-- The options given so far with their values, in order. -/
abbrev Given := List (String × String)

namespace Given

/-- The value of an option that is given. -/
def value? (g : Given) (name : String) : Option String :=
  (g.find? fun o => o.1 = name).map (·.2)

/-- All values of an option. -/
def values (g : Given) (name : String) : List String :=
  (g.filter fun o => o.1 = name).map (·.2)

/-- Whether an option is given. -/
def has (g : Given) (name : String) : Bool := (g.value? name).isSome

/-- The options with one more, unless it must not be repeated or does not take the value. -/
def add? (g : Given) (spec : OptionSpec) (value : String) : Option Given :=
  if g.has spec.name && !spec.mayRepeat then none
  else if spec.operand.accepts value then some (g ++ [(spec.name, value)])
  else none

end Given

/-- What a word leads to. -/
inductive Step where
  | next (given : Given)
  /-- Nothing after the word matters. -/
  | final (given : Given)
  /-- The next word is the value of an option. -/
  | awaiting (given : Given) (spec : OptionSpec)

/-- Takes an option without value. -/
def Step.switch? (g : Given) (spec : OptionSpec) : Option Step := do
  let g ← g.add? spec ""
  some (if spec.isFinal then .final g else .next g)

/-- Whether a word can be a value: it does not start with a dash, or it is nothing else. -/
def isValue (word : String) : Bool := word.toList.head? ≠ some '-' || word = "-"

/-- Reads what follows two dashes. -/
def readName? (specs : List OptionSpec) (g : Given) (cs : List Char) : Option Step := do
  let (name, rest) := cs.span fun c => c ≠ '='
  let spec ← specs.find? fun s => s.name = String.ofList name
  match spec.operand, rest with
  | .nothing, [] => Step.switch? g spec
  | .nothing, _ => none
  | _, [] => some (.awaiting g spec)
  | _, _ :: value => some (.next (← g.add? spec (String.ofList value)))

/-- Reads the letters after one dash. -/
def readLetters? (specs : List OptionSpec) (g : Given) : List Char → Option Step
  | [] => some (.next g)
  | c :: rest => do
    let spec ← specs.find? fun s => s.letter? = some c
    if spec.operand = .nothing then
      match ← Step.switch? g spec with
      | .next g => readLetters? specs g rest
      | step => some step
    else
      match rest with
      | [] => some (.awaiting g spec)
      | '=' :: value => some (.next (← g.add? spec (String.ofList value)))
      | value => some (.next (← g.add? spec (String.ofList value)))

/-- Reads options up to the first word that is none, and returns the words from there on. Two dashes
alone end the options and must be the last word. None if a word has no meaning. -/
def readOptions? (specs : List OptionSpec) (g : Given) : List String → Option (Given × List String)
  | [] => some (g, [])
  | word :: rest => do
    if isValue word then some (g, word :: rest)
    else if word = "--" then (if rest.isEmpty then some (g, []) else none)
    else
      let step ← match word.toList with
        | '-' :: '-' :: cs => readName? specs g cs
        | cs => readLetters? specs g cs.tail
      match step with
      | .next g => readOptions? specs g rest
      | .final g => some (g, [])
      | .awaiting g spec => match rest with
        | [] => none
        | value :: rest =>
          if isValue value then readOptions? specs (← g.add? spec value) rest else none

end IncludeAudit.CommandLine
