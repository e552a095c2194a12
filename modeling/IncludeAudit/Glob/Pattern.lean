/-! # Glob patterns

In a glob pattern `?` and `*` stand for any character and any text, separators included, `**` as a
whole component for any number of components, `[...]` for one of some characters and `\x7b...\x7d`
for one of some patterns; a backslash takes away the meaning of the character after it.
-/
namespace IncludeAudit.Glob

/-- A piece of a pattern. -/
inductive Token where
  | literal (c : Char)
  | any
  | zeroOrMore
  /-- `**/` where nothing stands before it. -/
  | recursiveStart
  /-- `/**` where nothing stands after it. -/
  | recursiveEnd
  /-- `/**/` between components. -/
  | recursiveMiddle
  | oneOf (negated : Bool) (ranges : List (Char × Char))
  | alternates (branches : List (List Token))
deriving Inhabited, Repr

/-- Why a text is not a pattern. -/
inductive Fault where
  | unclosedClass
  | invalidRange (first last : Char)
  | unopenedAlternates
  | unclosedAlternates
  | danglingEscape
deriving DecidableEq, Inhabited, Repr

namespace Fault

/-- What is said about a fault. -/
def text : Fault → String
  | unclosedClass => "unclosed character class; missing ']'"
  | invalidRange a b => "invalid range; '" ++ a.toString ++ "' > '" ++ b.toString ++ "'"
  | unopenedAlternates =>
    "unopened alternate group; missing '\x7b' (maybe escape '\x7d' with '[\x7d]'?)"
  | unclosedAlternates =>
    "unclosed alternate group; missing '\x7d' (maybe escape '\x7b' with '[\x7b]'?)"
  | danglingEscape => "dangling '\\'"

end Fault

/-! ## Character classes -/

/-- Splits off the mark of a class that stands for all other characters. -/
def classMark : List Char → Bool × List Char
  | [] => (false, [])
  | c :: rest => if c = '!' ∨ c = '^' then (true, rest) else (false, c :: rest)

theorem length_classMark_le (cs : List Char) : (classMark cs).2.length ≤ cs.length := by
  cases cs with
  | nil => simp [classMark]
  | cons c rest => simp only [classMark]; split <;> simp

/-- The ranges of a class, last one first, after one more character. `inRange` says that a `-`
stands between the last range and that character. -/
def addToClass (ranges : List (Char × Char)) (inRange : Bool) (c : Char) :
    Except Fault (List (Char × Char) × Bool) :=
  match ranges, inRange with
  | (first, _) :: rest, true =>
    if c < first then throw (.invalidRange first c) else pure ((first, c) :: rest, false)
  | [], _ => pure ([(c, c)], false)
  | _, false => if c = '-' then pure (ranges, true) else pure ((c, c) :: ranges, false)

/-- The ranges of a class with the given characters between its brackets. A `-` counts as itself at
either end. -/
def classRanges (cs : List Char) : Except Fault (List (Char × Char)) := do
  let (ranges, inRange) ← cs.foldlM (fun (ranges, inRange) c => addToClass ranges inRange c)
    ([], false)
  pure (if inRange then ('-', '-') :: ranges else ranges).reverse

/-- A class behind its opening bracket: its characters, whether its closing bracket is there, and
what follows that. A bracket right at the start is a character of the class. -/
def splitClass : List Char → List Char × Bool × List Char
  | [] => ([], false, [])
  | first :: rest =>
    let body := rest.takeWhile (· != ']')
    let after := rest.dropWhile (· != ']')
    (first :: body, !after.isEmpty, after.drop 1)

theorem length_splitClass_le (cs : List Char) : (splitClass cs).2.2.length ≤ cs.length := by
  cases cs with
  | nil => simp [splitClass]
  | cons first rest =>
    have h := (List.dropWhile_sublist (· != ']') (l := rest)).length_le
    simp only [splitClass, List.length_drop, List.length_cons]
    omega

/-! ## Patterns -/

/-- A group of alternatives that is open: its finished branches and its current one, each with the
last part first. The outermost group is the pattern itself and has a single branch. -/
structure Group where
  finished : List (List Token)
  current : List Token
deriving Inhabited

/-- The groups that are open, the innermost first, and the outermost one apart. -/
structure Groups where
  inner : List Group
  outermost : List Token
deriving Inhabited

namespace Groups

/-- Nothing read. -/
def start : Groups := ⟨[], []⟩

/-- Whether a group of alternatives is open. -/
def inGroup (g : Groups) : Bool := !g.inner.isEmpty

/-- The tokens of the current branch, last one first. -/
def current (g : Groups) : List Token :=
  match g.inner with
  | [] => g.outermost
  | group :: _ => group.current

/-- The groups with another list of tokens as the current branch. -/
def setCurrent (g : Groups) (ts : List Token) : Groups :=
  match g.inner with
  | [] => { g with outermost := ts }
  | group :: rest => { g with inner := { group with current := ts } :: rest }

/-- The groups with one token more. -/
def push (g : Groups) (t : Token) : Groups := g.setCurrent (t :: g.current)

/-- A group starts. -/
def openGroup (g : Groups) : Groups := { g with inner := ⟨[], []⟩ :: g.inner }

/-- A comma ends a branch, or stands for itself outside of every group. -/
def comma (g : Groups) : Groups :=
  match g.inner with
  | [] => g.push (.literal ',')
  | group :: rest => { g with inner := ⟨group.current.reverse :: group.finished, []⟩ :: rest }

/-- The innermost group ends and becomes a token. -/
def closeGroup (g : Groups) : Except Fault Groups :=
  match g.inner with
  | [] => throw .unopenedAlternates
  | group :: rest =>
    let branches := (group.current.reverse :: group.finished).reverse
    pure (push { g with inner := rest } (.alternates branches))

/-- The tokens of the whole pattern. -/
def finish (g : Groups) : Except Fault (List Token) :=
  if g.inGroup then throw .unclosedAlternates else pure g.outermost.reverse

end Groups

/-- Two stars were read after `before?`, and `rest` follows. As a whole component they stand for any
number of components, together with the separators around them; else they are two single stars.
Gives back whether the character after them was used up too. -/
def doubleStar (g : Groups) (before? : Option Char) (rest : List Char) : Groups × Bool :=
  let single := ((g.push .zeroOrMore).push .zeroOrMore, false)
  match g.current with
  | [] =>
    match rest with
    | [] => (g.push .recursiveStart, false)
    | c :: _ => if c = '/' then (g.push .recursiveStart, true) else single
  | last :: earlier =>
    if before? ≠ some '/' ∧ ¬(g.inGroup ∧ (before? = some ',' ∨ before? = some '\x7b')) then single
    else
      let replaced (t : Token) : Groups := match last with
        | .recursiveStart => g
        | .recursiveEnd => g
        | _ => g.setCurrent (t :: earlier)
      match rest with
      | [] => (replaced .recursiveEnd, false)
      | c :: _ =>
        if c = '/' then (replaced .recursiveMiddle, true)
        else if g.inGroup ∧ (c = ',' ∨ c = '\x7d') then (replaced .recursiveEnd, false)
        else single

/-- Reads a pattern from a place on; `before?` is the character before that place. -/
def parseFrom (g : Groups) (before? : Option Char) : List Char → Except Fault (List Token)
  | [] => g.finish
  | c :: rest =>
    if c = '?' then parseFrom (g.push .any) (some c) rest
    else if c = '*' then
      match rest with
      | [] => parseFrom (g.push .zeroOrMore) (some c) []
      | d :: more =>
        if d = '*' then
          match doubleStar g before? more with
          | (g, true) => parseFrom g (some '/') (more.drop 1)
          | (g, false) => parseFrom g (some '*') more
        else parseFrom (g.push .zeroOrMore) (some c) (d :: more)
    else if c = '[' then
      let body := splitClass (classMark rest).2
      match classRanges body.1 with
      | .error f => .error f
      | .ok ranges =>
        if body.2.1 then
          parseFrom (g.push (.oneOf (classMark rest).1 ranges)) (some ']') body.2.2
        else .error .unclosedClass
    else if c = '\x7b' then parseFrom g.openGroup (some c) rest
    else if c = '\x7d' then
      match g.closeGroup with
      | .ok g => parseFrom g (some c) rest
      | .error f => .error f
    else if c = ',' then parseFrom g.comma (some c) rest
    else if c = '\\' then
      match rest with
      | [] => .error .danglingEscape
      | d :: more => parseFrom (g.push (.literal d)) (some d) more
    else parseFrom (g.push (.literal c)) (some c) rest
termination_by cs => cs.length
decreasing_by
  all_goals simp_wf
  all_goals try omega
  have h₁ := length_splitClass_le (classMark rest).2
  have h₂ := length_classMark_le rest
  omega

/-- The tokens of a pattern. -/
def parse (pattern : String) : Except Fault (List Token) := parseFrom .start none pattern.toList

end IncludeAudit.Glob
