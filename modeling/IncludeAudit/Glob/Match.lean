import IncludeAudit.Glob.Expression

/-! # The paths a glob pattern matches

A pattern that amounts to comparing the path, its base name, its extension, its start or its end is
decided by that comparison, and all others by their expressions. An extension in which every match
ends is compared before the expression is tried. Patterns that describe the base name by characters
and classes are told apart from those that look at the directories as well.
-/
namespace IncludeAudit.Glob

/-- The bytes of tokens that are all literals. -/
def literals? : List Token → Option (List UInt8)
  | [] => some []
  | .literal c :: rest => (literals? rest).map (String.utf8EncodeChar c ++ ·)
  | _ => none

/-- The part of a path behind its last separator, if it is a name; `..` is none. -/
def baseName (s : List UInt8) : List UInt8 :=
  let last := (s.reverse.takeWhile (· != separator)).reverse
  if last = [46, 46] then [] else last

/-- The end of the base name from its last point on. -/
def extension (s : List UInt8) : List UInt8 :=
  let name := baseName s
  if name.contains 46 then 46 :: (name.reverse.takeWhile (· != 46)).reverse else []

/-- How a pattern is decided. -/
inductive Test where
  | baseNameIs (name : List UInt8)
  | whole (path : List UInt8)
  | extensionIs (ext : List UInt8)
  | startsWith (start : List UInt8)
  /-- `afterSeparator`: the whole path may also be `ending` without its leading separator. -/
  | endsWith (ending : List UInt8) (afterSeparator : Bool)
  | extensionAnd (ext : List UInt8) (e : Expression)
  /-- The expression leaves open what stands before the base name. -/
  | baseNameFits (e : Expression)
  | general (e : Expression)

/-- The base name that alone decides a pattern: literals without separator below any number of
components. -/
def baseNameTest? : List Token → Option Test
  | .recursiveStart :: first :: rest => do
    let name ← literals? (first :: rest)
    if name.contains 47 then none
    some (.baseNameIs name)
  | _ => none

/-- A pattern of literals. -/
def wholeTest? (ts : List Token) : Option Test := do
  let path ← literals? ts
  if path.isEmpty then none
  some (.whole path)

/-- The extension that alone decides a pattern: anything, a point, and literals without point or
separator. -/
def extensionTest? (ts : List Token) : Option Test :=
  let ts := match ts with
    | .recursiveStart :: rest => rest
    | ts => ts
  match ts with
  | .zeroOrMore :: .literal '.' :: rest => do
    let ext ← literals? rest
    if ext.contains 46 || ext.contains 47 then none
    some (.extensionIs (46 :: ext))
  | _ => none

/-- The start that alone decides a pattern: literals, and anything after them. -/
def startTest? (ts : List Token) : Option Test := do
  let start ← match ts.getLast? with
    | some .zeroOrMore => literals? ts.dropLast
    | some .recursiveEnd => (literals? ts.dropLast).map (· ++ [47])
    | _ => literals? ts
  if start.isEmpty then none
  some (.startsWith start)

/-- The end that alone decides a pattern: literals, and anything before them. -/
def endTest? (ts : List Token) : Option Test := do
  let (rest, afterSeparator) := match ts with
    | .recursiveStart :: .literal c :: rest => (.literal '/' :: .literal c :: rest, true)
    | .recursiveStart :: .zeroOrMore :: rest => (rest, false)
    | .recursiveStart :: rest => (rest, false)
    | .zeroOrMore :: rest => (rest, false)
    | ts => (ts, false)
  let ending ← literals? rest
  if ending.isEmpty ∨ ending = [47] ∨ ts = [] then none
  some (.endsWith ending afterSeparator)

/-- The extension in which every match must end: the literals at the end of a pattern from their
last point on, if no separator is among them. -/
def requiredExtension? (ts : List Token) : Option (List UInt8) :=
  let rec go (found : List Char) : List Token → Option (List UInt8)
    | .literal c :: rest =>
      if c = '/' then none
      else if c = '.' then some (bytes ('.' :: found))
      else go (c :: found) rest
    | _ => none
  go [] ts.reverse

/-- Whether a token stands for one character, which cannot be a separator. -/
def Token.isInName : Token → Bool
  | .literal c => c != '/'
  | .oneOf negated ranges => (ranges.any fun (first, last) => first ≤ '/' && '/' ≤ last) == negated
  | _ => false

/-- Whether a pattern describes base names, below any number of components. -/
def describesBaseName : List Token → Bool
  | .recursiveStart :: first :: rest => (first :: rest).all Token.isInName
  | _ => false

/-- How a pattern is decided; the first comparison that fits is taken. -/
def Test.ofTokens (ts : List Token) : Test :=
  let e := Expression.ofTokens ts
  ((baseNameTest? ts).or ((wholeTest? ts).or ((extensionTest? ts).or ((startTest? ts).or
    ((endTest? ts).or ((requiredExtension? ts).map fun ext => .extensionAnd ext e)))))).getD
      (if describesBaseName ts then .baseNameFits e else .general e)

/-- Whether a path passes a test. -/
def Test.holds (s : List UInt8) : Test → Bool
  | baseNameIs name => baseName s = name
  | whole path => s = path
  | extensionIs ext => extension s = ext
  | startsWith start => start.isPrefixOf s
  | endsWith ending afterSeparator => ending.isSuffixOf s || (afterSeparator && s = ending.drop 1)
  | extensionAnd ext e => extension s = ext && e.accepts s
  | baseNameFits e | general e => e.accepts s

end IncludeAudit.Glob
