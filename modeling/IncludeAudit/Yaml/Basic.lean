import IncludeAudit.Yaml.Layout

/-! # YAML documents as data

An anchor gives a node a number, and an alias stands for the node whose number it names. The number
is that of the different names given so far, so a name that is given again can share its number with
the next new name; the last node with a number has it.
-/
namespace IncludeAudit

/-- A node of a YAML document. A reference is an alias, which stands for another node. -/
inductive Yaml where
  | scalar (anchor? : Option Nat) (tag? : Option String) (isPlain : Bool) (text : String)
  | sequence (anchor? : Option Nat) (items : List Yaml)
  | mapping (anchor? : Option Nat) (entries : List (Yaml × Yaml))
  | reference (number : Nat)
deriving Inhabited, Repr

namespace Yaml

/-- The node that stands where nothing is written. -/
def blank : Yaml := scalar none none true ""

/-- The number of a node that has one. -/
def anchor? : Yaml → Option Nat
  | scalar a _ _ _ | sequence a _ | mapping a _ => a
  | reference _ => none

mutual

/-- A node and all nodes in it, in the order of the text. -/
def preorder : Yaml → List Yaml
  | scalar a t p s => [scalar a t p s]
  | sequence a items => sequence a items :: preorderAll items
  | mapping a entries => mapping a entries :: preorderEntries entries
  | reference n => [reference n]

/-- The nodes of some trees, one tree after the other. -/
def preorderAll : List Yaml → List Yaml
  | [] => []
  | y :: rest => y.preorder ++ preorderAll rest

/-- The nodes of the entries of a mapping, each key before its value. -/
def preorderEntries : List (Yaml × Yaml) → List Yaml
  | [] => []
  | (k, v) :: rest => k.preorder ++ v.preorder ++ preorderEntries rest

end

/-- The node that `y` stands for in a document. -/
def target? (document y : Yaml) : Option Yaml :=
  match y with
  | reference n => (document.preorder.filter fun z => z.anchor? = some n).getLast?
  | _ => some y

/-! ## Documents from tokens -/

/-- What is known between two nodes. -/
structure Reader where
  tokens : List Token
  /-- What the handles of tags stand for. -/
  handles : List (String × String) := []
  /-- The numbers of the anchors by name. -/
  anchors : List (String × Nat) := []

/-- A step of reading, which may fail. -/
abbrev Reading := StateT Reader Option

namespace Reading

/-- The next token. -/
def peek? : Reading (Option Token) := do return (← get).tokens.head?

/-- Goes behind the next token. -/
def skip : Reading Unit := modify fun r => { r with tokens := r.tokens.tail }

/-- Whether the next token is one of a list; at the end of the stream there is none. -/
def isNext (ts : List Token) : Reading Bool := do return (← peek?).any ts.contains

/-- Goes behind the next token if it is a certain one. -/
def skipIf (t : Token) : Reading Bool := do
  if ← isNext [t] then
    skip
    return true
  else return false

/-- Goes behind a comma. -/
def separator : Reading Unit := do
  if !(← skipIf .flowEntry) then failure

/-- Gives a name to the node that starts here. -/
def define (name : String) : Reading Nat := do
  let r ← get
  let number := r.anchors.length
  set { r with anchors := (name, number) :: r.anchors.filter fun a => a.1 ≠ name }
  return number

/-- The number behind a name. -/
def number (name : String) : Reading Nat := do
  match (← get).anchors.find? fun a => a.1 = name with
  | some a => return a.2
  | none => failure

/-- The tag that a handle and what follows it make. -/
def resolveTag (handle rest : String) : Reading String := do
  if handle.isEmpty then return rest
  match (← get).handles.find? fun h => h.1 = handle with
  | some h => return h.2 ++ rest
  | none => failure

/-- The anchor in front of a node. -/
def anchor? : Reading (Option String) := do
  match ← peek? with
  | some (.anchor name) => do
    skip
    return some name
  | _ => return none

/-- The tag in front of a node. -/
def tag? : Reading (Option (String × String)) := do
  match ← peek? with
  | some (.tag handle rest) => do
    skip
    return some (handle, rest)
  | _ => return none

/-- The number and the tag of a node. Anchor and tag come in either order. -/
def properties : Reading (Option Nat × Option String) := do
  let early? ← anchor?
  let tag? ← tag?
  let name? ← if early?.isSome then pure early? else anchor?
  let tag? ← tag?.mapM fun (handle, rest) => resolveTag handle rest
  return (← name?.mapM define, tag?)

mutual

/-- A node. Block collections can stand only where blocks can, and a block sequence without
indentation of its own only where `isValue` holds, in a block mapping. -/
def node (fuel : Nat) (inBlock isValue : Bool) : Reading Yaml :=
  match fuel with
  | 0 => failure
  | fuel + 1 => do
    if let some (.reference name) ← peek? then
      skip
      return reference (← number name)
    let (anchor?, tag?) ← properties
    match ← peek? with
    | some (.scalar text isPlain) => do
      skip
      return scalar anchor? tag? isPlain text
    | some .flowSequence => do
      skip
      return sequence anchor? (← flowItems fuel true)
    | some .flowMapping => do
      skip
      return mapping anchor? (← flowEntries fuel true)
    | t => do
      if isValue && t = some .blockEntry then
        return sequence anchor? (← flushItems fuel)
      else if inBlock && t = some .blockSequence then
        skip
        return sequence anchor? (← blockItems fuel)
      else if inBlock && t = some .blockMapping then
        skip
        return mapping anchor? (← blockEntries fuel)
      else if anchor?.isSome || tag?.isSome then return scalar anchor? tag? true ""
      else failure

/-- A node that is not written if one of some tokens follows. -/
def nodeUnless (fuel : Nat) (ends : List Token) (inBlock isValue : Bool) : Reading Yaml :=
  match fuel with
  | 0 => failure
  | fuel + 1 => do if ← isNext ends then return blank else node fuel inBlock isValue

/-- The items of a block sequence and its end. -/
def blockItems (fuel : Nat) : Reading (List Yaml) :=
  match fuel with
  | 0 => failure
  | fuel + 1 => do
    if ← skipIf .blockEntry then
      let y ← nodeUnless fuel [.blockEntry, .blockEnd] true false
      return y :: (← blockItems fuel)
    else if ← skipIf .blockEnd then return []
    else failure

/-- The items of a block sequence that starts at the column of the mapping around it. -/
def flushItems (fuel : Nat) : Reading (List Yaml) :=
  match fuel with
  | 0 => failure
  | fuel + 1 => do
    if ← skipIf .blockEntry then
      let y ← nodeUnless fuel [.blockEntry, .key, .value, .blockEnd] true false
      return y :: (← flushItems fuel)
    else return []

/-- The entries of a block mapping and its end. -/
def blockEntries (fuel : Nat) : Reading (List (Yaml × Yaml)) :=
  match fuel with
  | 0 => failure
  | fuel + 1 => do
    if ← skipIf .key then
      let k ← nodeUnless fuel [.key, .value, .blockEnd] true true
      let v ← if ← skipIf .value then nodeUnless fuel [.key, .value, .blockEnd] true true
        else pure blank
      return (k, v) :: (← blockEntries fuel)
    else if ← skipIf .blockEnd then return []
    else failure

/-- The items of a flow sequence and its end. An item that starts as a key does is a mapping with
one entry. -/
def flowItems (fuel : Nat) (isFirst : Bool) : Reading (List Yaml) :=
  match fuel with
  | 0 => failure
  | fuel + 1 => do
    if ← skipIf .flowSequenceEnd then return []
    if !isFirst then separator
    if ← skipIf .flowSequenceEnd then return []
    let y ← if ← skipIf .key then do
        let entry ← flowPair fuel
        pure (mapping none [entry])
      else node fuel false false
    return y :: (← flowItems fuel false)

/-- The only entry of a mapping without braces. The token after a key that is not written goes with
the key. -/
def flowPair (fuel : Nat) : Reading (Yaml × Yaml) :=
  match fuel with
  | 0 => failure
  | fuel + 1 => do
    let k ← if ← isNext [.value, .flowEntry, .flowSequenceEnd] then do
        skip
        pure blank
      else node fuel false false
    let v ← if ← skipIf .value then nodeUnless fuel [.flowEntry, .flowSequenceEnd] false false
      else pure blank
    return (k, v)

/-- The entries of a flow mapping and its end. A value may be missing, and with it the colon. -/
def flowEntries (fuel : Nat) (isFirst : Bool) : Reading (List (Yaml × Yaml)) :=
  match fuel with
  | 0 => failure
  | fuel + 1 => do
    if ← skipIf .flowMappingEnd then return []
    if !isFirst then separator
    if ← skipIf .flowMappingEnd then return []
    if ← skipIf .key then
      let k ← nodeUnless fuel [.value, .flowEntry, .flowMappingEnd] false false
      let v ← if ← skipIf .value then nodeUnless fuel [.flowEntry, .flowMappingEnd] false false
        else pure blank
      return (k, v) :: (← flowEntries fuel false)
    else
      let k ← node fuel false false
      return (k, blank) :: (← flowEntries fuel false)

end

/-- The directives before a document: one version at most, which has to be known, and every handle
once at most. -/
def directives (hasVersion : Bool) : List Token → Option (List (String × String) × List Token)
  | .version major minor :: rest =>
    if hasVersion || major ≠ 1 || (minor ≠ 1 && minor ≠ 2) then none else directives true rest
  | .tagHandle handle meaning :: rest => do
    let (handles, rest) ← directives hasVersion rest
    if handles.any fun h => h.1 = handle then none else some ((handle, meaning) :: handles, rest)
  | ts => some ([], ts)

/-- What handles stand for where no directive says so. -/
def standardHandles : List (String × String) := [("!", "!"), ("!!", "tag:yaml.org,2002:")]

/-- The node of the only document of a stream. A document that is opened may have nothing in it. -/
def document (fuel : Nat) : Reading Yaml := do
  let isOpened ← skipIf .documentStart
  match ← peek? with
  | none => return blank
  | some t => if isOpened && t = .documentEnd then return blank else node fuel true false

end Reading

/-- The only document of a stream of tokens. A stream without document has a blank one; directives
need a document, and one that is opened. -/
def ofTokens? (ts : List Token) : Option Yaml := do
  let (handles, rest) ← Reading.directives false ts
  if rest.length ≠ ts.length && rest.head? ≠ some .documentStart then none
  let r : Reader := { tokens := rest, handles := handles ++ Reading.standardHandles }
  let (y, r) ← (Reading.document (3 * rest.length + 4)).run r
  if r.tokens.all (· = .documentEnd) then some y else none

/-- The only document of a text. -/
def parse? (text : String) : Option Yaml := do ofTokens? (← Token.ofText? text)

end Yaml

end IncludeAudit
