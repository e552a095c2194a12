/-! # Kinds of YAML tokens

Blocks are opened and closed by tokens of their own, which stand where the indentation grows and
shrinks.
-/
namespace IncludeAudit.Yaml

/-- A token. -/
inductive Token where
  /-- The directive that names the version. -/
  | version (major minor : Nat)
  /-- The directive that says what a handle of tags stands for. -/
  | tagHandle (handle meaning : String)
  | documentStart
  | documentEnd
  | blockSequence
  | blockMapping
  | blockEnd
  | flowSequence
  | flowSequenceEnd
  | flowMapping
  | flowMappingEnd
  /-- The comma of a flow collection. -/
  | flowEntry
  /-- The dash of a block sequence. -/
  | blockEntry
  /-- The start of a key, which may have no character of its own. -/
  | key
  /-- The colon before a value. -/
  | value
  /-- An alias: the name of an anchor. -/
  | reference (name : String)
  | anchor (name : String)
  /-- A tag; without a handle, what follows is the whole tag. -/
  | tag (handle rest : String)
  /-- A scalar, in plain style or in another. -/
  | scalar (text : String) (isPlain : Bool)
deriving DecidableEq, Inhabited, Repr

end IncludeAudit.Yaml
