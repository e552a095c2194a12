import IncludeAudit.Json.Numeral

/-! # JSON documents as data

Members of an object keep the order and the repetitions of the text, since a reader of records has
to notice a field that is given twice.
-/
namespace IncludeAudit

/-- A JSON value. A string or a member's name with half a surrogate pair stands for no text. -/
inductive Json where
  | null
  | bool (value : Bool)
  | number (value : Numeral)
  | string (text? : Option String)
  | array (items : List Json)
  | object (members : List (Option String × Json))
deriving Inhabited, Repr

namespace Json

/-- The deepest nesting of arrays and objects that a value may have where it is kept. -/
def depthLimit : Nat := 127

mutual

/-- Whether a value can be kept: all its strings stand for a text, its numbers are finite, and
arrays and objects are nested at most `depth` deep. -/
def isKept (depth : Nat) : Json → Bool
  | null => true
  | bool _ => true
  | number n => n.isFinite
  | string text? => text?.isSome
  | array items => match depth with
    | 0 => false
    | depth + 1 => areKept depth items
  | object members => match depth with
    | 0 => false
    | depth + 1 => membersAreKept depth members

/-- Whether all values of a list can be kept. -/
def areKept (depth : Nat) : List Json → Bool
  | [] => true
  | j :: rest => j.isKept depth && areKept depth rest

/-- Whether all members of an object can be kept with their names. -/
def membersAreKept (depth : Nat) : List (Option String × Json) → Bool
  | [] => true
  | (name?, j) :: rest => name?.isSome && j.isKept depth && membersAreKept depth rest

end

end Json

end IncludeAudit
