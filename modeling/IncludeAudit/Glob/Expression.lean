import IncludeAudit.Glob.Pattern

/-! # Regular expressions of glob patterns

A pattern stands for a regular expression over the UTF-8 form of a path, so `?` is one byte, and a
character beyond ASCII in a class stands for its single bytes. An expression accepts a text if all
of its pieces, one after the other, can lead from the start of the text to its end. Expressions have
a written form, and those that are nested too deep cannot be used.
-/
namespace IncludeAudit.Glob

/-- The UTF-8 form of some characters. -/
def bytes (cs : List Char) : List UInt8 := cs.flatMap String.utf8EncodeChar

/-- A piece of a regular expression. -/
inductive Piece where
  | byte (b : UInt8)
  | anyByte
  | anyText
  /-- A byte that may be missing. -/
  | optional (b : UInt8)
  /-- A byte of some ranges, or of none of them. -/
  | oneOf (negated : Bool) (ranges : List (UInt8 × UInt8))
  | choice (branches : List (List Piece))
deriving Inhabited, Repr

/-- A regular expression for whole texts. -/
structure Expression where
  pieces : List Piece
deriving Inhabited, Repr

/-! ## From patterns -/

/-- The bytes that the characters from one to another stand for in a class. A range goes from the
last byte of the one to the first byte of the other; the bytes around it stand for themselves. -/
def byteRanges (first last : Char) : List (UInt8 × UInt8) :=
  let lower := String.utf8EncodeChar first
  let upper := String.utf8EncodeChar last
  let single (bs : List UInt8) := bs.map fun b => (b, b)
  if first = last then single lower
  else match lower.getLast?, upper.head? with
    | some low, some high => single lower.dropLast ++ (low, high) :: single upper.tail
    | _, _ => []

/-- The byte between the components of a path. -/
def separator : UInt8 := 47

mutual

/-- The pieces that a token stands for. A group without any branch stands for nothing. -/
def Token.pieces : Token → List Piece
  | .literal c => (String.utf8EncodeChar c).map .byte
  | .any => [.anyByte]
  | .zeroOrMore => [.anyText]
  | .recursiveStart => [.choice [[.optional separator], [.anyText, .byte separator]]]
  | .recursiveEnd => [.byte separator, .anyText]
  | .recursiveMiddle =>
    [.choice [[.byte separator], [.byte separator, .anyText, .byte separator]]]
  | .oneOf negated ranges => [.oneOf negated (ranges.flatMap fun (a, b) => byteRanges a b)]
  | .alternates branches => match branchesPieces branches with
    | [] => []
    | b :: rest => [.choice (b :: rest)]

/-- The pieces that some tokens stand for. -/
def tokensPieces : List Token → List Piece
  | [] => []
  | t :: rest => t.pieces ++ tokensPieces rest

/-- The pieces of some branches; a branch without pieces does not count. -/
def branchesPieces : List (List Token) → List (List Piece)
  | [] => []
  | branch :: rest => match tokensPieces branch with
    | [] => branchesPieces rest
    | p :: more => (p :: more) :: branchesPieces rest

end

/-- The expression of a pattern. A `**` alone stands for any text. -/
def Expression.ofTokens : List Token → Expression
  | [.recursiveStart] => ⟨[.anyText]⟩
  | ts => ⟨tokensPieces ts⟩

/-! ## What an expression accepts

The places in a text, before each byte and behind the last one, are a list of flags: a flag is set
if the pieces so far can lead from the start to its place.
-/

/-- The places behind a byte with a property that stands at one of some places. -/
def afterByte (p : UInt8 → Bool) (s : List UInt8) (places : List Bool) : List Bool :=
  false :: s.zipWith (fun b isHere => isHere && p b) places

/-- The places from the first of some places on. -/
def fromFirst (isReached : Bool) : List Bool → List Bool
  | [] => []
  | isHere :: rest => (isReached || isHere) :: fromFirst (isReached || isHere) rest

/-- The places that are in one of two lists. -/
def eitherPlace (l₁ l₂ : List Bool) : List Bool := l₁.zipWith (· || ·) l₂

theorem length_afterByte (p : UInt8 → Bool) {s : List UInt8} {places : List Bool}
    (h : places.length = s.length + 1) : (afterByte p s places).length = places.length := by
  simp [afterByte, h]

theorem length_fromFirst (isReached : Bool) (places : List Bool) :
    (fromFirst isReached places).length = places.length := by
  induction places generalizing isReached with
  | nil => rfl
  | cons isHere rest ih => simp [fromFirst, ih]

mutual

/-- The places in a text behind a piece that starts at one of some places. -/
def Piece.ends (s : List UInt8) (places : List Bool) : Piece → List Bool
  | .byte b => afterByte (· == b) s places
  | .anyByte => afterByte (fun _ => true) s places
  | .anyText => fromFirst false places
  | .optional b => eitherPlace places (afterByte (· == b) s places)
  | .oneOf negated ranges =>
    afterByte (fun b => (ranges.any fun (low, high) => low ≤ b && b ≤ high) != negated) s places
  | .choice branches => branchesEnds s places branches

/-- The places behind some pieces. -/
def piecesEnds (s : List UInt8) (places : List Bool) : List Piece → List Bool
  | [] => places
  | p :: rest => piecesEnds s (p.ends s places) rest

/-- The places behind one of some branches. -/
def branchesEnds (s : List UInt8) (places : List Bool) : List (List Piece) → List Bool
  | [] => places.map fun _ => false
  | branch :: rest => eitherPlace (piecesEnds s places branch) (branchesEnds s places rest)

end

mutual

/-- There are as many places behind a piece as before it. -/
theorem Piece.length_ends {s : List UInt8} {places : List Bool}
    (h : places.length = s.length + 1) : (p : Piece) → (p.ends s places).length = places.length
  | .byte _ | .anyByte | .oneOf .. => length_afterByte _ h
  | .anyText => length_fromFirst _ _
  | .optional _ => by simp [Piece.ends, eitherPlace, length_afterByte _ h]
  | .choice branches => length_branchesEnds h branches

theorem length_piecesEnds {s : List UInt8} {places : List Bool}
    (h : places.length = s.length + 1) :
    (ps : List Piece) → (piecesEnds s places ps).length = places.length
  | [] => rfl
  | p :: rest => by
    have hp := p.length_ends h
    rw [piecesEnds, length_piecesEnds (hp.trans h) rest, hp]

theorem length_branchesEnds {s : List UInt8} {places : List Bool}
    (h : places.length = s.length + 1) :
    (bs : List (List Piece)) → (branchesEnds s places bs).length = places.length
  | [] => by simp [branchesEnds]
  | branch :: rest => by
    simp [branchesEnds, eitherPlace, length_piecesEnds h branch, length_branchesEnds h rest]

end

/-- Whether an expression accepts a text. -/
def Expression.accepts (e : Expression) (s : List UInt8) : Bool :=
  (piecesEnds s (true :: s.map fun _ => false) e.pieces).getLast? == some true

/-! ## The written form -/

/-- The characters with a meaning of their own in the written form. -/
def isMark (c : Char) : Bool := "\\.+*?()|[]\x7b\x7d^$#&-~".toList.contains c

/-- A byte as it is written. -/
def byteText (b : UInt8) : String :=
  let c := Char.ofNat b.toNat
  if b ≥ 128 then "\\x" ++ String.ofList (Nat.toDigits 16 b.toNat)
  else if isMark c then "\\" ++ c.toString
  else c.toString

/-- A range of bytes as it is written in a class. -/
def rangeText : UInt8 × UInt8 → String
  | (low, high) => if low = high then byteText low else byteText low ++ "-" ++ byteText high

mutual

/-- A piece as it is written. -/
def Piece.text : Piece → String
  | .byte b => byteText b
  | .anyByte => "."
  | .anyText => ".*"
  | .optional b => byteText b ++ "?"
  | .oneOf negated ranges =>
    (if negated then "[^" else "[") ++ String.join (ranges.map rangeText) ++ "]"
  | .choice branches => "(?:" ++ "|".intercalate (branchTexts branches) ++ ")"

/-- Some pieces as they are written. -/
def piecesText : List Piece → String
  | [] => ""
  | p :: rest => p.text ++ piecesText rest

/-- Each of some branches as it is written. -/
def branchTexts : List (List Piece) → List String
  | [] => []
  | branch :: rest => piecesText branch :: branchTexts rest

end

namespace Expression

/-- The written form of an expression, which goes by bytes and from end to end. -/
def text (e : Expression) : String := "(?-u)^" ++ piecesText e.pieces ++ "$"

end Expression

/-! ## Depth

A class is a level and another one if it has several ranges, a part that may be missing or repeated
is one, a group is one and another one if it has several branches, and so is a sequence of several
pieces.
-/

/-- The levels that some things take up together if one of them alone takes up one. -/
def levels (count : Nat) : Nat := if count = 1 then 1 else 2

mutual

/-- The number of levels in a piece. -/
def Piece.depth : Piece → Nat
  | .byte _ | .anyByte => 0
  | .anyText | .optional _ => 1
  | .oneOf _ ranges => levels ranges.length
  | .choice branches => levels branches.length + branchesDepth branches

/-- The greatest depth of some pieces. -/
def piecesDepth : List Piece → Nat
  | [] => 0
  | p :: rest => max p.depth (piecesDepth rest)

/-- The greatest depth of some branches. -/
def branchesDepth : List (List Piece) → Nat
  | [] => 0
  | branch :: rest =>
    max (piecesDepth branch + if branch.length = 1 then 0 else 1) (branchesDepth rest)

end

namespace Expression

/-- The number of levels in an expression; with its two ends it is always a sequence. -/
def depth (e : Expression) : Nat := piecesDepth e.pieces + 1

/-- The greatest depth of an expression that can be used. -/
def depthLimit : Nat := 250

/-- Whether an expression is nested too deep to be used. -/
def isTooDeep (e : Expression) : Bool := depthLimit < e.depth

end Expression

end IncludeAudit.Glob
