/-! # Paths and their components

A path is kept exactly as it was written; what it denotes is its list of components, in which
repeated and trailing separators and the `.` after the start do not count. Everything here is
lexical: no file is looked at.
-/
namespace IncludeAudit

/-- A path as written. -/
structure Path where
  text : String
deriving DecidableEq, Hashable, Inhabited, Repr

/-- One step of a path. `here` is a `.` at the very start, the only place where it counts. -/
inductive Component where
  | root
  | here
  | up
  | name (chars : List Char)
deriving DecidableEq, Inhabited, Repr

namespace Component

/-- The text of a single component. The root writes nothing before its separator. -/
def chars : Component → List Char
  | root => []
  | here => ['.']
  | up => ['.', '.']
  | name cs => cs

/-- What a piece of text between separators means after the start of a path. -/
def ofSegment? : List Char → Option Component
  | [] => none
  | ['.'] => none
  | ['.', '.'] => some up
  | cs => some (name cs)

/-- The pieces of a text between separators; a text without separator is one piece. -/
def segments : List Char → List (List Char)
  | [] => [[]]
  | c :: rest =>
    if c = '/' then [] :: segments rest
    else match segments rest with
      | [] => [[c]]
      | first :: more => (c :: first) :: more

/-- Pieces put back together with one separator between neighbours. -/
def joinSegments : List (List Char) → List Char
  | [] => []
  | [s] => s
  | s :: t :: rest => s ++ '/' :: joinSegments (t :: rest)

/-- The components of a text. -/
def ofChars (cs : List Char) : List Component :=
  let rest := (segments cs).filterMap ofSegment?
  if cs.head? = some '/' then root :: rest
  else if (segments cs).head? = some ['.'] then here :: rest
  else rest

/-- The shortest text with the given components. -/
def render : List Component → List Char
  | root :: rest => '/' :: joinSegments (rest.map chars)
  | cs => joinSegments (cs.map chars)

end Component

namespace Path

/-- The characters of a path. -/
def chars (p : Path) : List Char := p.text.toList

/-- The path written with the given characters. -/
def ofChars (cs : List Char) : Path := ⟨String.ofList cs⟩

@[simp] theorem chars_ofChars (cs : List Char) : (ofChars cs).chars = cs := by
  simp [chars, ofChars]

@[simp] theorem ofChars_chars (p : Path) : ofChars p.chars = p := by
  simp [chars, ofChars]

theorem ext_chars {p q : Path} (h : p.chars = q.chars) : p = q := by
  rw [← ofChars_chars p, h, ofChars_chars]

/-- The components of a path. -/
def components (p : Path) : List Component := Component.ofChars p.chars

/-- A path that starts at the root. -/
def isAbsolute (p : Path) : Bool := p.chars.head? = some '/'

/-- `base` followed by `p`; an absolute `p` stands for itself. A separator is written unless `base`
is empty or ends in one, so joining the empty path leaves a trailing separator. -/
def join (base p : Path) : Path :=
  if p.isAbsolute then p
  else match base.chars.getLast? with
    | none => p
    | some last =>
      if last = '/' then ofChars (base.chars ++ p.chars)
      else ofChars (base.chars ++ '/' :: p.chars)

/-- Two paths with the same components, however they are written. -/
def same (p q : Path) : Bool := p.components = q.components

/-- `q` lies at or below `p`: the components of `p` come first in `q`. -/
def isAncestorOf (p q : Path) : Bool := p.components.isPrefixOf q.components

/-- Trailing pieces that name nothing are dropped, last piece first; the first piece of a path
always stays. -/
def dropIdle : List (List Char) → List (List Char)
  | [] => []
  | [first] => [first]
  | s :: t :: rest => if s = [] ∨ s = ['.'] then dropIdle (t :: rest) else s :: t :: rest

/-- The path with the given pieces, which are listed last piece first. Of a path that has been cut
down to an empty first piece only the root is left; without any piece it is empty. -/
def ofReversedSegments : List (List Char) → Path
  | [[]] => ⟨"/"⟩
  | ss => ofChars (Component.joinSegments ss.reverse)

/-- One step up from pieces that are listed last piece first. A path of a single piece has the
empty path above it, the root and the empty path have nothing. -/
def above? (ss : List (List Char)) : Option (List (List Char)) :=
  match dropIdle ss with
  | [] => none
  | [first] => if first = [] then none else some []
  | _ :: rest => some (dropIdle rest)

theorem length_dropIdle_le (ss : List (List Char)) : (dropIdle ss).length ≤ ss.length := by
  fun_induction dropIdle ss with
  | case1 => simp
  | case2 => simp
  | case3 s t rest _ ih => simp only [List.length_cons] at ih ⊢; omega
  | case4 => simp

theorem length_lt_of_above? {ss ts : List (List Char)} (h : above? ss = some ts) :
    ts.length < ss.length := by
  have hle := length_dropIdle_le ss
  unfold above? at h
  split at h
  · simp at h
  · rename_i hd
    rw [hd, List.length_singleton] at hle
    split at h
    · simp at h
    · cases h
      exact hle
  · rename_i rest _ hd
    rw [hd, List.length_cons] at hle
    cases h
    have := length_dropIdle_le rest
    omega

/-- The path without its last component, as a part of the text as written. -/
def parent? (p : Path) : Option Path :=
  (above? (Component.segments p.chars).reverse).map ofReversedSegments

/-- The paths above given pieces, nearest first. -/
def pathsAbove (ss : List (List Char)) : List Path :=
  match _h : above? ss with
  | none => []
  | some ts => ofReversedSegments ts :: pathsAbove ts
termination_by ss.length
decreasing_by exact length_lt_of_above? _h

/-- The path itself, then each path above it, nearest first. -/
def ancestors (p : Path) : List Path := p :: pathsAbove (Component.segments p.chars).reverse

end Path

end IncludeAudit
