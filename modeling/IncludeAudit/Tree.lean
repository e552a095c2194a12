import IncludeAudit.Path.Basic

/-! # Preprocessing trees

The preprocessing tree of a translation unit tells which files were entered, by which inclusion
directives, and which macros were defined on the way. A directive that entered a file has the region
of that file as its child.
-/
namespace IncludeAudit

/-- A line of a source file. -/
structure Location where
  file : String
  line : Nat
deriving DecidableEq, Inhabited, Repr

namespace Location

/-- The usual notation, `file:line`. -/
def text (l : Location) : String := l.file ++ ":" ++ toString l.line

end Location

/-- The three directives that include a file: `#include`, `#include_next` and `#import`. -/
inductive Keyword where
  | plain
  | next
  | once
deriving DecidableEq, Hashable, Inhabited, Repr

namespace Keyword

/-- A directive's name as written in a source file. -/
def text : Keyword → String
  | plain => "include"
  | next => "include_next"
  | once => "import"

/-- The directive with a given name. -/
def ofText? (name : String) : Option Keyword :=
  [plain, next, once].find? fun k => k.text = name

theorem ofText?_text (k : Keyword) : ofText? k.text = some k := by cases k <;> decide

end Keyword

/-- An inclusion directive: what it says, and the file that was opened for it if one is known. -/
structure Inclusion where
  keyword : Keyword
  /-- The text between the delimiters. -/
  spelling : String
  /-- `<...>` rather than `"..."`. -/
  angled : Bool
  file? : Option Path
deriving DecidableEq, Inhabited, Repr

/-- What a node of the tree stands for. -/
inductive NodeKind where
  /-- The whole translation unit, named after its main file. -/
  | unit (path : Path)
  /-- The contents of an entered file. -/
  | region (path : Path)
  | inclusion (directive : Inclusion)
  | define (name : String)
deriving DecidableEq, Inhabited, Repr

/-- A node of a preprocessing tree. A node without location comes from outside every file, such as
an inclusion asked for on the compiler's command line. -/
structure Node where
  kind : NodeKind
  location? : Option Location
  children : List Node
deriving Inhabited, Repr

namespace Node

/-- A node without children. -/
def leaf (kind : NodeKind) (location? : Option Location) : Node := ⟨kind, location?, []⟩

/-- The node with one child more at its end. -/
def push (n child : Node) : Node := { n with children := n.children ++ [child] }

mutual

/-- The number of nodes of a tree. -/
def size : Node → Nat
  | ⟨_, _, children⟩ => sizeAll children + 1

/-- The number of nodes of some trees together. -/
def sizeAll : List Node → Nat
  | [] => 0
  | n :: rest => n.size + sizeAll rest

end

theorem size_eq (n : Node) : n.size = sizeAll n.children + 1 := by cases n; simp [size]

theorem sizeAll_append (ms ns : List Node) : sizeAll (ms ++ ns) = sizeAll ms + sizeAll ns := by
  induction ms with
  | nil => simp [sizeAll]
  | cons m ms ih => simp [sizeAll, ih, Nat.add_assoc]

/-- The nodes of a stack of trees, topmost tree first: each node is taken off the stack and its
children are put in its place. -/
def preorderOf : List Node → List Node
  | [] => []
  | n :: stack => n :: preorderOf (n.children ++ stack)
termination_by stack => sizeAll stack
decreasing_by simp [sizeAll_append, sizeAll, size_eq]

/-- A node and all nodes below it, each before the nodes below it and in the order of the text. -/
def preorder (n : Node) : List Node := preorderOf [n]

/-- The directive of a node that is one. -/
def inclusion? (n : Node) : Option Inclusion :=
  match n.kind with
  | .inclusion d => some d
  | _ => none

/-- The inclusion directives at and below a node in the order of the text, with their locations. -/
def inclusions (n : Node) : List (Option Location × Inclusion) :=
  n.preorder.filterMap fun m => m.inclusion?.map fun d => (m.location?, d)

/-- The path of a translation unit or a region; other nodes have the empty path. -/
def path (n : Node) : Path :=
  match n.kind with
  | .unit p => p
  | .region p => p
  | _ => ⟨""⟩

end Node

/-- A preprocessed translation unit, with the warnings and errors the compiler wrote about it. -/
structure TranslationUnit where
  root : Node
  diagnostics : List String := []
deriving Inhabited, Repr

namespace TranslationUnit

/-- The unit of a file in which nothing happens. -/
def empty (path : Path) : TranslationUnit := ⟨.leaf (.unit path) none, []⟩

/-- The main file. -/
def path (u : TranslationUnit) : Path := u.root.path

/-- All inclusion directives in the order of the text, with their locations. -/
def inclusions (u : TranslationUnit) : List (Option Location × Inclusion) := u.root.inclusions

end TranslationUnit

end IncludeAudit
