import IncludeAudit.Tree

/-! # The order of the text on a tree

`Node.preorder` keeps a stack of trees.  Here the same order is defined by recursion on the tree
(`nodes`), shown to be the one that the stack yields (`preorder_eq_nodes`), and tied to what it
means to occur in a tree at any depth (`Within`).  An *outline* is a tree without its shape: the
nodes in the order of the text, each with its depth.
-/
namespace IncludeAudit

/-- One line of an outline: a node without its children, and how deep it lies. -/
structure OutlineEntry where
  depth : Nat
  kind : NodeKind
  location? : Option Location
deriving DecidableEq, Inhabited, Repr

namespace Node

mutual

/-- The nodes of a tree in the order of the text. -/
def nodes : Node → List Node
  | ⟨kind, location?, children⟩ => ⟨kind, location?, children⟩ :: nodesAll children

/-- The nodes of some trees, one tree after the other. -/
def nodesAll : List Node → List Node
  | [] => []
  | n :: rest => n.nodes ++ nodesAll rest

end

mutual

/-- The outline of a tree whose root lies at a given depth. -/
def outline (depth : Nat) : Node → List OutlineEntry
  | ⟨kind, location?, children⟩ => ⟨depth, kind, location?⟩ :: outlineAll (depth + 1) children

/-- The outlines of some trees whose roots lie at one depth, one tree after the other. -/
def outlineAll (depth : Nat) : List Node → List OutlineEntry
  | [] => []
  | n :: rest => n.outline depth ++ outlineAll depth rest

end

/-! ## Nodes -/

theorem nodes_eq (n : Node) : n.nodes = n :: nodesAll n.children := by
  cases n
  rfl

@[simp] theorem nodesAll_nil : nodesAll [] = [] := rfl

@[simp] theorem nodesAll_cons (n : Node) (ns : List Node) :
    nodesAll (n :: ns) = n.nodes ++ nodesAll ns := rfl

theorem nodesAll_append (ms ns : List Node) :
    nodesAll (ms ++ ns) = nodesAll ms ++ nodesAll ns := by
  induction ms with
  | nil => rfl
  | cons m ms ih => rw [List.cons_append, nodesAll_cons, nodesAll_cons, ih, List.append_assoc]

/-- What the stack yields is the recursive order of all trees on it. -/
theorem preorderOf_eq_nodesAll (stack : List Node) : preorderOf stack = nodesAll stack := by
  fun_induction preorderOf stack with
  | case1 => rfl
  | case2 n stack ih =>
    -- the children go before the other trees of the stack, as in the recursion
    rw [ih, nodesAll_append, nodesAll_cons, nodes_eq, List.cons_append]

/-- The walk with a stack goes through a tree as the recursion does. -/
theorem preorder_eq_nodes (n : Node) : n.preorder = n.nodes := by
  rw [preorder, preorderOf_eq_nodesAll, nodesAll_cons, nodesAll_nil, List.append_nil]

/-- `m` occurs in a tree, at whatever depth. -/
inductive Within (m : Node) : Node → Prop
  | self : Within m m
  | child {c n : Node} (hc : c ∈ n.children) (h : Within m c) : Within m n

/-- What is in one of some trees is among the nodes of all of them. -/
theorem nodes_subset_nodesAll {c : Node} {ns : List Node} (h : c ∈ ns) :
    ∀ m ∈ c.nodes, m ∈ nodesAll ns := by
  intro m hm
  induction ns with
  | nil => exact absurd h List.not_mem_nil
  | cons n ns ih =>
    rw [nodesAll_cons, List.mem_append]
    rcases List.mem_cons.1 h with rfl | h
    · exact Or.inl hm
    · exact Or.inr (ih h)

/-- What occurs in a tree is one of its nodes. -/
theorem mem_nodes_of_within {m n : Node} (h : m.Within n) : m ∈ n.nodes := by
  induction h with
  | self => exact nodes_eq m ▸ List.mem_cons_self ..
  | @child c n hc _ ih =>
    rw [nodes_eq]
    exact List.mem_cons_of_mem n (nodes_subset_nodesAll hc m ih)

mutual

/-- A node of a tree is its root or occurs in one of its children. -/
theorem within_of_mem_nodes {m : Node} : (n : Node) → m ∈ n.nodes → m.Within n
  | ⟨kind, location?, children⟩, h => by
    rcases List.mem_cons.1 h with rfl | h
    · exact .self
    · obtain ⟨c, hc, hm⟩ := within_of_mem_nodesAll children h
      exact .child hc hm

/-- A node of some trees occurs in one of them. -/
theorem within_of_mem_nodesAll {m : Node} :
    (ns : List Node) → m ∈ nodesAll ns → ∃ c ∈ ns, m.Within c
  | [], h => absurd h List.not_mem_nil
  | n :: ns, h => by
    rcases List.mem_append.1 h with h | h
    · exact ⟨n, List.mem_cons_self .., within_of_mem_nodes n h⟩
    · obtain ⟨c, hc, hm⟩ := within_of_mem_nodesAll ns h
      exact ⟨c, List.mem_cons_of_mem n hc, hm⟩

end

/-- The order of the text lists just the nodes that occur in the tree. -/
theorem mem_preorder_iff {m n : Node} : m ∈ n.preorder ↔ m.Within n := by
  rw [preorder_eq_nodes]
  exact ⟨within_of_mem_nodes n, mem_nodes_of_within⟩

/-- The listed directives are the ones that occur in the tree, at whatever depth. -/
theorem mem_inclusions_iff {n : Node} {location? : Option Location} {d : Inclusion} :
    (location?, d) ∈ n.inclusions ↔
      ∃ m : Node, m.Within n ∧ m.kind = .inclusion d ∧ m.location? = location? := by
  rw [inclusions, List.mem_filterMap]
  constructor
  · rintro ⟨m, hm, h⟩
    obtain ⟨e, he, hpair⟩ := Option.map_eq_some_iff.1 h
    obtain ⟨rfl, rfl⟩ := Prod.mk.inj hpair
    refine ⟨m, mem_preorder_iff.1 hm, ?_, rfl⟩
    unfold inclusion? at he
    split at he
    · cases he
      assumption
    · cases he
  · rintro ⟨m, hm, hkind, rfl⟩
    exact ⟨m, mem_preorder_iff.2 hm, by rw [inclusion?, hkind]; rfl⟩

/-! ## Directives -/

/-- The directives of some trees, one tree after the other. -/
def inclusionsAll (ns : List Node) : List (Option Location × Inclusion) :=
  (nodesAll ns).filterMap fun m => m.inclusion?.map fun d => (m.location?, d)

/-- The directives of a tree come before those of the trees behind it. -/
theorem inclusionsAll_cons (n : Node) (ns : List Node) :
    inclusionsAll (n :: ns) = n.inclusions ++ inclusionsAll ns := by
  rw [inclusionsAll, nodesAll_cons, List.filterMap_append, inclusions, preorder_eq_nodes]
  rfl

/-- A node's own directive comes first, then those of its children. -/
theorem inclusions_eq (n : Node) :
    n.inclusions =
      (n.inclusion?.map fun d => (n.location?, d)).toList ++ inclusionsAll n.children := by
  rw [inclusions, preorder_eq_nodes, nodes_eq, List.filterMap_cons]
  cases n.inclusion? <;> rfl

/-! ## Outlines -/

theorem outline_eq (depth : Nat) (n : Node) :
    n.outline depth = ⟨depth, n.kind, n.location?⟩ :: outlineAll (depth + 1) n.children := by
  cases n
  rfl

@[simp] theorem outlineAll_nil (depth : Nat) : outlineAll depth [] = [] := rfl

@[simp] theorem outlineAll_cons (depth : Nat) (n : Node) (ns : List Node) :
    outlineAll depth (n :: ns) = n.outline depth ++ outlineAll depth ns := rfl

theorem outlineAll_append (depth : Nat) (ms ns : List Node) :
    outlineAll depth (ms ++ ns) = outlineAll depth ms ++ outlineAll depth ns := by
  induction ms with
  | nil => rfl
  | cons m ms ih => rw [List.cons_append, outlineAll_cons, outlineAll_cons, ih, List.append_assoc]

theorem outline_leaf (depth : Nat) (kind : NodeKind) (location? : Option Location) :
    (leaf kind location?).outline depth = [⟨depth, kind, location?⟩] := rfl

/-- A new last child comes at the end of the outline. -/
theorem outline_push (depth : Nat) (n child : Node) :
    (n.push child).outline depth = n.outline depth ++ child.outline (depth + 1) := by
  rw [outline_eq, outline_eq depth n, push, outlineAll_append, outlineAll_cons, outlineAll_nil,
    List.append_nil, List.cons_append]

mutual

/-- An outline lists the nodes, each with its kind and its location. -/
theorem map_outline (depth : Nat) : (n : Node) →
    (n.outline depth).map (fun e => (e.kind, e.location?)) =
      n.nodes.map fun m => (m.kind, m.location?)
  | ⟨kind, location?, children⟩ =>
    congrArg ((kind, location?) :: ·) (map_outlineAll (depth + 1) children)

/-- The same for some trees, whatever their common depth is. -/
theorem map_outlineAll (depth : Nat) : (ns : List Node) →
    (outlineAll depth ns).map (fun e => (e.kind, e.location?)) =
      (nodesAll ns).map fun m => (m.kind, m.location?)
  | [] => rfl
  | n :: ns => by
    rw [outlineAll_cons, nodesAll_cons, List.map_append, List.map_append, map_outline depth n,
      map_outlineAll depth ns]

end

/-- Without its depths an outline is the walk over the tree. -/
theorem map_preorder_eq_outline (depth : Nat) (n : Node) :
    n.preorder.map (fun m => (m.kind, m.location?)) =
      (n.outline depth).map fun e => (e.kind, e.location?) := by
  rw [preorder_eq_nodes, map_outline]

end Node

end IncludeAudit
