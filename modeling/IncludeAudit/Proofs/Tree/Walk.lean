import IncludeAudit.Proofs.Tree

/-! # The walk over a tree, node by node

A walk keeps a stack of the trees that are still to come and gives one node at a time
(`Walk.next?`).  It ends, and what it has given then is the list that `Node.preorder` computes
(`yields_preorderOf`).  That this is the order of the text is said without any walk: each node has
its place in the tree, and the list goes through the places in their lexicographic order, through
each of them once (`listsEachOnce_preorder`).
-/
namespace IncludeAudit

/-- A walk that is under way: the trees that are still to come, the next one last. -/
structure Walk where
  stack : List Node

namespace Walk

/-- The walk over a tree, before its first node. -/
def ofRoot (n : Node) : Walk := ⟨[n]⟩

/-- Gives the root of the last tree and puts the children in the place of the tree, last child
first. -/
def next? (w : Walk) : Option (Node × Walk) :=
  w.stack.getLast?.map fun n => (n, ⟨w.stack.dropLast ++ n.children.reverse⟩)

/-- Asked again and again, the walk gives these nodes, and then it has no more. -/
inductive Yields : Walk → List Node → Prop
  | done {w : Walk} (hdone : w.next? = none) : Yields w []
  | next {w rest : Walk} {n : Node} {ns : List Node} (hnext : w.next? = some (n, rest))
    (hrest : Yields rest ns) : Yields w (n :: ns)

/-- The last tree of the stack is the next one. -/
theorem next?_concat (stack : List Node) (n : Node) :
    (⟨stack ++ [n]⟩ : Walk).next? = some (n, ⟨stack ++ n.children.reverse⟩) := by
  rw [next?, List.getLast?_concat, List.dropLast_concat]
  rfl

/-- What a walk gives is determined. -/
theorem Yields.unique {w : Walk} {ms ns : List Node} (hm : w.Yields ms) (hn : w.Yields ns) :
    ms = ns := by
  induction hm generalizing ns with
  | done hdone =>
    cases hn with
    | done => rfl
    | next hnext => cases hdone.symm.trans hnext
  | next hnext _ ih =>
    cases hn with
    | done hdone => cases hdone.symm.trans hnext
    | next hnext' hrest =>
      obtain ⟨rfl, rfl⟩ := Prod.mk.inj (Option.some.inj (hnext.symm.trans hnext'))
      rw [ih hrest]

/-- **Every walk ends**, after the nodes of all its trees. -/
theorem yields_preorderOf (stack : List Node) :
    Yields ⟨stack.reverse⟩ (Node.preorderOf stack) := by
  fun_induction Node.preorderOf stack with
  | case1 => exact .done rfl
  | case2 n stack ih =>
    rw [List.reverse_append] at ih
    rw [List.reverse_cons]
    exact .next (next?_concat stack.reverse n) ih

/-- A walk over a tree gives the list that `Node.preorder` computes and no other one. -/
theorem yields_ofRoot_iff {n : Node} {ns : List Node} :
    (ofRoot n).Yields ns ↔ ns = n.preorder := by
  have hyields : (ofRoot n).Yields n.preorder := yields_preorderOf [n]
  exact ⟨fun h => h.unique hyields, fun h => h ▸ hyields⟩

end Walk

namespace Node

/-- The two mutual recursions as one `flatMap`. -/
theorem nodesAll_eq_flatMap (ns : List Node) : nodesAll ns = ns.flatMap nodes := by
  induction ns with
  | nil => rfl
  | cons n ns ih => rw [nodesAll_cons, List.flatMap_cons, ih]

/-- A node comes before its children, and these come one after the other. -/
theorem preorder_eq (n : Node) : n.preorder = n :: n.children.flatMap preorder := by
  rw [preorder_eq_nodes, nodes_eq, nodesAll_eq_flatMap, funext preorder_eq_nodes]

/-! ## Places -/

/-- The node at a place, which says for each step down the number of the child. -/
def at? (n : Node) : List Nat → Option Node
  | [] => some n
  | i :: place => n.children[i]?.bind fun c => c.at? place

mutual

/-- The places of a tree. -/
def places : Node → List (List Nat)
  | ⟨_, _, children⟩ => [] :: placesAll 0 children

/-- The places of some children of a node, the first of which has the number `i`. -/
def placesAll (i : Nat) : List Node → List (List Nat)
  | [] => []
  | n :: rest => n.places.map (i :: ·) ++ placesAll (i + 1) rest

end

theorem places_eq (n : Node) : n.places = [] :: placesAll 0 n.children := by
  cases n
  rfl

theorem placesAll_cons (i : Nat) (n : Node) (ns : List Node) :
    placesAll i (n :: ns) = n.places.map (i :: ·) ++ placesAll (i + 1) ns := rfl

/-- A place below a node leads through one of the children: its first step says through which one,
and the rest is a place of that child. -/
theorem mem_placesAll_iff {i : Nat} {ns : List Node} {place : List Nat} :
    place ∈ placesAll i ns ↔
      ∃ k c below, place = (i + k) :: below ∧ ns[k]? = some c ∧ below ∈ c.places := by
  induction ns generalizing i with
  | nil => simp [placesAll]
  | cons n ns ih =>
    rw [placesAll_cons, List.mem_append, List.mem_map, ih]
    constructor
    · rintro (⟨below, hbelow, rfl⟩ | ⟨k, c, below, rfl, hc, hbelow⟩)
      · exact ⟨0, n, below, rfl, rfl, hbelow⟩
      · exact ⟨k + 1, c, below, by rw [Nat.add_right_comm, Nat.add_assoc], hc, hbelow⟩
    · rintro ⟨k, c, below, rfl, hc, hbelow⟩
      cases k with
      | zero => exact Or.inl ⟨below, Option.some.inj hc ▸ hbelow, rfl⟩
      | succ k =>
        exact Or.inr ⟨k, c, below, by rw [Nat.add_right_comm, Nat.add_assoc], hc, hbelow⟩

/-- The listed places are those that lead to a node. -/
theorem mem_places_iff {n : Node} {place : List Nat} :
    place ∈ n.places ↔ (n.at? place).isSome := by
  induction place generalizing n with
  | nil => simp [places_eq, at?]
  | cons i place ih =>
    rw [places_eq, List.mem_cons, or_iff_right (List.cons_ne_nil i place), mem_placesAll_iff, at?]
    constructor
    · rintro ⟨k, c, below, hplace, hc, hbelow⟩
      obtain ⟨rfl, rfl⟩ := List.cons.inj hplace
      rw [Nat.zero_add, hc]
      exact ih.1 hbelow
    · intro h
      obtain ⟨m, hm⟩ := Option.isSome_iff_exists.1 h
      obtain ⟨c, hc, hm⟩ := Option.bind_eq_some_iff.1 hm
      exact ⟨i, c, place, by rw [Nat.zero_add], hc, ih.2 (hm ▸ rfl)⟩

mutual

/-- A place comes before the places below it, and these before the places below later siblings. -/
theorem pairwise_places : (n : Node) → n.places.Pairwise (· < ·)
  | ⟨kind, location?, children⟩ => by
    refine List.pairwise_cons.2 ⟨fun place hplace => ?_, pairwise_placesAll 0 children⟩
    obtain ⟨k, c, below, rfl, _⟩ := mem_placesAll_iff.1 hplace
    exact List.nil_lt_cons ..

/-- The places below earlier siblings come first, since their first steps are smaller. -/
theorem pairwise_placesAll (i : Nat) : (ns : List Node) → (placesAll i ns).Pairwise (· < ·)
  | [] => .nil
  | n :: ns => by
    rw [placesAll_cons]
    refine List.pairwise_append.2 ⟨?_, pairwise_placesAll (i + 1) ns, ?_⟩
    · exact List.pairwise_map.2 ((pairwise_places n).imp fun hlt => List.cons_lt_cons_self.2 hlt)
    · intro p hp q hq
      obtain ⟨below, _, rfl⟩ := List.mem_map.1 hp
      obtain ⟨k, c, later, rfl, _⟩ := mem_placesAll_iff.1 hq
      exact List.cons_lt_cons_iff.2 (Or.inl (by omega))

end

mutual

/-- The places lead to the nodes in the order of the text. -/
theorem map_at?_places : (n : Node) → n.places.map n.at? = n.nodes.map some
  | ⟨kind, location?, children⟩ => by
    have hbelow := map_placesAll (at? ⟨kind, location?, children⟩) 0 children
      fun k c hc place => by
        show (children[0 + k]?.bind fun child => child.at? place) = c.at? place
        rw [Nat.zero_add, hc]
        rfl
    rw [places_eq, nodes_eq, List.map_cons, List.map_cons, hbelow]
    rfl

/-- The same for the children of a node: `node?` stands for what finds a node from above, and all
that counts is that it finds each child under its number. -/
theorem map_placesAll (node? : List Nat → Option Node) (i : Nat) : (ns : List Node) →
    (∀ (k : Nat) c, ns[k]? = some c → ∀ place, node? ((i + k) :: place) = c.at? place) →
      (placesAll i ns).map node? = (nodesAll ns).map some
  | [], _ => rfl
  | n :: ns, h => by
    have hfirst : node? ∘ (i :: ·) = n.at? := funext (h 0 n rfl)
    have hrest := map_placesAll node? (i + 1) ns fun k c hc place => by
      rw [Nat.add_right_comm, Nat.add_assoc]
      exact h (k + 1) c hc place
    rw [placesAll_cons, nodesAll_cons, List.map_append, List.map_append, List.map_map, hfirst,
      map_at?_places n, hrest]

end

/-- The list goes through a tree in the order of the text: through all places that lead to a node,
in their lexicographic order and so through each of them once. -/
def ListsEachOnce (n : Node) (ns : List Node) : Prop :=
  ∃ places : List (List Nat), places.Pairwise (· < ·) ∧
    (∀ place, place ∈ places ↔ (n.at? place).isSome) ∧ places.map n.at? = ns.map some

/-- The walk has the order of the text. -/
theorem listsEachOnce_preorder (n : Node) : n.ListsEachOnce n.preorder :=
  ⟨n.places, pairwise_places n, fun _ => mem_places_iff, preorder_eq_nodes n ▸ map_at?_places n⟩

end Node

end IncludeAudit
