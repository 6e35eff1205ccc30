import Mathlib.Data.List.Induction

/-!
# Trees labelled by a hash of their children

A binary operation read as a hash of two children, the trees it labels, and the folds that climb
from a label to the root by absorbing one sibling at a time. `IsPairInjective` is collision
freedom for an operation that does not see the order of its operands, and `IsPairInjectiveOn` the
part of it that concerns one tree.

The two directions between nodes and climbs are of different kinds. That every node has a climb
is an induction on the tree, and needs only that the operation is commutative. That nothing else
has one is an induction on the climb from the root end, and needs collision freedom at every
level and leaves that are not hashes themselves.

## Which assumption on the hash

A hash into a finite type has collisions, so a theorem that assumes it to be injective would be
about no hash at all. What a proof of membership needs is less: that no second pair is hashed to one
of the labels of the tree in question, and that a leaf is not itself the hash of a pair.
`IsPairInjectiveOn` says the first of this, as a recursion on the tree, and it may well be true of
an operation that has collisions elsewhere.

The second one is not a technicality. Without it the label of an inner node could be a leaf as well,
and the path to it be one that is too short.

## Shapes

A `Tree` has any shape, and its leaves need not be on one level. Climbs are of any length, so that
the statement about what can be climbed to the root is about all nodes, inner ones included, and a
caller that is interested in leaves has to say how it tells them apart.
-/

namespace HashTree

variable {α : Type*} {hash : α → α → α}

/-- Absorb the siblings one after the other, starting from `x`. -/
def climb (hash : α → α → α) (x : α) (siblings : List α) : α := siblings.foldl hash x

@[simp] theorem climb_nil (x : α) : climb hash x [] = x := rfl

@[simp] theorem climb_cons (x s : α) (siblings : List α) :
    climb hash x (s :: siblings) = climb hash (hash x s) siblings := rfl

@[simp] theorem climb_append (x : α) (p q : List α) :
    climb hash x (p ++ q) = climb hash (climb hash x p) q :=
  List.foldl_append

/-- `x` can be climbed from to `r`. -/
def Climbs (hash : α → α → α) (x r : α) : Prop := ∃ siblings, climb hash x siblings = r

theorem Climbs.refl (x : α) : Climbs hash x x := ⟨[], rfl⟩

/-- One more sibling below. -/
theorem Climbs.cons {x s r : α} (h : Climbs hash (hash x s) r) : Climbs hash x r := by
  obtain ⟨p, hp⟩ := h
  exact ⟨s :: p, hp⟩

/-- One more sibling above. -/
theorem Climbs.snoc {x s r : α} (h : Climbs hash x r) : Climbs hash x (hash r s) := by
  obtain ⟨p, rfl⟩ := h
  exact ⟨p ++ [s], by simp⟩

/-! ### Trees

Labels are computed from the leaves upwards. A climb goes the same way, along one path. -/

/-- A binary tree of any shape, with its leaves labelled. -/
inductive Tree (α : Type*)
  | leaf (a : α)
  | node (l r : Tree α)

namespace Tree

/-- The label of the root: an inner node is labelled by the hash of its children's labels. -/
def label (hash : α → α → α) : Tree α → α
  | leaf a => a
  | node l r => hash (l.label hash) (r.label hash)

/-- The labels of all nodes, inner ones included. -/
def labels (hash : α → α → α) : Tree α → List α
  | leaf a => [a]
  | node l r => hash (l.label hash) (r.label hash) :: (l.labels hash ++ r.labels hash)

/-- The labels of the leaves. -/
def leaves : Tree α → List α
  | leaf a => [a]
  | node l r => l.leaves ++ r.leaves

theorem label_mem_labels (t : Tree α) : t.label hash ∈ t.labels hash := by
  cases t <;> simp [label, labels]

end Tree

/-- Every node of a tree can be climbed from to the root. -/
theorem climbs_of_mem_labels (hcomm : ∀ a b, hash a b = hash b a) {t : Tree α} {x : α}
    (hx : x ∈ t.labels hash) : Climbs hash x (t.label hash) := by
  induction t with
  | leaf a =>
    rw [Tree.labels, List.mem_singleton] at hx
    exact hx ▸ Climbs.refl x
  | node l r ihl ihr =>
    rw [Tree.labels, List.mem_cons, List.mem_append] at hx
    rcases hx with rfl | hl | hr
    · exact Climbs.refl _
    · exact (ihl hl).snoc
    · rw [Tree.label, hcomm]
      exact (ihr hr).snoc

/-! ### Collision freedom

The condition on one tree is all that is used. It follows from the one on the whole operation, which
no operation on a finite type of two or more elements meets. -/

/-- The operation tells unordered pairs apart. -/
def IsPairInjective (hash : α → α → α) : Prop :=
  ∀ a b c d, hash a b = hash c d → a = c ∧ b = d ∨ a = d ∧ b = c

/-- The operation tells the children of every inner node of a tree apart from any other pair.
An operation on a finite type has collisions, but it may well satisfy this for a given tree. -/
def IsPairInjectiveOn (hash : α → α → α) : Tree α → Prop
  | .leaf _ => True
  | .node l r =>
    (∀ a b, hash a b = hash (l.label hash) (r.label hash) →
      a = l.label hash ∧ b = r.label hash ∨ a = r.label hash ∧ b = l.label hash) ∧
    IsPairInjectiveOn hash l ∧ IsPairInjectiveOn hash r

theorem IsPairInjective.on (h : IsPairInjective hash) (t : Tree α) : IsPairInjectiveOn hash t := by
  induction t with
  | leaf a => trivial
  | node l r ihl ihr => exact ⟨fun a b => h a b _ _, ihl, ihr⟩

/-- **Nothing outside a tree can be climbed from to its root.** The induction is on the climb from
its last step, since it is the last hash that is known to be the label of the root. -/
theorem mem_labels_of_climb (x : α) (siblings : List α) :
    ∀ t : Tree α, IsPairInjectiveOn hash t → (∀ a ∈ t.leaves, ∀ b c, hash b c ≠ a) →
      climb hash x siblings = t.label hash → x ∈ t.labels hash := by
  induction siblings using List.reverseRecOn with
  | nil =>
    intro t _ _ hx
    rw [climb_nil] at hx
    exact hx ▸ t.label_mem_labels
  | append_singleton p s ih =>
    intro t hinj hleaf hx
    rw [climb_append, climb_cons, climb_nil] at hx
    cases t with
    | leaf a => exact absurd hx (hleaf a (by simp [Tree.leaves]) _ _)
    | node l r =>
      obtain ⟨hpair, hinjl, hinjr⟩ := hinj
      have hl : ∀ a ∈ l.leaves, ∀ b c, hash b c ≠ a := fun a ha =>
        hleaf a (List.mem_append_left _ ha)
      have hr : ∀ a ∈ r.leaves, ∀ b c, hash b c ≠ a := fun a ha =>
        hleaf a (List.mem_append_right _ ha)
      rw [Tree.labels, List.mem_cons, List.mem_append]
      rcases hpair _ _ hx with ⟨hxl, -⟩ | ⟨hxr, -⟩
      · exact Or.inr (Or.inl (ih l hinjl hl hxl))
      · exact Or.inr (Or.inr (ih r hinjr hr hxr))

end HashTree
