import ContractsStylus.Library.HashTree
import Mathlib.Algebra.BigOperators.Group.List.Basic
import Mathlib.Algebra.Order.BigOperators.Group.List
import Mathlib.Data.Bool.Count

/-!
# Rebuilding a root with a queue

A queue of labels and a list of supplied siblings. Each step takes a label from the front of the
queue, hashes it with the next one of the queue or with the next supplied sibling, as a flag
says, and puts the hash at the back. `consumeAll` runs a list of flags.

Two facts are wanted. A run that ends with a single label has connected every label it started
from to that one (`consumeAll_climbs`). And for a complete tree stored in heap order there is a
run that ends with the root, starting from any set of leaves: `multiProof` lays it out, keeping
the indices of the queue in descending order, so that a node's sibling, if it is known at all, is
the very next in the queue (`CompleteTree.consumeAll_multiProof`).

## Heap order

Node `0` is the root and the children of node `i` are `2 * i + 1` and `2 * i + 2`, so that a tree
with `n` leaves is an array of `2 * n - 1` labels, and its leaves are at its end. Nothing requires
`n` to be a power of two. The leaves may then be on two levels, and a queue of them is not on one
level either; in descending order of indices it is nevertheless processed level by level.

`IsFrontier` is the invariant of this process. The queue descends, and all of it is above the
parent of its first element, which is where that element goes: to the back. It follows that the
sibling of the first element can only be the second one, and that is all that a flag can express.

## The two halves of the argument

That a proof exists is about a particular run, the one that `layOut` describes, and the induction is
on a bound for the sum of the indices in the queue. That a run connects labels to its last one is
about any run, and the induction is on the flags, with no tree in sight. They meet in `consume`, and
nowhere else.

`multiProof` is not the code of any library: it is how a proof can be made, so as to show that there
is one.
-/

namespace HashQueue

open HashTree

variable {α : Type*} {hash : α → α → α}

/-- One step: the state is the queue and the supplied siblings that are left. -/
def consume (hash : α → α → α) : Bool → List α × List α → Option (List α × List α)
  | true, (a :: b :: queue, proof) => some (queue ++ [hash a b], proof)
  | false, (a :: queue, b :: proof) => some (queue ++ [hash a b], proof)
  | _, _ => none

/-- A run over a list of flags. -/
def consumeAll (hash : α → α → α) : List Bool → List α × List α → Option (List α × List α)
  | [], s => some s
  | flag :: flags, s => (consume hash flag s).bind (consumeAll hash flags)

/-- What a successful step has consumed. -/
theorem consume_cases {flag : Bool} {s s' : List α × List α} (h : consume hash flag s = some s') :
    (∃ a b queue proof, flag = true ∧ s = (a :: b :: queue, proof) ∧
      s' = (queue ++ [hash a b], proof)) ∨
    ∃ a b queue proof, flag = false ∧ s = (a :: queue, b :: proof) ∧
      s' = (queue ++ [hash a b], proof) := by
  revert h
  fun_cases consume hash flag s with
  | case1 a b queue proof =>
    intro h
    exact Or.inl ⟨a, b, queue, proof, rfl, rfl, by simpa using h.symm⟩
  | case2 a queue b proof =>
    intro h
    exact Or.inr ⟨a, b, queue, proof, rfl, rfl, by simpa using h.symm⟩
  | case3 => exact nofun

/-- A queue shrinks by one for each `true`, the supplied siblings by one for each `false`. -/
theorem consumeAll_length {flags : List Bool} : ∀ {s s' : List α × List α},
    consumeAll hash flags s = some s' →
      s.1.length = s'.1.length + flags.count true ∧
        s.2.length = s'.2.length + flags.count false := by
  induction flags with
  | nil => rintro s s' ⟨⟩; simp
  | cons flag flags ih =>
    intro s s' h
    obtain ⟨t, ht, hrest⟩ := Option.bind_eq_some_iff.mp h
    obtain ⟨hq, hp⟩ := ih hrest
    rcases consume_cases ht with ⟨a, b, queue, proof, rfl, rfl, rfl⟩ |
        ⟨a, b, queue, proof, rfl, rfl, rfl⟩ <;>
      · simp only [List.length_append, List.length_cons, List.length_nil] at hq hp ⊢
        simp only [List.count_cons]
        constructor <;> simp <;> omega

/-- A run that took at least one step leaves a label in the queue. -/
theorem consumeAll_ne_nil {flags : List Bool} : ∀ {s s' : List α × List α}, s.1 ≠ [] →
    consumeAll hash flags s = some s' → s'.1 ≠ [] := by
  induction flags with
  | nil => rintro s s' hs ⟨⟩; exact hs
  | cons flag flags ih =>
    intro s s' _ h
    obtain ⟨t, ht, hrest⟩ := Option.bind_eq_some_iff.mp h
    refine ih ?_ hrest
    rcases consume_cases ht with ⟨a, b, queue, proof, rfl, rfl, rfl⟩ |
      ⟨a, b, queue, proof, rfl, rfl, rfl⟩ <;> simp

/-- A run with one operand more than flags consumes everything but one label. -/
theorem consumeAll_exhausts {flags : List Bool} {s s' : List α × List α} (hne : s.1 ≠ [])
    (hlen : s.1.length + s.2.length = flags.length + 1) (h : consumeAll hash flags s = some s') :
    ∃ r, s' = ([r], []) := by
  obtain ⟨hqueue, hproof⟩ := consumeAll_length h
  have hflags : flags.count true + flags.count false = flags.length :=
    List.count_true_add_count_false flags
  have hpos : 0 < s'.1.length := List.length_pos_of_ne_nil (consumeAll_ne_nil hne h)
  obtain ⟨r, hr⟩ := List.length_eq_one_iff.mp (show s'.1.length = 1 by omega)
  exact ⟨r, Prod.ext hr (List.length_eq_zero_iff.mp (by omega))⟩

/-- **A run that ends with one label connects every label of the queue to it.** The induction is
on the flags, and the label of interest is followed to the hash it goes into. -/
theorem consumeAll_climbs (hcomm : ∀ a b, hash a b = hash b a) {flags : List Bool} :
    ∀ {s : List α × List α} {r : α} {proof' : List α},
      consumeAll hash flags s = some ([r], proof') → ∀ x ∈ s.1, Climbs hash x r := by
  induction flags with
  | nil =>
    rintro s r proof' ⟨⟩ x hx
    rw [List.mem_singleton] at hx
    exact hx ▸ Climbs.refl x
  | cons flag flags ih =>
    intro s r proof' h x hx
    obtain ⟨t, ht, hrest⟩ := Option.bind_eq_some_iff.mp h
    rcases consume_cases ht with ⟨a, b, queue, proof, rfl, rfl, rfl⟩ |
      ⟨a, b, queue, proof, rfl, rfl, rfl⟩
    · have hab : Climbs hash (hash a b) r := ih hrest _ (by simp)
      rcases List.mem_cons.mp hx with rfl | hx
      · exact hab.cons
      rcases List.mem_cons.mp hx with rfl | hx
      · rw [hcomm] at hab
        exact hab.cons
      · exact ih hrest x (List.mem_append_left _ hx)
    · have hab : Climbs hash (hash a b) r := ih hrest _ (by simp)
      rcases List.mem_cons.mp hx with rfl | hx
      · exact hab.cons
      · exact ih hrest x (List.mem_append_left _ hx)

/-- With no flag set, the run climbs along the supplied siblings. -/
theorem consumeAll_replicate_false (x : α) (proof : List α) :
    consumeAll hash (List.replicate proof.length false) ([x], proof) =
      some ([climb hash x proof], []) := by
  induction proof generalizing x with
  | nil => rfl
  | cons s proof ih =>
    rw [List.length_cons, List.replicate_succ, consumeAll, consume, Option.bind_some,
      List.nil_append, climb_cons]
    exact ih (hash x s)

/-! ### A queue in a list

A queue kept as a list that only grows, with a position in it. -/

/-- A push at the back, seen from a position that has moved on. -/
theorem drop_concat {l : List α} {i : ℕ} {a : α} (ha : l[i]? = some a) (h : α) :
    (l ++ [h]).drop (i + 1) = l.drop (i + 1) ++ [h] := by
  obtain ⟨hlt, -⟩ := List.getElem?_eq_some_iff.mp ha
  exact List.drop_append_of_le_length (by omega)

theorem drop_of_getElem? {l : List α} {i : ℕ} {a : α} (ha : l[i]? = some a) :
    l.drop i = a :: l.drop (i + 1) := by
  obtain ⟨hlt, rfl⟩ := List.getElem?_eq_some_iff.mp ha
  exact List.drop_eq_getElem_cons hlt

/-- What is left in the queue is what was pushed last. -/
theorem getElem?_of_drop_eq_singleton {l : List α} {i : ℕ} {r : α} (h : l.drop i = [r]) :
    l[l.length - 1]? = some r := by
  have hlen := congrArg List.length h
  rw [List.length_drop, List.length_singleton] at hlen
  rw [show l.length - 1 = i + 0 by omega, ← List.getElem?_drop, h]
  rfl

/-! ### Complete trees in heap order -/

/-- The node that shares a parent with node `j`. -/
def siblingIndex (j : ℕ) : ℕ := if j % 2 = 1 then j + 1 else j - 1

/-- The parent of node `j`. -/
def parentIndex (j : ℕ) : ℕ := (j - 1) / 2

/-- The level-order layout of a proof for the nodes of the queue: the siblings to be supplied and
the flags. The recursion is bounded by the sum of the indices, which falls in every step. -/
def layOut (node : ℕ → α) : ℕ → List ℕ → List α × List Bool
  | 0, _ => ([], [])
  | _ + 1, [] => ([], [])
  | _ + 1, 0 :: _ => ([], [])
  | fuel + 1, j :: queue =>
    if queue.head? = some (siblingIndex j) then
      let rest := layOut node fuel (queue.tail ++ [parentIndex j])
      (rest.1, true :: rest.2)
    else
      let rest := layOut node fuel (queue ++ [parentIndex j])
      (node (siblingIndex j) :: rest.1, false :: rest.2)

/-- The queues that the layout goes through: descending, with everything above the parent of the
first, and inside the tree. -/
structure IsFrontier (n : ℕ) (queue : List ℕ) : Prop where
  descending : queue.Pairwise (· > ·)
  above : ∀ j ∈ queue.head?, ∀ i ∈ queue, 0 < j → parentIndex j < i
  inside : ∀ i ∈ queue, i + 1 < 2 * n

/-- A set of leaves, listed downwards, is a frontier. -/
theorem IsFrontier.of_leaves {n : ℕ} {indices : List ℕ} (hdesc : indices.Pairwise (· > ·))
    (hleaf : ∀ i ∈ indices, n ≤ i + 1 ∧ i + 1 < 2 * n) : IsFrontier n indices where
  descending := hdesc
  above := by
    intro j hj i hi hpos
    have := hleaf i hi
    have := hleaf j (List.mem_of_mem_head? hj)
    rw [parentIndex]
    omega
  inside i hi := (hleaf i hi).2

/-- A frontier whose first index is the root is the root alone. -/
theorem IsFrontier.eq_nil {n : ℕ} {queue : List ℕ} (h : IsFrontier n (0 :: queue)) :
    queue = [] := by
  cases queue with
  | nil => rfl
  | cons i queue =>
    have := (List.pairwise_cons.mp h.descending).1 i (by simp)
    omega

/-- Replacing the front of a frontier by the parent, behind everything that is left, gives a
frontier again, provided that the sibling is not left. -/
theorem IsFrontier.push_parent {n j : ℕ} {queue rest : List ℕ} (h : IsFrontier n (j :: queue))
    (hpos : 0 < j) (hsub : rest.Sublist queue) (hsib : siblingIndex j ∉ rest) :
    IsFrontier n (rest ++ [parentIndex j]) := by
  obtain ⟨hlt, hdesc⟩ := List.pairwise_cons.mp h.descending
  have habove : ∀ i ∈ rest, parentIndex j < i := fun i hi =>
    h.above j rfl i (List.mem_cons_of_mem _ (hsub.subset hi)) hpos
  refine ⟨?_, ?_, ?_⟩
  · refine List.pairwise_append.mpr ⟨hdesc.sublist hsub, List.pairwise_singleton _ _, ?_⟩
    intro i hi p hp
    rw [List.mem_singleton.mp hp]
    exact habove i hi
  · intro k hk i hi hkpos
    have hparent : parentIndex k < parentIndex j ∨ rest = [] := by
      cases rest with
      | nil => exact Or.inr rfl
      | cons m rest =>
        left
        obtain rfl : m = k := by simpa using hk
        have hmj := hlt m (hsub.subset (by simp))
        have hms : m ≠ siblingIndex j := fun he => hsib (he ▸ by simp)
        rw [siblingIndex] at hms
        simp only [parentIndex]
        split at hms <;> omega
    rcases hparent with hparent | rfl
    · rcases List.mem_append.mp hi with hi | hi
      · exact Nat.lt_trans hparent (habove i hi)
      · rw [List.mem_singleton.mp hi]
        exact hparent
    · obtain rfl : parentIndex j = k := by simpa using hk
      obtain rfl : i = parentIndex j := by simpa using hi
      rw [parentIndex] at hkpos ⊢
      rw [parentIndex]
      omega
  · intro i hi
    rcases List.mem_append.mp hi with hi | hi
    · exact h.inside i (List.mem_cons_of_mem _ (hsub.subset hi))
    · rw [List.mem_singleton.mp hi, parentIndex]
      have := h.inside j (by simp)
      omega

/-- A known sibling is the very next: it would be the largest index below `j` of the same parent. -/
theorem IsFrontier.sibling_not_mem {n j : ℕ} {queue : List ℕ} (h : IsFrontier n (j :: queue))
    (hhead : queue.head? ≠ some (siblingIndex j)) : siblingIndex j ∉ queue := by
  intro hmem
  obtain ⟨hlt, hdesc⟩ := List.pairwise_cons.mp h.descending
  cases queue with
  | nil => simp at hmem
  | cons k rest =>
    have hk := hlt k (by simp)
    have hs := hlt _ hmem
    rcases List.mem_cons.mp hmem with he | hmem
    · exact hhead (by simp [he])
    · have hsk := (List.pairwise_cons.mp hdesc).1 _ hmem
      rw [siblingIndex] at hsk hs
      split at hsk <;> omega

/-- It is there only once. -/
theorem IsFrontier.sibling_not_mem_tail {n j : ℕ} {rest : List ℕ}
    (h : IsFrontier n (j :: siblingIndex j :: rest)) : siblingIndex j ∉ rest := by
  intro hmem
  obtain ⟨-, hdesc⟩ := List.pairwise_cons.mp h.descending
  exact Nat.lt_irrefl _ ((List.pairwise_cons.mp hdesc).1 _ hmem)

/-- The indices become smaller on the way up. -/
theorem sum_push_parent {j : ℕ} {queue rest : List ℕ} (hpos : 0 < j) (hsub : rest.Sublist queue) :
    (rest ++ [parentIndex j]).sum < (j :: queue).sum := by
  have hrest : rest.sum ≤ queue.sum := hsub.sum_le_sum fun _ _ => Nat.zero_le _
  have hparent : parentIndex j < j := by
    rw [parentIndex]
    omega
  rw [List.sum_append, List.sum_singleton, List.sum_cons]
  omega

/-- A node and its sibling hash to their parent. -/
theorem hash_sibling {n j : ℕ} {node : ℕ → α} (hcomm : ∀ a b, hash a b = hash b a)
    (hnode : ∀ i, i + 1 < n → node i = hash (node (2 * i + 1)) (node (2 * i + 2)))
    (hpos : 0 < j) (hj : j + 1 < 2 * n) :
    hash (node j) (node (siblingIndex j)) = node (parentIndex j) := by
  rw [hnode (parentIndex j) (by rw [parentIndex]; omega), siblingIndex]
  split
  · rw [show 2 * parentIndex j + 1 = j by rw [parentIndex]; omega,
      show 2 * parentIndex j + 2 = j + 1 by rw [parentIndex]; omega]
  · rw [hcomm, show 2 * parentIndex j + 1 = j - 1 by rw [parentIndex]; omega,
      show 2 * parentIndex j + 2 = j by rw [parentIndex]; omega]

/-- **The layout rebuilds the root**, from any frontier. -/
theorem consumeAll_layOut {n : ℕ} {node : ℕ → α} (hcomm : ∀ a b, hash a b = hash b a)
    (hnode : ∀ i, i + 1 < n → node i = hash (node (2 * i + 1)) (node (2 * i + 2))) :
    ∀ (fuel : ℕ) (queue : List ℕ), queue ≠ [] → IsFrontier n queue → queue.sum ≤ fuel →
      consumeAll hash (layOut node fuel queue).2 (queue.map node, (layOut node fuel queue).1) =
        some ([node 0], []) := by
  intro fuel
  induction fuel with
  | zero =>
    intro queue hne hfront hsum
    obtain ⟨j, queue, rfl⟩ := List.exists_cons_of_ne_nil hne
    obtain rfl : j = 0 := by simp only [List.sum_cons] at hsum; omega
    rw [hfront.eq_nil]
    rfl
  | succ fuel ih =>
    intro queue hne hfront hsum
    obtain ⟨j, queue, rfl⟩ := List.exists_cons_of_ne_nil hne
    rcases Nat.eq_zero_or_pos j with rfl | hpos
    · rw [hfront.eq_nil]
      rfl
    have hparent := hash_sibling hcomm hnode hpos (hfront.inside j (by simp))
    have hrun (rest : List ℕ) (hsub : rest.Sublist queue) (hsib : siblingIndex j ∉ rest) :
        consumeAll hash (layOut node fuel (rest ++ [parentIndex j])).2
          (rest.map node ++ [node (parentIndex j)],
            (layOut node fuel (rest ++ [parentIndex j])).1) = some ([node 0], []) := by
      have hsmaller := sum_push_parent hpos hsub
      have h := ih (rest ++ [parentIndex j]) (by simp) (hfront.push_parent hpos hsub hsib)
        (by omega)
      rw [List.map_append, List.map_singleton] at h
      exact h
    rw [layOut.eq_4 _ _ _ _ fun h => hpos.ne' h]
    split
    · -- the sibling is known, and next in the queue
      rename_i hhead
      obtain ⟨rest, rfl⟩ : ∃ rest, queue = siblingIndex j :: rest :=
        ⟨queue.tail, (List.cons_head?_tail hhead).symm⟩
      simp only [List.tail_cons, List.map_cons, consumeAll, consume, Option.bind_some, hparent]
      exact hrun rest (List.sublist_cons_self ..) hfront.sibling_not_mem_tail
    · -- the sibling has to be supplied
      rename_i hhead
      simp only [List.map_cons, consumeAll, consume, Option.bind_some, hparent]
      exact hrun queue (List.Sublist.refl _) (hfront.sibling_not_mem hhead)

/-- A complete binary tree with `n` leaves in heap order: node `0` is the root, the children of
node `i` are `2 * i + 1` and `2 * i + 2`, and the leaves are the last `n` of the `2 * n - 1`
nodes. -/
structure CompleteTree (hash : α → α → α) where
  /-- The number of leaves. -/
  n : ℕ
  one_le : 1 ≤ n
  /-- The label of each node. -/
  node : ℕ → α
  node_eq : ∀ i, i + 1 < n → node i = hash (node (2 * i + 1)) (node (2 * i + 2))

namespace CompleteTree

/-- The label of the root. -/
def root (t : CompleteTree hash) : α := t.node 0

/-- The indices of the leaves. -/
def IsLeaf (t : CompleteTree hash) (i : ℕ) : Prop := t.n ≤ i + 1 ∧ i + 1 < 2 * t.n

/-- The proof and the flags for the nodes with the given indices. -/
def multiProof (t : CompleteTree hash) (indices : List ℕ) : List α × List Bool :=
  layOut t.node indices.sum indices

/-- **Every non-empty set of leaves has a proof.** -/
theorem consumeAll_multiProof (hcomm : ∀ a b, hash a b = hash b a) (t : CompleteTree hash)
    {indices : List ℕ} (hne : indices ≠ []) (hdesc : indices.Pairwise (· > ·))
    (hleaf : ∀ i ∈ indices, t.IsLeaf i) :
    consumeAll hash (t.multiProof indices).2 (indices.map t.node, (t.multiProof indices).1) =
      some ([t.root], []) :=
  consumeAll_layOut hcomm t.node_eq _ _ hne (IsFrontier.of_leaves hdesc hleaf) (Nat.le_refl _)

end CompleteTree

end HashQueue
