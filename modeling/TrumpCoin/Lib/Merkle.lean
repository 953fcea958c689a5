import Mathlib.Algebra.Order.Ring.Nat
import Mathlib.Data.List.Forall2
import Mathlib.Tactic.Common

/-!
# Complete binary hash trees

The complete tree of depth `d` has `2 ^ d` leaves. Its first leaves are given and the others are the empty leaf; a node
combines its two children and the depth of their trees.

* `treeRoot_append`, `treeRoot_left`: the two halves of a tree;
* `blockRoots`: the roots of subtrees of given depths, of which each takes its leaves from what the ones before it have
  left; `blockRoots_flatten` for subtrees that are full.
-/

namespace Lib.Merkle

variable {α : Type} (combine : α → α → Nat → α) (empty : α)

/-- The root of the tree of depth `d` whose first leaves are given. -/
def treeRoot : Nat → List α → α
  | 0, leaves => leaves.headD empty
  | d + 1, leaves => combine (treeRoot d (leaves.take (2 ^ d))) (treeRoot d (leaves.drop (2 ^ d))) d

def emptyTree : Nat → α
  | 0 => empty
  | d + 1 => combine (emptyTree d) (emptyTree d) d

variable {combine empty}

@[simp] theorem treeRoot_nil : ∀ d, treeRoot combine empty d [] = emptyTree combine empty d
  | 0 => rfl
  | d + 1 => by rw [treeRoot, List.take_nil, List.drop_nil, treeRoot_nil d, emptyTree]

variable {d : Nat} {slots : List Nat}

theorem treeRoot_left {l : List α} (h : l.length ≤ 2 ^ d) :
    treeRoot combine empty (d + 1) l = combine (treeRoot combine empty d l) (emptyTree combine empty d) d := by
  rw [treeRoot, List.take_of_length_le h, List.drop_of_length_le h, treeRoot_nil]

theorem treeRoot_append {l r : List α} (h : l.length = 2 ^ d) :
    treeRoot combine empty (d + 1) (l ++ r) =
      combine (treeRoot combine empty d l) (treeRoot combine empty d r) d := by
  rw [treeRoot, List.take_left' h, List.drop_left' h]

/-! ## Subtrees filled one after the other -/

variable (combine empty) in
/-- The roots of subtrees of the given depths, over leaves that they take in order; a subtree to which no leaf is left is
not listed. -/
def blockRoots : List Nat → List α → List α
  | _, [] => []
  | [], _ :: _ => []
  | s :: slots, x :: l =>
    treeRoot combine empty s ((x :: l).take (2 ^ s)) :: blockRoots slots ((x :: l).drop (2 ^ s))

@[simp] theorem blockRoots_nil_right (slots : List Nat) : blockRoots combine empty slots [] = [] := by
  cases slots <;> rfl

theorem blockRoots_cons {s : Nat} {l : List α} (h : l ≠ []) :
    blockRoots combine empty (s :: slots) l =
      treeRoot combine empty s (l.take (2 ^ s)) :: blockRoots combine empty slots (l.drop (2 ^ s)) := by
  obtain ⟨x, l, rfl⟩ := List.exists_cons_of_ne_nil h
  rfl

/-- The blocks of leaves fill the subtrees. -/
abbrev Fill (slots : List Nat) (blocks : List (List α)) : Prop := List.Forall₂ (fun s b => b.length = 2 ^ s) slots blocks

theorem Fill.ne_nil {s : Nat} {b : List α} (h : b.length = 2 ^ s) : b ≠ [] := by
  rintro rfl
  have : 0 < 2 ^ s := Nat.two_pow_pos s
  rw [List.length_nil] at h
  omega

/-- Full subtrees come first; what is left goes to the subtrees after them. -/
theorem blockRoots_flatten {slots rest : List Nat} {blocks : List (List α)} (h : Fill slots blocks) (l : List α) :
    blockRoots combine empty (slots ++ rest) (blocks.flatten ++ l) =
      List.zipWith (treeRoot combine empty) slots blocks ++ blockRoots combine empty rest l := by
  induction h with
  | nil => rfl
  | cons hb _ ih =>
    rename_i s b slots blocks
    rw [List.flatten_cons, List.cons_append, List.append_assoc,
      blockRoots_cons (List.append_ne_nil_of_left_ne_nil (Fill.ne_nil hb) _), List.take_left' hb, List.drop_left' hb, ih]
    rfl

theorem Fill.length_flatten {blocks : List (List α)} (h : Fill slots blocks) :
    blocks.flatten.length = (slots.map (2 ^ ·)).sum := by
  induction h with
  | nil => rfl
  | cons hb _ ih => rw [List.flatten_cons, List.length_append, hb, ih, List.map_cons, List.sum_cons]

/-- Subtrees of growing depths, from `d` on, have at least as many leaves as a tree of their number would. -/
theorem pow_length_le_sum (hsorted : slots.Pairwise (· < ·)) (hge : ∀ s ∈ slots, d ≤ s) :
    2 ^ (d + slots.length) ≤ 2 ^ d + (slots.map (2 ^ ·)).sum := by
  induction slots generalizing d with
  | nil => exact Nat.le_refl _
  | cons s slots ih =>
    obtain ⟨hlt, hsorted⟩ := List.pairwise_cons.mp hsorted
    have hds : d ≤ s := hge s List.mem_cons_self
    have hrest := ih (d := d + 1) hsorted fun t ht => Nat.lt_of_le_of_lt hds (hlt t ht)
    have hpow : 2 ^ d ≤ 2 ^ s := Nat.pow_le_pow_right (by decide) hds
    have hexp : d + (slots.length + 1) = d + 1 + slots.length := by omega
    rw [Nat.pow_succ] at hrest
    rw [List.length_cons, List.map_cons, List.sum_cons, hexp]
    omega

end Lib.Merkle
