import TrumpCoin.Consensus
import TrumpCoin.Lib.Merkle

/-!
# The incremental commitment tree

`IncrementalMerkleTree` of `sapling/incrementalmerkletree.h`, over an abstract hash. The tree keeps the last one or two
leaves and the roots of the full subtrees to the left of them; whatever is to the right of a node is filled in when the
root is computed, from a queue of given subtrees and then from the roots of empty ones.

* `Represents`: the leaves of a tree;
* `Represents.append`, `Represents.isComplete_iff`: the carries of `append`, and when it throws;
* `Represents.root`: the root, with the subtrees to the right filled in, is that of the complete tree;
* `Represents.roundTrip`: the tree is read back as it was written.
-/

namespace TrumpCoin

open Lib Merkle

/-- The static functions of the class `Hash`. -/
structure MerkleHash where
  combine : uint256 → uint256 → Nat → uint256
  /-- `EmptyRoot`, at zero the uncommitted leaf -/
  emptyRoot : Nat → uint256
  emptyRoot_succ : ∀ d, emptyRoot (d + 1) = combine (emptyRoot d) (emptyRoot d) d

namespace MerkleHash

variable (H : MerkleHash)

/-- The root of the complete tree of depth `d` with the given first leaves; the others are uncommitted. -/
abbrev rootOf (d : Nat) (leaves : List uint256) : uint256 := treeRoot H.combine (H.emptyRoot 0) d leaves

theorem emptyRoot_eq : ∀ d, H.emptyRoot d = emptyTree H.combine (H.emptyRoot 0) d
  | 0 => rfl
  | d + 1 => by rw [H.emptyRoot_succ, emptyTree, ← emptyRoot_eq d]

end MerkleHash

structure IncrementalMerkleTree where
  left : Option uint256 := none
  right : Option uint256 := none
  /-- collapsed left subtrees, towards the root -/
  parents : List (Option uint256) := []
deriving DecidableEq

def pathFillerNext (H : MerkleHash) (depth : Nat) : List uint256 → uint256 × List uint256
  | [] => (H.emptyRoot depth, [])
  | h :: queue => (h, queue)

/-- A value at the front of a stream, which fails if it ends too early or a size is too large. -/
def readStream {α : Type} (c : Codec α) (bs : Bytes) : Result (α × Bytes) :=
  match c.read bs with
  | some r => .ok r
  | none => .error (.exception "std::ios_base::failure")

namespace IncrementalMerkleTree

section Model

variable (H : MerkleHash) (Depth : Nat) (tree : IncrementalMerkleTree)

def wfcheck : Result Unit := do
  require (.exception "tree has too many parents") (tree.parents.length < Depth)
  require (.exception "tree has non-canonical representation of parent") (tree.parents.getLast? ≠ some none)
  require (.exception "tree has non-canonical representation; right should not exist")
    (¬(tree.left = none ∧ tree.right ≠ none))
  require (.exception "tree has non-canonical representation; parents should not be unempty")
    (¬(tree.left = none ∧ tree.parents ≠ []))

def last : Result uint256 :=
  match tree.right, tree.left with
  | some r, _ => .ok r
  | none, some l => .ok l
  | none, none => .error (.exception "tree has no cursor")

def isComplete (depth : Nat) : Bool :=
  tree.left.isSome && tree.right.isSome && tree.parents.length + 1 == depth && tree.parents.all Option.isSome

/-- The loop of `append`, from the index `i`: at most `n` parents are visited. -/
def carry (H : MerkleHash) : (n : Nat) → (i : Nat) → (combined : uint256) → List (Option uint256) →
    List (Option uint256)
  | 0, _, _, parents => parents
  | _ + 1, _, combined, [] => [some combined]
  | _ + 1, _, combined, none :: parents => some combined :: parents
  | n + 1, i, combined, some p :: parents => none :: carry H n (i + 1) (H.combine p combined (i + 1)) parents

def append (obj : uint256) : Result IncrementalMerkleTree :=
  if tree.isComplete Depth then .error (.exception "tree is full")
  else
    match tree.left, tree.right with
    | none, _ => .ok { tree with left := some obj }
    | some _, none => .ok { tree with right := some obj }
    | some l, some r => .ok ⟨some obj, none, carry H Depth 0 (H.combine l r 0) tree.parents⟩

/-- The last loop of `root`, over `n` levels from `d` on. -/
def fillLoop : (n : Nat) → (d : Nat) → (root : uint256) → List uint256 → uint256
  | 0, _, root, _ => root
  | n + 1, d, root, filler =>
    let (h, filler) := pathFillerNext H d filler
    fillLoop n (d + 1) (H.combine root h d) filler

/-- The loop of `root` over the parents from the level `d` on, and the one after it. -/
def rootLoop (depth : Nat) : List (Option uint256) → (d : Nat) → (root : uint256) → List uint256 → uint256
  | [], d, root, filler => fillLoop H (depth - d) d root filler
  | some p :: parents, d, root, filler => rootLoop depth parents (d + 1) (H.combine p root d) filler
  | none :: parents, d, root, filler =>
    let (h, filler) := pathFillerNext H d filler
    rootLoop depth parents (d + 1) (H.combine root h d) filler

/-- A leaf, or what the filler has for it. -/
def leafOr (leaf : Option uint256) (filler : List uint256) : uint256 × List uint256 :=
  match leaf with
  | some l => (l, filler)
  | none => pathFillerNext H 0 filler

def root (depth : Nat) (filler_hashes : List uint256) : uint256 :=
  let (combine_left, filler) := leafOr H tree.left filler_hashes
  let (combine_right, filler) := leafOr H tree.right filler
  rootLoop H depth tree.parents 1 (H.combine combine_left combine_right 0) filler

end Model

/-! ## The leaves of a tree -/

section Leaves

variable {H : MerkleHash}

variable (H) in
/-- Parents from the level `d` on: each one is the root of a full subtree, and the leaves of the higher ones come
first. -/
inductive Parents : Nat → List (Option uint256) → List uint256 → Prop
  | nil (d : Nat) : Parents d [] []
  | none {d : Nat} {parents : List (Option uint256)} {l : List uint256} (rest : Parents (d + 1) parents l) :
      Parents d (none :: parents) l
  | some {d : Nat} {parents : List (Option uint256)} {l b : List uint256} (full : b.length = 2 ^ d)
      (rest : Parents (d + 1) parents l) : Parents d (some (H.rootOf d b) :: parents) (l ++ b)

variable (H) in
inductive Represents : IncrementalMerkleTree → List uint256 → Prop
  | empty : Represents {} []
  | one {parents : List (Option uint256)} {l : List uint256} (x : uint256) (full : Parents H 1 parents l)
      (canonical : parents.getLast? ≠ some none) : Represents ⟨some x, none, parents⟩ (l ++ [x])
  | two {parents : List (Option uint256)} {l : List uint256} (x y : uint256) (full : Parents H 1 parents l)
      (canonical : parents.getLast? ≠ some none) : Represents ⟨some x, some y, parents⟩ (l ++ [x, y])

variable {parents : List (Option uint256)} {l : List uint256} {d : Nat}

/-! ## The number of leaves -/

/-- A binary number with a digit for each parent. -/
def parentsValue : List (Option uint256) → Nat
  | [] => 0
  | p :: parents => (if p.isSome then 1 else 0) + 2 * parentsValue parents

theorem Parents.length_eq (h : Parents H d parents l) : l.length = 2 ^ d * parentsValue parents := by
  induction h with
  | nil d => rfl
  | none rest ih =>
    rw [ih, parentsValue, Nat.pow_succ, if_neg (by simp), Nat.zero_add, Nat.mul_assoc]
  | some full rest ih =>
    rw [List.length_append, ih, full, parentsValue, if_pos Option.isSome_some, Nat.mul_add, Nat.mul_one, Nat.pow_succ,
      Nat.mul_assoc, Nat.add_comm]

theorem parentsValue_lt : ∀ parents : List (Option uint256), parentsValue parents < 2 ^ parents.length
  | [] => by simp [parentsValue]
  | p :: parents => by
    have ih := parentsValue_lt parents
    rw [parentsValue, List.length_cons, Nat.pow_succ]
    split <;> omega

theorem parentsValue_concat (p : uint256) : ∀ ps : List (Option uint256),
    parentsValue (ps ++ [some p]) = parentsValue ps + 2 ^ ps.length
  | [] => rfl
  | q :: ps => by
    rw [List.cons_append, parentsValue, parentsValue_concat, parentsValue, List.length_cons, Nat.pow_succ]
    omega

/-- The highest parent is the highest digit. -/
theorem le_parentsValue : ∀ {parents : List (Option uint256)}, parents ≠ [] → parents.getLast? ≠ some none →
    2 ^ parents.length ≤ 2 * parentsValue parents
  | [p], _, hlast => by
    cases p with
    | none => exact absurd rfl hlast
    | some p => simp [parentsValue]
  | p :: q :: parents, _, hlast => by
    rw [List.getLast?_cons_cons] at hlast
    have ih := le_parentsValue (List.cons_ne_nil q parents) hlast
    rw [parentsValue, List.length_cons, Nat.pow_succ]
    omega

theorem parentsValue_eq_iff : ∀ {parents : List (Option uint256)},
    parentsValue parents + 1 = 2 ^ parents.length ↔ parents.all Option.isSome = true
  | [] => by simp [parentsValue]
  | p :: parents => by
    have ih := @parentsValue_eq_iff parents
    rw [parentsValue, List.length_cons, Nat.pow_succ, List.all_cons, Bool.and_eq_true, ← ih]
    cases p with
    | none => simp; omega
    | some p => simp; omega

theorem parents_full_iff (hcan : parents.getLast? ≠ some none) (n : Nat) :
    parentsValue parents + 1 = 2 ^ n ↔ parents.length = n ∧ parents.all Option.isSome = true := by
  constructor
  · intro h
    have hlen : parents.length = n := by
      refine Nat.le_antisymm ?_ ?_
      · by_contra hgt
        have hpow : 2 ^ (n + 1) ≤ 2 ^ parents.length := Nat.pow_le_pow_right (by decide) (by omega)
        have hne : parents ≠ [] := by rintro rfl; simp at hgt
        have hle := le_parentsValue hne hcan
        rw [Nat.pow_succ] at hpow
        omega
      · by_contra hlt
        have hpow : 2 ^ (parents.length + 1) ≤ 2 ^ n := Nat.pow_le_pow_right (by decide) (by omega)
        have hlt' := parentsValue_lt parents
        rw [Nat.pow_succ] at hpow
        omega
    exact ⟨hlen, parentsValue_eq_iff.mp (hlen ▸ h)⟩
  · rintro ⟨rfl, hall⟩
    exact parentsValue_eq_iff.mpr hall

variable {tree : IncrementalMerkleTree} {leaves : List uint256}

theorem Represents.eq_empty (h : Represents H tree []) : tree = {} := by
  generalize hl : ([] : List uint256) = leaves at h
  cases h with
  | empty => rfl
  | one x full hcan => simp at hl
  | two x y full hcan => simp at hl

theorem Represents.isComplete_iff (h : Represents H tree leaves) {depth : Nat} (hd : 1 ≤ depth) :
    tree.isComplete depth = true ↔ leaves.length = 2 ^ depth := by
  obtain ⟨n, rfl⟩ : ∃ n, depth = n + 1 := ⟨depth - 1, by omega⟩
  have hpow : 0 < 2 ^ n := Nat.two_pow_pos n
  cases h with
  | empty =>
    simp only [isComplete, Option.isSome_none, Bool.false_and, List.length_nil]
    exact ⟨fun hfalse => (by cases hfalse), fun heq => by omega⟩
  | one x full hcan =>
    rw [List.length_append, full.length_eq, Nat.pow_succ]
    simp only [isComplete, Option.isSome_none, Bool.and_false, Bool.false_and, List.length_singleton]
    exact ⟨fun hfalse => (by cases hfalse), fun heq => by omega⟩
  | two x y full hcan =>
    rw [List.length_append, full.length_eq, Nat.pow_succ]
    simp only [isComplete, Option.isSome_some, Bool.true_and, Bool.and_eq_true, beq_iff_eq, Nat.add_right_cancel_iff]
    rw [← parents_full_iff hcan n]
    simp only [List.length_cons, List.length_nil]
    omega

theorem Represents.length_parents (h : Represents H tree leaves) {depth : Nat} (hd : 1 ≤ depth)
    (hle : leaves.length ≤ 2 ^ depth) : tree.parents.length < depth := by
  have key : ∀ {parents : List (Option uint256)} {l : List uint256} {k : Nat}, Parents H 1 parents l →
      parents.getLast? ≠ some none → l.length + k ≤ 2 ^ depth → 0 < k → parents.length < depth := by
    intro parents l k full hcan hle hk
    by_contra hge
    have hne : parents ≠ [] := by rintro rfl; simp at hge; omega
    have hpow : 2 ^ depth ≤ 2 ^ parents.length := Nat.pow_le_pow_right (by decide) (by omega)
    have := le_parentsValue hne hcan
    rw [full.length_eq] at hle
    omega
  cases h with
  | empty => exact hd
  | one x full hcan => exact key full hcan (by rwa [List.length_append] at hle) (Nat.succ_pos _)
  | two x y full hcan => exact key full hcan (by rwa [List.length_append] at hle) (Nat.succ_pos _)

/-! ## Appending -/

variable {Depth : Nat} {r m : List uint256} {n i : Nat}

/-- The carry brings the leaves of the subtree under the parents. -/
theorem Parents.carry {b : List uint256} (h : Parents H (i + 1) parents l) (hn : parents.length < n)
    (hb : b.length = 2 ^ (i + 1)) :
    Parents H (i + 1) (carry H n i (H.rootOf (i + 1) b) parents) (l ++ b) := by
  induction n generalizing parents i l b with
  | zero => exact absurd hn (Nat.not_lt_zero _)
  | succ n ih =>
    cases h with
    | nil => exact .some hb (.nil _)
    | none rest => exact .some hb rest
    | some full rest =>
      rename_i l b'
      -- two subtrees of this level make one of the next
      have hroot : H.combine (H.rootOf (i + 1) b') (H.rootOf (i + 1) b) (i + 1) = H.rootOf (i + 1 + 1) (b' ++ b) :=
        (treeRoot_append full).symm
      have hlen : (b' ++ b).length = 2 ^ (i + 1 + 1) := by
        rw [List.length_append, full, hb, Nat.pow_succ 2 (i + 1)]
        omega
      rw [IncrementalMerkleTree.carry, hroot, List.append_assoc]
      exact .none (ih rest (Nat.lt_of_succ_lt_succ hn) hlen)

theorem getLast?_carry {c : uint256} (hcan : parents.getLast? ≠ some none) (hn : parents.length < n) :
    ∃ p, (carry H n i c parents).getLast? = some (some p) := by
  fun_induction carry H n i c parents with
  | case1 => exact absurd hn (Nat.not_lt_zero _)
  | case2 n i c => exact ⟨c, rfl⟩
  | case3 n i c parents =>
    rw [List.getLast?_cons] at hcan ⊢
    rcases hlast : parents.getLast? with _ | _ | q <;> simp_all
  | case4 n i c p parents ih =>
    obtain ⟨q, hq⟩ := ih (by grind [List.getLast?_cons]) (Nat.lt_of_succ_lt_succ hn)
    exact ⟨q, by rw [List.getLast?_cons, hq]; rfl⟩

theorem Represents.append (h : Represents H tree leaves) (hD : 1 ≤ Depth) (obj : uint256)
    (hlt : leaves.length < 2 ^ Depth) :
    ∃ tree', tree.append H Depth obj = .ok tree' ∧ Represents H tree' (leaves ++ [obj]) := by
  have hopen : ¬ tree.isComplete Depth = true := by
    rw [h.isComplete_iff hD]
    omega
  have hparents := h.length_parents hD (Nat.le_of_lt hlt)
  unfold IncrementalMerkleTree.append
  rw [if_neg hopen]
  cases h with
  | empty => exact ⟨_, rfl, .one obj (.nil 1) fun hlast => (by cases hlast)⟩
  | one x full hcan =>
    refine ⟨_, rfl, ?_⟩
    rw [List.append_assoc]
    exact .two x obj full hcan
  | two x y full hcan =>
    obtain ⟨p, hp⟩ := getLast?_carry (H := H) (i := 0) (c := H.combine x y 0) hcan hparents
    exact ⟨_, rfl, .one obj (full.carry (b := [x, y]) hparents rfl) (by rw [hp]; simp)⟩

theorem Represents.append_eq_error_iff (h : Represents H tree leaves) (hD : 1 ≤ Depth) (hle : leaves.length ≤ 2 ^ Depth)
    (obj : uint256) :
    tree.append H Depth obj = .error (.exception "tree is full") ↔ leaves.length = 2 ^ Depth := by
  constructor
  · intro herr
    by_contra hne
    obtain ⟨tree', hok, -⟩ := h.append hD obj (by omega)
    rw [hok] at herr
    cases herr
  · intro heq
    unfold IncrementalMerkleTree.append
    rw [if_pos ((h.isComplete_iff hD).mpr heq)]

/-! ## The root -/

variable {D : Nat}

variable (D) in
/-- The depths of the subtrees to the right of a node, for parents from the level `d` on. -/
def slotsFrom : List (Option uint256) → (d : Nat) → List Nat
  | [], d => List.range' d (D - d)
  | none :: parents, d => d :: slotsFrom parents (d + 1)
  | some _ :: parents, d => slotsFrom parents (d + 1)

variable (D) in
/-- The depths of the subtrees that are filled in when the root is computed. -/
def slots (tree : IncrementalMerkleTree) : List Nat :=
  (if tree.left.isSome then [] else [0]) ++ (if tree.right.isSome then [] else [0]) ++ slotsFrom D tree.parents 1

/-- The filler has the subtree over the next leaves, which is empty where none are left. -/
theorem pathFillerNext_blockRoots (s : Nat) (rest : List Nat) (m : List uint256) :
    pathFillerNext H s (blockRoots H.combine (H.emptyRoot 0) (s :: rest) m) =
      (H.rootOf s (m.take (2 ^ s)), blockRoots H.combine (H.emptyRoot 0) rest (m.drop (2 ^ s))) := by
  cases m with
  | nil =>
    rw [blockRoots_nil_right, List.take_nil, List.drop_nil, blockRoots_nil_right, MerkleHash.rootOf, treeRoot_nil,
      ← H.emptyRoot_eq]
    rfl
  | cons x m => rfl

section

variable (hr : r.length ≤ 2 ^ d) (hfull : m ≠ [] → r.length = 2 ^ d)
include hr hfull

/-- The leaves `r` of a subtree of depth `d` and the leaves `m` to its right, joined in the subtree above. -/
theorem combine_right :
    H.combine (H.rootOf d r) (H.rootOf d (m.take (2 ^ d))) d = H.rootOf (d + 1) (r ++ m.take (2 ^ d)) := by
  cases m with
  | nil =>
    have hempty : H.rootOf d [] = emptyTree H.combine (H.emptyRoot 0) d := treeRoot_nil d
    rw [List.take_nil, List.append_nil, hempty]
    exact (treeRoot_left hr).symm
  | cons x m => exact (treeRoot_append (hfull (List.cons_ne_nil x m))).symm

theorem length_right :
    (r ++ m.take (2 ^ d)).length ≤ 2 ^ (d + 1) ∧ (m.drop (2 ^ d) ≠ [] → (r ++ m.take (2 ^ d)).length = 2 ^ (d + 1)) := by
  rw [List.length_append, List.length_take, Nat.pow_succ]
  refine ⟨by omega, fun hdrop => ?_⟩
  have hlen : 2 ^ d < m.length := by
    by_contra hle
    exact hdrop (List.drop_of_length_le (by omega))
  have := hfull fun hm => by rw [hm] at hlen; simp at hlen
  omega

theorem fillLoop_eq {n : Nat} (hcap : (r ++ m).length ≤ 2 ^ (d + n)) :
    fillLoop H n d (H.rootOf d r) (blockRoots H.combine (H.emptyRoot 0) (List.range' d n) m) =
      H.rootOf (d + n) (r ++ m) := by
  induction n generalizing d r m with
  | zero =>
    have hm : m = [] := by
      by_contra hne
      have hpos := List.length_pos_iff.mpr hne
      rw [List.length_append, hfull hne, Nat.add_zero] at hcap
      omega
    subst hm
    rw [List.append_nil]
    rfl
  | succ n ih =>
    obtain ⟨hr', hfull'⟩ := length_right hr hfull
    have hsplit : r ++ m = r ++ m.take (2 ^ d) ++ m.drop (2 ^ d) := by
      rw [List.append_assoc, List.take_append_drop]
    rw [List.range'_succ, fillLoop, pathFillerNext_blockRoots]
    dsimp only
    rw [combine_right hr hfull, hsplit, show d + (n + 1) = d + 1 + n by omega]
    exact ih hr' hfull' (by rw [← hsplit, show d + 1 + n = d + (n + 1) by omega]; exact hcap)

end

theorem Parents.rootLoop_eq (h : Parents H d parents l) (hd : d + parents.length ≤ D) (hr : r.length ≤ 2 ^ d)
    (hfull : m ≠ [] → r.length = 2 ^ d) (hcap : (l ++ r ++ m).length ≤ 2 ^ D) :
    rootLoop H D parents d (H.rootOf d r) (blockRoots H.combine (H.emptyRoot 0) (slotsFrom D parents d) m) =
      H.rootOf D (l ++ r ++ m) := by
  induction h generalizing r m with
  | nil d =>
    rw [List.length_nil, Nat.add_zero] at hd
    have hD : d + (D - d) = D := by omega
    rw [List.nil_append] at hcap ⊢
    rw [rootLoop, slotsFrom, fillLoop_eq hr hfull (by rw [hD]; exact hcap), hD]
  | none rest ih =>
    rename_i d parents l
    rw [List.length_cons] at hd
    obtain ⟨hr', hfull'⟩ := length_right hr hfull
    have hsplit : l ++ r ++ m = l ++ (r ++ m.take (2 ^ d)) ++ m.drop (2 ^ d) := by
      rw [List.append_assoc, List.append_assoc, List.append_assoc, List.take_append_drop]
    rw [slotsFrom, rootLoop, pathFillerNext_blockRoots]
    dsimp only
    rw [combine_right hr hfull, hsplit]
    exact ih (by omega) hr' hfull' (by rw [← hsplit]; exact hcap)
  | some full rest ih =>
    rename_i d parents l b
    rw [List.length_cons] at hd
    have hjoin : H.combine (H.rootOf d b) (H.rootOf d r) d = H.rootOf (d + 1) (b ++ r) := (treeRoot_append full).symm
    have hlen : (b ++ r).length = 2 ^ d + r.length := by rw [List.length_append, full]
    rw [slotsFrom, rootLoop, hjoin, List.append_assoc l b r]
    refine ih (by omega) ?_ ?_ (by rw [← List.append_assoc l b r]; exact hcap)
    · rw [hlen, Nat.pow_succ]
      omega
    · intro hm
      rw [hlen, hfull hm, Nat.pow_succ]
      omega

/-- The roots to the left of the last leaf, from the level of the leaves on. -/
def levels (tree : IncrementalMerkleTree) : List (Option uint256) :=
  (if tree.right.isSome then tree.left else none) :: tree.parents

theorem Represents.levels (h : Represents H tree leaves) (hne : leaves ≠ []) :
    ∃ l x, leaves = l ++ [x] ∧ tree.left.isSome = true ∧ tree.last = .ok x ∧ Parents H 0 tree.levels l := by
  cases h with
  | empty => exact absurd rfl hne
  | one x full hcan => exact ⟨_, x, rfl, rfl, rfl, .none full⟩
  | two x y full hcan => exact ⟨_ ++ [x], y, by simp, rfl, rfl, .some (b := [x]) rfl full⟩

theorem slots_eq (h : tree.left.isSome = true) : tree.slots D = slotsFrom D tree.levels 0 := by
  rcases tree with ⟨_ | l, _ | r, parents⟩ <;> first | rfl | cases h

theorem root_eq {x : uint256} (h : tree.left.isSome = true) (hlast : tree.last = .ok x) (filler : List uint256) :
    tree.root H D filler = rootLoop H D tree.levels 0 x filler := by
  rcases tree with ⟨_ | l, _ | r, parents⟩ <;> cases h <;> cases hlast <;> rfl

section

variable (h : Represents H tree leaves) (hD : 1 ≤ D)
include h hD

theorem Represents.length_levels (hle : leaves.length ≤ 2 ^ D) : 0 + tree.levels.length ≤ D := by
  rw [Nat.zero_add]
  exact h.length_parents hD hle

/-- The root of a tree whose right hand side is filled with the leaves `m` is that of the complete tree. -/
theorem Represents.root_filled {m : List uint256} (hcap : (leaves ++ m).length ≤ 2 ^ D) (hne : leaves ≠ []) :
    tree.root H D (blockRoots H.combine (H.emptyRoot 0) (tree.slots D) m) = H.rootOf D (leaves ++ m) := by
  have hlevels := h.length_levels hD ((List.sublist_append_left _ _).length_le.trans hcap)
  obtain ⟨l, x, rfl, hleft, hlast, hparents⟩ := h.levels hne
  rw [slots_eq hleft, root_eq hleft hlast]
  exact hparents.rootLoop_eq (r := [x]) hlevels (le_refl 1) (fun _ => rfl) hcap

theorem Represents.root (hcap : leaves.length ≤ 2 ^ D) : tree.root H D [] = H.rootOf D leaves := by
  by_cases hne : leaves = []
  · subst hne
    obtain rfl := h.eq_empty
    obtain ⟨n, rfl⟩ : ∃ n, D = n + 1 := ⟨D - 1, by omega⟩
    have hpair : H.combine (H.emptyRoot 0) (H.emptyRoot 0) 0 = H.rootOf 1 [] := by
      rw [MerkleHash.rootOf, treeRoot_nil]
      rfl
    have hfill := fillLoop_eq (H := H) (n := n) (d := 1) (r := []) (m := []) (Nat.zero_le _)
      (fun hfalse => absurd rfl hfalse) (Nat.zero_le _)
    rw [blockRoots_nil_right, Nat.add_comm 1 n] at hfill
    show fillLoop H n 1 (H.combine (H.emptyRoot 0) (H.emptyRoot 0) 0) [] = H.rootOf (n + 1) []
    rw [hpair]
    exact hfill
  · have hroot := h.root_filled hD (m := []) (by rwa [List.append_nil]) hne
    rwa [blockRoots_nil_right, List.append_nil] at hroot

end

/-! ## Serialization -/

/-- The fields of a tree: `left`, `right`, `parents`. -/
def codec : Codec IncrementalMerkleTree :=
  ((Codec.option (blob 32)).pair ((Codec.option (blob 32)).pair (vector (Codec.option (blob 32))))).iso
    (fun x => ⟨x.1, x.2.1, x.2.2⟩) (fun tree => (tree.left, tree.right, tree.parents)) (fun _ => rfl) fun _ => rfl

/-- The tree is written and read back; both check it. -/
def roundTrip (Depth : Nat) (tree : IncrementalMerkleTree) : Result IncrementalMerkleTree := do
  tree.wfcheck Depth
  let (tree, _) ← readStream codec (codec.write tree)
  tree.wfcheck Depth
  return tree

theorem codec_valid (h : tree.parents.length ≤ MAX_SIZE) : codec.valid tree :=
  ⟨fun _ _ => trivial, fun _ _ => trivial, h, fun _ _ _ _ => trivial⟩

variable (h : Represents H tree leaves) (hD : 1 ≤ Depth) (hle : leaves.length ≤ 2 ^ Depth)
include h hD hle

theorem Represents.wfcheck : tree.wfcheck Depth = .ok () := by
  have hparents := h.length_parents hD hle
  simp only [IncrementalMerkleTree.wfcheck, bind_eq_ok, require_eq_ok]
  refine ⟨(), hparents, ?_⟩
  cases h with
  | empty =>
    exact ⟨(), fun hlast => (by cases hlast), (), fun hright => hright.2 rfl, fun hparents => hparents.2 rfl⟩
  | one x full hcan => exact ⟨(), hcan, (), fun hleft => (by cases hleft.1), fun hleft => (by cases hleft.1)⟩
  | two x y full hcan => exact ⟨(), hcan, (), fun hleft => (by cases hleft.1), fun hleft => (by cases hleft.1)⟩

/-- A tree is read back as it was written. The reader refuses more than `MAX_SIZE` parents. -/
theorem Represents.roundTrip (hsize : leaves.length ≤ 2 ^ MAX_SIZE) : tree.roundTrip Depth = .ok tree := by
  have hparents : tree.parents.length ≤ MAX_SIZE := Nat.le_of_lt (h.length_parents (by decide) hsize)
  have hread : readStream codec (codec.write tree) = .ok (tree, []) := by
    rw [readStream, codec.read_write_nil (codec_valid hparents)]
  unfold IncrementalMerkleTree.roundTrip
  rw [h.wfcheck hD hle, ok_bind, hread, ok_bind]
  dsimp only
  rw [h.wfcheck hD hle]
  rfl

end Leaves

/-! ## Runs -/

inductive Op where
  | append (obj : uint256)
  | roundTrip

def Op.leaf? : Op → Option uint256
  | .append obj => some obj
  | .roundTrip => none

def leavesOf (ops : List Op) : List uint256 := ops.filterMap Op.leaf?

def step (H : MerkleHash) (Depth : Nat) (tree : IncrementalMerkleTree) : Op → Result IncrementalMerkleTree
  | .append obj => tree.append H Depth obj
  | .roundTrip => tree.roundTrip Depth

def run (H : MerkleHash) (Depth : Nat) (tree : IncrementalMerkleTree) (ops : List Op) : Result IncrementalMerkleTree :=
  ops.foldlM (step H Depth) tree

/-- What the leaves since `base` say about a state is kept by a run within the capacity, where `append` adds a leaf and a
round trip none. -/
theorem run_keeps {σ : Type} (step : σ → Op → Result σ) (base : List uint256) {P : σ → List uint256 → Prop}
    {Depth : Nat} {s : σ} {l : List uint256}
    (happend : ∀ {s l} obj, P s l → (base ++ l).length < 2 ^ Depth →
      ∃ s', step s (.append obj) = .ok s' ∧ P s' (l ++ [obj]))
    (hround : ∀ {s l}, P s l → (base ++ l).length ≤ 2 ^ Depth → (base ++ l).length ≤ 2 ^ MAX_SIZE →
      ∃ s', step s .roundTrip = .ok s' ∧ P s' l)
    (ops : List Op) (h : P s l) (hcap : (base ++ (l ++ leavesOf ops)).length ≤ 2 ^ Depth)
    (hser : .roundTrip ∈ ops → (base ++ (l ++ leavesOf ops)).length ≤ 2 ^ MAX_SIZE) :
    ∃ s', ops.foldlM step s = .ok s' ∧ P s' (l ++ leavesOf ops) := by
  induction ops generalizing s l with
  | nil => exact ⟨s, rfl, by rw [leavesOf, List.filterMap_nil, List.append_nil]; exact h⟩
  | cons op ops ih =>
    rw [List.foldlM_cons]
    cases op with
    | append obj =>
      have hleaves : l ++ leavesOf (.append obj :: ops) = l ++ [obj] ++ leavesOf ops := by
        rw [List.append_assoc]
        rfl
      rw [hleaves] at hcap hser ⊢
      obtain ⟨s', hstep, h'⟩ := happend obj h (by simp only [List.length_append, List.length_singleton] at hcap ⊢; omega)
      rw [hstep, ok_bind]
      exact ih h' hcap fun hmem => hser (List.mem_cons_of_mem _ hmem)
    | roundTrip =>
      have hsize := hser List.mem_cons_self
      have hle : (base ++ l).length ≤ (base ++ (l ++ leavesOf ops)).length := by
        simp only [List.length_append]
        omega
      obtain ⟨s', hstep, h'⟩ := hround h (hle.trans hcap) (hle.trans hsize)
      rw [hstep, ok_bind]
      exact ih h' hcap fun _ => hsize

theorem Represents.run {H : MerkleHash} {Depth : Nat} (hD : 1 ≤ Depth) (ops : List Op)
    {tree : IncrementalMerkleTree} {leaves : List uint256} (h : Represents H tree leaves)
    (hcap : (leaves ++ leavesOf ops).length ≤ 2 ^ Depth)
    (hser : .roundTrip ∈ ops → (leaves ++ leavesOf ops).length ≤ 2 ^ MAX_SIZE) :
    ∃ tree', tree.run H Depth ops = .ok tree' ∧ Represents H tree' (leaves ++ leavesOf ops) := by
  exact run_keeps (step H Depth) leaves (P := fun tree l => Represents H tree (leaves ++ l))
    (fun obj h hlt => by rw [← List.append_assoc]; exact h.append hD obj hlt)
    (fun h hle hsize => ⟨_, h.roundTrip hD hle hsize, h⟩) ops (l := []) (by rwa [List.append_nil]) hcap hser

end IncrementalMerkleTree

/-- After any number of appends and round trips the root is that of the complete tree, and a further append throws
exactly if the tree is full. -/
theorem commitment_tree_root (H : MerkleHash) {Depth : Nat} (hD : 1 ≤ Depth) (ops : List IncrementalMerkleTree.Op)
    (hcap : (IncrementalMerkleTree.leavesOf ops).length ≤ 2 ^ Depth)
    (hser : .roundTrip ∈ ops → (IncrementalMerkleTree.leavesOf ops).length ≤ 2 ^ MAX_SIZE) :
    ∃ tree : IncrementalMerkleTree, ({} : IncrementalMerkleTree).run H Depth ops = .ok tree ∧
      tree.root H Depth [] = H.rootOf Depth (IncrementalMerkleTree.leavesOf ops) ∧
      ∀ obj, (∃ e, tree.append H Depth obj = .error e) ↔
        (IncrementalMerkleTree.leavesOf ops).length = 2 ^ Depth := by
  obtain ⟨tree, hrun, h⟩ := IncrementalMerkleTree.Represents.empty.run (H := H) hD ops hcap hser
  rw [List.nil_append] at h
  refine ⟨tree, hrun, h.root hD hcap, fun obj => ⟨?_, fun hfull => ?_⟩⟩
  · rintro ⟨e, herr⟩
    by_contra hne
    obtain ⟨tree', hok, -⟩ := h.append hD obj (by omega)
    rw [hok] at herr
    cases herr
  · exact ⟨_, (h.append_eq_error_iff hD hcap obj).mpr hfull⟩

namespace Sample

def merkleHash : MerkleHash where
  combine a b d := 3 * a + b + BitVec.ofNat 256 d
  emptyRoot := emptyTree (fun a b d => 3 * a + b + BitVec.ofNat 256 d) 1
  emptyRoot_succ _ := rfl

def treeOps : List IncrementalMerkleTree.Op := [.append 5, .append 6, .roundTrip, .append 7, .append 8, .append 9]

end Sample

theorem commitment_tree_root_five : ∃ tree : IncrementalMerkleTree,
    ({} : IncrementalMerkleTree).run Sample.merkleHash 4 Sample.treeOps = .ok tree ∧
      tree.root Sample.merkleHash 4 [] = Sample.merkleHash.rootOf 4 [5, 6, 7, 8, 9] := by
  obtain ⟨tree, hrun, hroot, -⟩ := commitment_tree_root Sample.merkleHash (by decide : 1 ≤ 4) Sample.treeOps
    (by decide) fun _ => Nat.le_trans (by decide : 5 ≤ 2 ^ 3) (Nat.pow_le_pow_right (by decide) (by decide))
  exact ⟨tree, hrun, hroot⟩

end TrumpCoin
