import TrumpCoin.Sapling.IncrementalMerkleTree

/-!
# The incremental witness

`IncrementalWitness` of `sapling/incrementalmerkletree.h`. A witness keeps the tree as it was when its leaf was the last
one. The leaves that come later fill the subtrees to the right of that leaf's path one after the other: those that are
full are `filled`, and `cursor` is the tree of the one under way.

* `Witnesses`: what a witness has of the later leaves; kept by `append` and by a round trip;
* `Witnesses.root`, `Witnesses.path`: its root is that of the tree of all leaves, and its path recomputes it;
* `Represents.size_eq`, `Represents.size_ne`: `size` adds its parents with shifts of an `int`, and is right up to
  `2 ^ 31` leaves.
-/

namespace TrumpCoin

open Lib Merkle

/-! ## More of the tree -/

namespace IncrementalMerkleTree

/-- `1 << n` in an `int` of 32 bits: the sign bit is set by the last shift, and a shift by more is undefined. -/
def intOneShl (n : Nat) : Option Int :=
  if n < 31 then some (2 ^ n) else if n = 31 then some (-2 ^ 31) else none

/-- The loop of `size`, from the parent `i` on. -/
def sizeLoop : List (Option uint256) → (i : Nat) → (ret : BitVec 64) → Option (BitVec 64)
  | [], _, ret => some ret
  | none :: parents, i, ret => sizeLoop parents (i + 1) ret
  | some _ :: parents, i, ret => (intOneShl (i + 1)).bind fun n => sizeLoop parents (i + 1) (ret + BitVec.ofInt 64 n)

variable (tree : IncrementalMerkleTree)

def size : Option (BitVec 64) :=
  sizeLoop tree.parents 0 ((if tree.left.isSome then 1 else 0) + if tree.right.isSome then 1 else 0)

/-- The loop of `next_depth`, at the level `d`. -/
def nextDepthLoop : List (Option uint256) → (skip : Nat) → (d : Nat) → Nat
  | [], skip, d => d + skip
  | some _ :: parents, skip, d => nextDepthLoop parents skip (d + 1)
  | none :: _, 0, d => d
  | none :: parents, skip + 1, d => nextDepthLoop parents skip (d + 1)

/-- `next_depth` after the left leaf. -/
def nextDepthRight (skip : Nat) : Nat :=
  match tree.right, skip with
  | none, 0 => 0
  | none, skip + 1 => nextDepthLoop tree.parents skip 1
  | some _, skip => nextDepthLoop tree.parents skip 1

def nextDepth (skip : Nat) : Nat :=
  match tree.left, skip with
  | none, 0 => 0
  | none, skip + 1 => tree.nextDepthRight skip
  | some _, skip => tree.nextDepthRight skip

def convertBytesVectorToVector (bytes : Bytes) : List Bool :=
  bytes.flatMap fun c => (List.range 8).map fun j => (c.toNat >>> (7 - j)) % 2 == 1

def hashBits (h : uint256) : List Bool := convertBytesVectorToVector ((blob 32).write h)

structure MerklePath where
  authentication_path : List (List Bool)
  index : List Bool

/-- The last loop of `path`, over `n` levels from `d` on. -/
def pathFill (H : MerkleHash) : (n : Nat) → (d : Nat) → List uint256 → List (Bool × uint256)
  | 0, _, _ => []
  | n + 1, d, filler =>
    let (h, filler) := pathFillerNext H d filler
    (false, h) :: pathFill H n (d + 1) filler

variable (H : MerkleHash) (Depth : Nat)

/-- The loop of `path` over the parents from the level `d` on, and the one after it. -/
def pathLoop : List (Option uint256) → (d : Nat) → List uint256 → List (Bool × uint256)
  | [], d, filler => pathFill H (Depth - d) d filler
  | some p :: parents, d, filler => (true, p) :: pathLoop parents (d + 1) filler
  | none :: parents, d, filler =>
    let (h, filler) := pathFillerNext H d filler
    (false, h) :: pathLoop parents (d + 1) filler

/-- The `index` and `path` of the source side by side, from the leaf up. -/
def pathSteps (tree : IncrementalMerkleTree) (l : uint256) (filler : List uint256) : List (Bool × uint256) :=
  match tree.right with
  | some _ => (true, l) :: pathLoop H Depth tree.parents 1 filler
  | none =>
    let (h, filler) := pathFillerNext H 0 filler
    (false, h) :: pathLoop H Depth tree.parents 1 filler

/-- A path from the leaf up, as it is given out: from the root down, hashes as bits. -/
def MerklePath.ofSteps (steps : List (Bool × uint256)) : MerklePath :=
  ⟨(steps.map fun s => hashBits s.2).reverse, (steps.map Prod.fst).reverse⟩

def path (tree : IncrementalMerkleTree) (filler_hashes : List uint256) : Result MerklePath :=
  match tree.left with
  | none => .error (.exception "can't create an authentication path for the beginning of the tree")
  | some l => .ok (.ofSteps (pathSteps H Depth tree l filler_hashes))

/-! ## The size -/

section Size

variable {H : MerkleHash} {tree : IncrementalMerkleTree} {leaves : List uint256}

theorem sizeLoop_append (ps qs : List (Option uint256)) (i : Nat) (ret : BitVec 64) :
    sizeLoop (ps ++ qs) i ret = (sizeLoop ps i ret).bind fun ret => sizeLoop qs (i + ps.length) ret := by
  induction ps generalizing i ret with
  | nil => rfl
  | cons p ps ih =>
    have hlen : i + (p :: ps).length = i + 1 + ps.length := by
      rw [List.length_cons]
      omega
    rw [List.cons_append, hlen]
    cases p with
    | none => exact ih (i + 1) ret
    | some p =>
      rw [sizeLoop, sizeLoop, Option.bind_assoc]
      exact congrArg _ (funext fun n => ih (i + 1) _)

/-- The shifts that stay in an `int` add up to the number of leaves under the parents. -/
theorem sizeLoop_eq {ps : List (Option uint256)} {i : Nat} {ret : BitVec 64} (h : i + ps.length ≤ 30) :
    sizeLoop ps i ret = some (ret + BitVec.ofNat 64 (2 ^ (i + 1) * parentsValue ps)) := by
  induction ps generalizing i ret with
  | nil => simp [sizeLoop, parentsValue]
  | cons p ps ih =>
    rw [List.length_cons] at h
    have hrest : i + 1 + ps.length ≤ 30 := by omega
    cases p with
    | none =>
      rw [sizeLoop, ih hrest, parentsValue, if_neg (by simp), Nat.zero_add, Nat.pow_succ 2 (i + 1), Nat.mul_assoc]
    | some p =>
      have hvalue : parentsValue (some p :: ps) = 1 + 2 * parentsValue ps := rfl
      have hint : BitVec.ofInt 64 (2 ^ (i + 1)) = BitVec.ofNat 64 (2 ^ (i + 1)) := by
        rw [← BitVec.ofInt_natCast]
        push_cast
        rfl
      rw [sizeLoop, intOneShl, if_pos (by omega), Option.bind_some, ih hrest, hvalue, hint, BitVec.add_assoc,
        ← BitVec.ofNat_add, Nat.mul_add, Nat.mul_one, Nat.pow_succ 2 (i + 1), Nat.mul_assoc]

theorem Represents.length_eq (h : Represents H tree leaves) :
    leaves.length = (if tree.left.isSome then 1 else 0) + (if tree.right.isSome then 1 else 0) +
      2 * parentsValue tree.parents := by
  cases h with
  | empty => rfl
  | one x full hcan => rw [List.length_append, full.length_eq]; simp; omega
  | two x y full hcan => rw [List.length_append, full.length_eq]; simp; omega

theorem leafCount_eq (tree : IncrementalMerkleTree) :
    ((if tree.left.isSome then 1 else 0) + if tree.right.isSome then 1 else 0 : BitVec 64) =
      BitVec.ofNat 64 ((if tree.left.isSome then 1 else 0) + if tree.right.isSome then 1 else 0) := by
  cases tree.left.isSome <;> cases tree.right.isSome <;> rfl

variable (h : Represents H tree leaves)
include h

theorem Represents.size_eq (hle : leaves.length ≤ 2 ^ 31) : tree.size = some (BitVec.ofNat 64 leaves.length) := by
  have hparents := h.length_parents (by decide) hle
  rw [size, sizeLoop_eq (by omega), leafCount_eq, ← BitVec.ofNat_add, h.length_eq]
  rfl

theorem Represents.highest_parent (hne : tree.parents ≠ []) : ∃ init p, tree.parents = init ++ [some p] := by
  have hcan : tree.parents.getLast? ≠ some none := by
    cases h with
    | empty => exact absurd rfl hne
    | one x full hcan => exact hcan
    | two x y full hcan => exact hcan
  rcases List.eq_nil_or_concat tree.parents with hnil | ⟨init, q, hconcat⟩
  · exact absurd hnil hne
  · rw [List.concat_eq_append] at hconcat
    cases q with
    | none => rw [hconcat, List.getLast?_append] at hcan; exact absurd rfl hcan
    | some p => exact ⟨init, p, hconcat⟩

omit h in
/-- A sum of sizes from which the sign bit of an `int` is taken, as `position` reads it. -/
theorem toNat_negative_size (n : Nat) : (BitVec.ofNat 64 n + BitVec.ofInt 64 (-2 ^ 31) - 1).toNat =
    (n + (2 ^ 64 - 2 ^ 31) + (2 ^ 64 - 1)) % 2 ^ 64 := by
  have hint : (BitVec.ofInt 64 (-2 ^ 31)).toNat = 2 ^ 64 - 2 ^ 31 := by decide
  have hone : (1 : BitVec 64).toNat = 1 := by decide
  rw [BitVec.toNat_sub, BitVec.toNat_add, BitVec.toNat_ofNat, hint, hone]
  omega

/-- With more leaves a shift reaches the sign bit. -/
theorem Represents.size_ne (hlt : 2 ^ 31 < leaves.length) {size : BitVec 64} (hsize : tree.size = some size) :
    (size - 1).toNat + 1 ≠ leaves.length := by
  have hlen := h.length_eq
  have hcount : (if tree.left.isSome then 1 else 0) + (if tree.right.isSome then 1 else 0) ≤ 2 := by
    cases tree.left.isSome <;> cases tree.right.isSome <;> decide
  have hlong : 31 ≤ tree.parents.length := by
    by_contra hshort
    have hpow : 2 ^ tree.parents.length ≤ 2 ^ 30 := Nat.pow_le_pow_right (by decide) (by omega)
    have := parentsValue_lt tree.parents
    omega
  -- the highest parent is the one that is shifted too far
  obtain ⟨init, p, hinit⟩ := h.highest_parent (List.ne_nil_of_length_pos (by omega))
  have hinitLen : tree.parents.length = init.length + 1 := by rw [hinit, List.length_append]; rfl
  rw [IncrementalMerkleTree.size, hinit, sizeLoop_append, Nat.zero_add] at hsize
  by_cases hshift : init.length = 30
  · have hlt' := parentsValue_lt init
    rw [hinit, parentsValue_concat, hshift] at hlen
    rw [sizeLoop_eq (by omega), Option.bind_some, hshift, leafCount_eq, ← BitVec.ofNat_add] at hsize
    generalize hn : (if tree.left.isSome then 1 else 0) + (if tree.right.isSome then 1 else 0) +
      2 ^ (0 + 1) * parentsValue init = n at hsize
    have hint : intOneShl (30 + 1) = some (-2 ^ 31) := rfl
    simp only [sizeLoop, hint, Option.bind_some, Option.some.injEq] at hsize
    subst hsize
    rw [hshift] at hlt'
    rw [toNat_negative_size]
    omega
  · have hnone : intOneShl (init.length + 1) = none := by
      rw [intOneShl, if_neg (by omega), if_neg (by omega)]
    cases hloop : sizeLoop init 0 ((if tree.left.isSome then 1 else 0) + if tree.right.isSome then 1 else 0) with
    | none => rw [hloop] at hsize; cases hsize
    | some ret =>
      rw [hloop, Option.bind_some, sizeLoop, hnone] at hsize
      cases hsize

theorem Represents.size_iff :
    (∃ size, tree.size = some size ∧ size.toNat = leaves.length) ↔ leaves.length ≤ 2 ^ 31 := by
  constructor
  · rintro ⟨size, hsize, hlen⟩
    by_contra hlt
    have hone : (1 : BitVec 64).toNat = 1 := rfl
    refine h.size_ne (by omega) hsize ?_
    rw [BitVec.toNat_sub, hone]
    omega
  · intro hle
    refine ⟨_, h.size_eq hle, ?_⟩
    rw [BitVec.toNat_ofNat]
    omega

/-- No parent of so many leaves is shifted to the sign bit. -/
theorem Represents.shift_lt (hle : leaves.length ≤ 2 ^ 31) {i : Nat} {p : uint256}
    (hp : tree.parents[i]? = some (some p)) : i + 1 < 31 := by
  have hparents := h.length_parents (by decide) hle
  have hi := (List.getElem?_eq_some_iff.mp hp).1
  omega

end Size

/-! ## The subtrees to the right -/

section Slots

variable {H : MerkleHash} {D d : Nat} {parents : List (Option uint256)} {l : List uint256}
variable {s : Nat}

theorem slotsFrom_sublist (hd : d + parents.length ≤ D) : (slotsFrom D parents d).Sublist (List.range' d (D - d)) := by
  induction parents generalizing d with
  | nil => exact List.Sublist.refl _
  | cons p parents ih =>
    rw [List.length_cons] at hd
    have hrest := ih (d := d + 1) (by omega)
    rw [show D - d = D - (d + 1) + 1 by omega, List.range'_succ]
    cases p with
    | none => exact hrest.cons_cons d
    | some p => exact hrest.cons d

theorem nextDepthLoop_eq {done rest : List Nat} (h : slotsFrom D parents d = done ++ s :: rest) :
    nextDepthLoop parents done.length d = s := by
  induction parents generalizing d done with
  | nil =>
    have hget : (List.range' d (D - d))[done.length]? = some s := by
      rw [← slotsFrom, h, List.getElem?_append_right (Nat.le_refl _), Nat.sub_self, List.getElem?_cons_zero]
    obtain ⟨_, heq⟩ := List.getElem?_eq_some_iff.mp hget
    rw [List.getElem_range', Nat.one_mul] at heq
    exact heq
  | cons p parents ih =>
    cases p with
    | some p => exact ih h
    | none =>
      cases done with
      | nil => exact (List.cons.inj h).1
      | cons t done => exact ih (List.cons.inj h).2

theorem sum_range'_pow (d n : Nat) : 2 ^ d + ((List.range' d n).map (2 ^ ·)).sum = 2 ^ (d + n) := by
  induction n generalizing d with
  | zero => rfl
  | succ n ih =>
    have hexp : d + (n + 1) = d + 1 + n := by omega
    have := ih (d + 1)
    rw [Nat.pow_succ 2 d] at this
    rw [List.range'_succ, List.map_cons, List.sum_cons, hexp]
    omega

/-- The leaves on the left, one subtree at this level and the subtrees to the right make up the whole tree. -/
theorem Parents.capacity (h : Parents H d parents l) (hd : d + parents.length ≤ D) :
    l.length + 2 ^ d + ((slotsFrom D parents d).map (2 ^ ·)).sum = 2 ^ D := by
  induction h with
  | nil d =>
    rw [List.length_nil, Nat.add_zero] at hd
    rw [slotsFrom, List.length_nil, Nat.zero_add, sum_range'_pow, Nat.add_sub_cancel' hd]
  | none rest ih =>
    rename_i d parents l
    rw [List.length_cons] at hd
    have := ih (by omega)
    rw [Nat.pow_succ 2 d] at this
    rw [slotsFrom, List.map_cons, List.sum_cons]
    omega
  | some full rest ih =>
    rename_i d parents l b
    rw [List.length_cons] at hd
    have := ih (by omega)
    rw [Nat.pow_succ 2 d] at this
    rw [slotsFrom, List.length_append, full]
    omega

variable {tree : IncrementalMerkleTree} {leaves : List uint256}

variable (h : Represents H tree leaves)
include h

theorem Represents.capacity (hD : 1 ≤ D) (hne : leaves ≠ [])
    (hle : leaves.length ≤ 2 ^ D) : leaves.length + ((tree.slots D).map (2 ^ ·)).sum = 2 ^ D := by
  have hlevels := h.length_levels hD hle
  obtain ⟨l, x, rfl, hleft, -, hparents⟩ := h.levels hne
  rw [slots_eq hleft, ← hparents.capacity hlevels, List.length_append]
  rfl

theorem Represents.slots_sublist (hD : 1 ≤ D) (hne : leaves ≠ []) (hle : leaves.length ≤ 2 ^ D) :
    (tree.slots D).Sublist (List.range' 0 D) := by
  obtain ⟨-, -, -, hleft, -⟩ := h.levels hne
  rw [slots_eq hleft]
  exact slotsFrom_sublist (h.length_levels hD hle)

theorem Represents.nextDepth_eq {done rest : List Nat} (hne : leaves ≠ [])
    (hslots : tree.slots D = done ++ s :: rest) : tree.nextDepth done.length = s := by
  obtain ⟨-, -, -, hleft, -⟩ := h.levels hne
  rw [slots_eq hleft] at hslots
  rw [← nextDepthLoop_eq hslots]
  rcases tree with ⟨_ | l, _ | r, parents⟩
  · cases hleft
  · cases hleft
  · cases done <;> rfl
  · rfl

end Slots

/-! ## The path -/

section Path

variable {H : MerkleHash} {D d : Nat} {parents : List (Option uint256)}

variable (H) in
/-- The root that a path gives for what is at its lower end, from the level `d` on. -/
def authRoot : (d : Nat) → uint256 → List (Bool × uint256) → uint256
  | _, h, [] => h
  | d, h, (right, sibling) :: steps =>
    authRoot (d + 1) (if right then H.combine sibling h d else H.combine h sibling d) steps

def binary : List Bool → Nat
  | [] => 0
  | b :: bits => (if b then 1 else 0) + 2 * binary bits

variable {n : Nat} {filler : List uint256}

theorem authRoot_pathFill {h : uint256} : authRoot H d h (pathFill H n d filler) = fillLoop H n d h filler := by
  induction n generalizing d h filler with
  | zero => rfl
  | succ n ih => exact ih

/-- The path goes up the way the root is computed. -/
theorem authRoot_pathLoop {h : uint256} :
    authRoot H d h (pathLoop H D parents d filler) = rootLoop H D parents d h filler := by
  induction parents generalizing d h filler with
  | nil => exact authRoot_pathFill
  | cons p parents ih => cases p <;> exact ih

theorem length_pathFill : (pathFill H n d filler).length = n := by
  induction n generalizing d filler with
  | zero => rfl
  | succ n ih => exact congrArg Nat.succ ih

theorem length_pathLoop (hd : d + parents.length ≤ D) (filler : List uint256) :
    (pathLoop H D parents d filler).length = D - d := by
  induction parents generalizing d filler with
  | nil => exact length_pathFill
  | cons p parents ih =>
    rw [List.length_cons] at hd
    have hsub : D - d = D - (d + 1) + 1 := by omega
    rw [hsub]
    cases p <;> exact congrArg Nat.succ (ih (by omega) _)

theorem binary_pathFill (filler : List uint256) : binary ((pathFill H n d filler).map Prod.fst) = 0 := by
  induction n generalizing d filler with
  | zero => rfl
  | succ n ih =>
    have := ih (d := d + 1) (pathFillerNext H d filler).2
    rw [pathFill, List.map_cons, binary, this]
    rfl

variable (parents filler) in
/-- The digits of the path are those of the number of leaves to the left. -/
theorem binary_pathLoop : binary ((pathLoop H D parents d filler).map Prod.fst) = parentsValue parents := by
  induction parents generalizing d filler with
  | nil => exact binary_pathFill filler
  | cons p parents ih =>
    cases p with
    | none =>
      have := ih (d := d + 1) (pathFillerNext H d filler).2
      rw [pathLoop, List.map_cons, binary, this]
      rfl
    | some p => rw [pathLoop, List.map_cons, binary, ih]; rfl

/-- The steps lead from the leaf at a position up to a root. -/
structure Authenticates (H : MerkleHash) (D : Nat) (leaf : uint256) (position : Nat) (root : uint256)
    (steps : List (Bool × uint256)) : Prop where
  length_eq : steps.length = D
  binary_eq : binary (steps.map Prod.fst) = position
  authRoot_eq : authRoot H 0 leaf steps = root

variable {tree : IncrementalMerkleTree} {leaves : List uint256} {leaf : uint256}

theorem Represents.last (h : Represents H tree (leaves ++ [leaf])) :
    tree.left.isSome = true ∧ tree.last = .ok leaf ∧ Parents H 0 tree.levels leaves := by
  obtain ⟨l, x, hall, hlast⟩ := h.levels (by simp)
  obtain ⟨rfl, hx⟩ := List.append_inj' hall rfl
  rw [(List.cons.inj hx).1]
  exact hlast

theorem Represents.path (h : Represents H tree (leaves ++ [leaf])) (hD : 1 ≤ D)
    (hle : (leaves ++ [leaf]).length ≤ 2 ^ D) (filler : List uint256) :
    ∃ steps, tree.path H D filler = .ok (.ofSteps steps) ∧
      Authenticates H D leaf leaves.length (tree.root H D filler) steps := by
  have hlevels := h.length_levels hD hle
  obtain ⟨hleft, hlast, hparents⟩ := h.last
  refine ⟨pathLoop H D tree.levels 0 filler, ?_, length_pathLoop hlevels filler, ?_, ?_⟩
  · rcases tree with ⟨_ | l, _ | r, parents⟩ <;> first | rfl | cases hleft
  · rw [binary_pathLoop, hparents.length_eq, Nat.pow_zero, Nat.one_mul]
  · rw [authRoot_pathLoop, root_eq hleft hlast]

end Path

end IncrementalMerkleTree

/-! ## The witness -/

structure IncrementalWitness where
  tree : IncrementalMerkleTree
  filled : List uint256 := []
  cursor : Option IncrementalMerkleTree := none
  cursor_depth : Nat := 0
deriving DecidableEq

def IncrementalMerkleTree.witness (tree : IncrementalMerkleTree) : IncrementalWitness := { tree }

namespace IncrementalWitness

section Model

variable (H : MerkleHash) (Depth : Nat) (w : IncrementalWitness)

def partialPath : List uint256 :=
  match w.cursor with
  | none => w.filled
  | some cursor => w.filled ++ [cursor.root H w.cursor_depth []]

def path : Result IncrementalMerkleTree.MerklePath := w.tree.path H Depth (w.partialPath H)

def element : Result uint256 := w.tree.last

def position : Option (BitVec 64) := w.tree.size.map (· - 1)

def root : uint256 := w.tree.root H Depth (w.partialPath H)

/-- `append` with a subtree under way. -/
def appendCursor (cursor : IncrementalMerkleTree) (obj : uint256) : Result IncrementalWitness := do
  let cursor ← cursor.append H Depth obj
  if cursor.isComplete w.cursor_depth then
    return { w with filled := w.filled ++ [cursor.root H w.cursor_depth []], cursor := none }
  else
    return { w with cursor := some cursor }

/-- `append` with the next subtree, of the depth `cursor_depth`. -/
def appendNext (cursor_depth : Nat) (obj : uint256) : Result IncrementalWitness := do
  require (.exception "tree is full") (cursor_depth < Depth)
  if cursor_depth = 0 then return { w with filled := w.filled ++ [obj], cursor_depth }
  else
    let cursor ← ({} : IncrementalMerkleTree).append H Depth obj
    return { w with cursor := some cursor, cursor_depth }

def append (obj : uint256) : Result IncrementalWitness :=
  match w.cursor with
  | some cursor => w.appendCursor H Depth cursor obj
  | none => w.appendNext H Depth (w.tree.nextDepth w.filled.length) obj

/-- A tree that is checked once it is read. -/
def checkedTree : Codec IncrementalMerkleTree :=
  IncrementalMerkleTree.codec.guard fun tree => tree.wfcheck Depth = .ok ()

/-- The fields of a witness that are written: `tree`, `filled`, `cursor`. -/
def codec : Codec (IncrementalMerkleTree × List uint256 × Option IncrementalMerkleTree) :=
  (checkedTree Depth).pair ((vector (blob 32)).pair (Codec.option (checkedTree Depth)))

/-- The check of the cursor when it is written. -/
def wfcheckCursor : Result Unit :=
  match w.cursor with
  | none => .ok ()
  | some cursor => cursor.wfcheck Depth

/-- The witness is written and read back; the reader computes the depth of the cursor. -/
def roundTrip : Result IncrementalWitness := do
  w.tree.wfcheck Depth
  w.wfcheckCursor Depth
  let ((tree, filled, cursor), _) ← readStream (codec Depth) ((codec Depth).write (w.tree, w.filled, w.cursor))
  return ⟨tree, filled, cursor, tree.nextDepth filled.length⟩

end Model

/-! ## The later leaves -/

section Later

variable {H : MerkleHash} {D : Nat}

variable (H) in
/-- The subtree under way has the leaves `r`; `rest` are the depths of the subtrees that are not full. -/
inductive Cursor : (cursor : Option IncrementalMerkleTree) → (cursor_depth : Nat) → (rest : List Nat) →
    (r : List uint256) → Prop
  | none (cursor_depth : Nat) (rest : List Nat) : Cursor none cursor_depth rest []
  | some {cursor : IncrementalMerkleTree} {s : Nat} {rest : List Nat} {r : List uint256}
      (tree : cursor.Represents H r) (pos : r ≠ []) (lt : r.length < 2 ^ s) : Cursor (some cursor) s (s :: rest) r

/-- The witness of the last one of `leaves` after the leaves `later`: the first subtrees to the right, of the depths
`done`, are full and have the leaves `blocks`. -/
structure Filled (H : MerkleHash) (D : Nat) (w : IncrementalWitness) (later : List uint256) (done rest : List Nat)
    (blocks : List (List uint256)) (r : List uint256) : Prop where
  slots : w.tree.slots D = done ++ rest
  fill : Fill done blocks
  later : later = blocks.flatten ++ r
  filled : w.filled = List.zipWith H.rootOf done blocks
  cursor : Cursor H w.cursor w.cursor_depth rest r

structure Witnesses (H : MerkleHash) (D : Nat) (w : IncrementalWitness) (leaves later : List uint256) : Prop where
  tree : w.tree.Represents H leaves
  nonempty : leaves ≠ []
  filled : ∃ done rest blocks r, Filled H D w later done rest blocks r

variable {w : IncrementalWitness} {leaves later : List uint256} {done rest : List Nat} {blocks : List (List uint256)}
  {r : List uint256}

theorem witnesses_witness {tree : IncrementalMerkleTree} (h : tree.Represents H leaves) (hne : leaves ≠ []) :
    Witnesses H D tree.witness leaves [] :=
  ⟨h, hne, [], tree.slots D, [], [], rfl, .nil, rfl, rfl, .none _ _⟩

variable {s : Nat}

theorem Cursor.one_le (hpos : r ≠ []) (hlt : r.length < 2 ^ s) : 1 ≤ s := by
  have := List.length_pos_iff.mpr hpos
  by_contra hzero
  obtain rfl : s = 0 := by omega
  rw [Nat.pow_zero] at hlt
  omega

theorem Filled.length_eq (h : Filled H D w later done rest blocks r) : w.filled.length = done.length := by
  rw [h.filled, List.length_zipWith, h.fill.length_eq, Nat.min_self]

/-- The witness fills in the subtrees that the later leaves make. -/
theorem Filled.partialPath (h : Filled H D w later done rest blocks r) :
    w.partialPath H = blockRoots H.combine (H.emptyRoot 0) (w.tree.slots D) later := by
  rw [h.slots, h.later, blockRoots_flatten h.fill, IncrementalWitness.partialPath, h.filled]
  have hcursor := h.cursor
  generalize w.cursor_depth = depth at hcursor
  generalize w.cursor = cursor at hcursor
  cases hcursor with
  | none => rw [blockRoots_nil_right, List.append_nil]
  | some tree hpos hlt =>
    rw [blockRoots_cons hpos, List.take_of_length_le (Nat.le_of_lt hlt), List.drop_of_length_le (Nat.le_of_lt hlt),
      blockRoots_nil_right]
    dsimp only
    rw [tree.root (Cursor.one_le hpos hlt) (Nat.le_of_lt hlt)]

theorem Witnesses.le_capacity (hcap : (leaves ++ later).length ≤ 2 ^ D) : leaves.length ≤ 2 ^ D := by
  rw [List.length_append] at hcap
  omega

theorem Witnesses.root (h : Witnesses H D w leaves later) (hD : 1 ≤ D) (hcap : (leaves ++ later).length ≤ 2 ^ D) :
    w.root H D = H.rootOf D (leaves ++ later) := by
  obtain ⟨done, rest, blocks, r, hfilled⟩ := h.filled
  rw [IncrementalWitness.root, hfilled.partialPath]
  exact h.tree.root_filled hD hcap h.nonempty

theorem Witnesses.exists_slot (h : Witnesses H D w leaves later) (hD : 1 ≤ D)
    (hlt : (leaves ++ later).length < 2 ^ D) (hfilled : Filled H D w later done rest blocks []) :
    ∃ s rest', rest = s :: rest' := by
  cases rest with
  | cons s rest => exact ⟨s, rest, rfl⟩
  | nil =>
    have hslots := h.tree.capacity hD h.nonempty (Witnesses.le_capacity hlt.le)
    rw [hfilled.slots, List.append_nil, ← hfilled.fill.length_flatten] at hslots
    rw [hfilled.later, List.append_nil, List.length_append] at hlt
    omega

theorem Filled.snoc {b : List uint256} {w' : IncrementalWitness} {obj : uint256}
    (h : Filled H D w later done (s :: rest) blocks r) (htree : w'.tree = w.tree) (hb : b.length = 2 ^ s)
    (hr : r ++ [obj] = b) (hfilled : w'.filled = w.filled ++ [H.rootOf s b]) (hcursor : w'.cursor = none) :
    Filled H D w' (later ++ [obj]) (done ++ [s]) rest (blocks ++ [b]) [] where
  slots := by rw [htree, h.slots, List.append_assoc]; rfl
  fill := List.rel_append h.fill (.cons hb .nil)
  later := by
    rw [h.later, List.append_assoc, hr, List.flatten_append, List.flatten_singleton, List.append_nil]
  filled := by
    rw [hfilled, h.filled, List.zipWith_append h.fill.length_eq]
    rfl
  cursor := by rw [hcursor]; exact .none _ _

theorem Filled.grow {w' : IncrementalWitness} {obj : uint256} {cursor : IncrementalMerkleTree}
    (h : Filled H D w later done (s :: rest) blocks r) (htree : w'.tree = w.tree) (hfilled : w'.filled = w.filled)
    (hcursor : w'.cursor = some cursor) (hdepth : w'.cursor_depth = s) (hrep : cursor.Represents H (r ++ [obj]))
    (hlt : (r ++ [obj]).length < 2 ^ s) :
    Filled H D w' (later ++ [obj]) done (s :: rest) blocks (r ++ [obj]) where
  slots := by rw [htree, h.slots]
  fill := h.fill
  later := by rw [h.later, List.append_assoc]
  filled := by rw [hfilled, h.filled]
  cursor := by rw [hcursor, hdepth]; exact .some hrep (List.append_ne_nil_of_right_ne_nil _ (List.cons_ne_nil _ _)) hlt

theorem Witnesses.append (h : Witnesses H D w leaves later) (hD : 1 ≤ D) (obj : uint256)
    (hlt : (leaves ++ later).length < 2 ^ D) :
    ∃ w', w.append H D obj = .ok w' ∧ Witnesses H D w' leaves (later ++ [obj]) := by
  obtain ⟨done, rest, blocks, r, hfilled⟩ := h.filled
  have hslot : ∀ {s : Nat}, s ∈ rest → s < D := by
    intro s hs
    have hmem := (h.tree.slots_sublist hD h.nonempty (Witnesses.le_capacity hlt.le)).subset
      (by rw [hfilled.slots]; exact List.mem_append_right done hs)
    simpa using hmem
  have hcursor := hfilled.cursor
  generalize hdepth : w.cursor_depth = depth at hcursor
  generalize hcur : w.cursor = cursor at hcursor
  unfold IncrementalWitness.append
  rw [hcur]
  cases hcursor with
  | none =>
    obtain ⟨s, rest, rfl⟩ := h.exists_slot hD hlt hfilled
    have hs : s < D := hslot List.mem_cons_self
    have hreq : require (.exception "tree is full") (s < D) = (.ok () : Result Unit) := require_eq_ok.mpr hs
    rw [hfilled.length_eq, h.tree.nextDepth_eq h.nonempty hfilled.slots, appendNext, hreq, ok_bind]
    by_cases hzero : s = 0
    · subst hzero
      rw [if_pos rfl]
      have hroot : H.rootOf 0 [obj] = obj := rfl
      exact ⟨_, rfl, h.tree, h.nonempty, _, _, _, _, hfilled.snoc (b := [obj]) rfl rfl rfl (by rw [hroot]) hcur⟩
    · have hpow : 2 ^ 1 ≤ 2 ^ s := Nat.pow_le_pow_right (by decide) (by omega)
      obtain ⟨cursor, happ, hrep⟩ := IncrementalMerkleTree.Represents.empty.append (H := H) hD obj (Nat.two_pow_pos D)
      rw [if_neg hzero, happ, ok_bind]
      exact ⟨_, rfl, h.tree, h.nonempty, _, _, _, _, hfilled.grow rfl rfl rfl rfl hrep hpow⟩
  | some hrep hpos hr =>
    subst hdepth
    have hs : w.cursor_depth < D := hslot List.mem_cons_self
    have hpow : 2 ^ w.cursor_depth ≤ 2 ^ D := Nat.pow_le_pow_right (by decide) hs.le
    obtain ⟨cursor', happ, hrep'⟩ := hrep.append hD obj (by omega)
    have hone : 1 ≤ w.cursor_depth := Cursor.one_le hpos hr
    have hlen : (r ++ [obj]).length = r.length + 1 := by rw [List.length_append, List.length_singleton]
    dsimp only
    rw [appendCursor, happ, ok_bind]
    by_cases hfull : cursor'.isComplete w.cursor_depth = true
    · have hb := (hrep'.isComplete_iff hone).mp hfull
      rw [if_pos hfull]
      exact ⟨_, rfl, h.tree, h.nonempty, _, _, _, _, hfilled.snoc rfl hb rfl (by rw [hrep'.root hone hb.le]) rfl⟩
    · have hb := mt (hrep'.isComplete_iff hone).mpr hfull
      rw [if_neg hfull]
      exact ⟨_, rfl, h.tree, h.nonempty, _, _, _, _, hfilled.grow rfl rfl rfl rfl hrep' (by omega)⟩

theorem Filled.length_filled (h : Filled H D w later done rest blocks r) (hsorted : (w.tree.slots D).Pairwise (· < ·)) :
    2 ^ w.filled.length ≤ later.length + 1 := by
  rw [h.slots] at hsorted
  have hpow := pow_length_le_sum (d := 0) (List.pairwise_append.mp hsorted).1 fun _ _ => Nat.zero_le _
  rw [Nat.zero_add, Nat.pow_zero, ← h.fill.length_flatten] at hpow
  rw [h.length_eq, h.later, List.length_append]
  omega

/-- A witness read back has of the leaves what it had. Between two subtrees the depth of the cursor is not that of the
one written, and nothing reads it there. -/
theorem Witnesses.roundTrip (h : Witnesses H D w leaves later) (hD : 1 ≤ D) (hcap : (leaves ++ later).length ≤ 2 ^ D)
    (hsize : (leaves ++ later).length ≤ 2 ^ MAX_SIZE) :
    ∃ w', w.roundTrip D = .ok w' ∧ Witnesses H D w' leaves later := by
  obtain ⟨done, rest, blocks, r, hfilled⟩ := h.filled
  have htree := h.tree.wfcheck hD (Witnesses.le_capacity hcap)
  have hparents := (h.tree.length_parents (by decide) (Witnesses.le_capacity hsize)).le
  have hr : ∀ {n : Nat}, (leaves ++ later).length ≤ n → r.length ≤ n := by
    intro n hn
    rw [hfilled.later, List.length_append, List.length_append] at hn
    omega
  have hfill : w.filled.length ≤ MAX_SIZE := by
    have hlow := hfilled.length_filled (List.Pairwise.sublist
      (h.tree.slots_sublist hD h.nonempty (Witnesses.le_capacity hcap)) List.pairwise_lt_range')
    have hpos := List.length_pos_iff.mpr h.nonempty
    rw [List.length_append] at hsize
    exact (Nat.pow_le_pow_iff_right (by decide)).mp (hlow.trans (by omega))
  -- the cursor passes the checks, and its depth is computed again
  have hcursor := hfilled.cursor
  generalize hcur : w.cursor = cursor at hcursor
  generalize hdepth : w.cursor_depth = depth at hcursor
  have hwf : w.wfcheckCursor D = .ok () := by
    rw [wfcheckCursor, hcur]
    cases hcursor with
    | none => rfl
    | some hrep hpos hlt => exact hrep.wfcheck hD (hr hcap)
  have hvalid : (codec D).valid (w.tree, w.filled, w.cursor) := by
    refine ⟨⟨IncrementalMerkleTree.codec_valid hparents, htree⟩, ⟨hfill, fun _ _ => trivial⟩, fun c hc => ?_⟩
    rw [hcur] at hc
    cases hcursor with
    | none => cases hc
    | some hrep hpos hlt =>
      cases hc
      exact ⟨IncrementalMerkleTree.codec_valid (hrep.length_parents (by decide) (hr hsize)).le,
        hrep.wfcheck hD (hr hcap)⟩
  have hread : readStream (codec D) ((codec D).write (w.tree, w.filled, w.cursor)) =
      .ok ((w.tree, w.filled, w.cursor), []) := by
    rw [readStream, (codec D).read_write_nil hvalid]
  have hnext : Cursor H w.cursor (w.tree.nextDepth w.filled.length) rest r := by
    rw [hcur, hfilled.length_eq]
    cases hcursor with
    | none => exact .none _ _
    | some hrep hpos hlt =>
      rw [h.tree.nextDepth_eq h.nonempty hfilled.slots]
      exact .some hrep hpos hlt
  unfold IncrementalWitness.roundTrip
  rw [htree, ok_bind, hwf, ok_bind, hread, ok_bind]
  exact ⟨_, rfl, h.tree, h.nonempty, done, rest, blocks, r,
    ⟨hfilled.slots, hfilled.fill, hfilled.later, hfilled.filled, hnext⟩⟩

/-! ## Runs -/

def step (H : MerkleHash) (Depth : Nat) (w : IncrementalWitness) : IncrementalMerkleTree.Op → Result IncrementalWitness
  | .append obj => w.append H Depth obj
  | .roundTrip => w.roundTrip Depth

def run (H : MerkleHash) (Depth : Nat) (w : IncrementalWitness) (ops : List IncrementalMerkleTree.Op) :
    Result IncrementalWitness :=
  ops.foldlM (step H Depth) w

open IncrementalMerkleTree (leavesOf)

theorem Witnesses.run (hD : 1 ≤ D) (ops : List IncrementalMerkleTree.Op) (h : Witnesses H D w leaves later)
    (hcap : (leaves ++ (later ++ leavesOf ops)).length ≤ 2 ^ D)
    (hser : .roundTrip ∈ ops → (leaves ++ (later ++ leavesOf ops)).length ≤ 2 ^ MAX_SIZE) :
    ∃ w', w.run H D ops = .ok w' ∧ Witnesses H D w' leaves (later ++ leavesOf ops) := by
  exact IncrementalMerkleTree.run_keeps (step H D) leaves (fun obj h hlt => h.append hD obj hlt)
    (fun h hle hsize => h.roundTrip hD hle hsize) ops h hcap hser

end Later

/-- What a witness of the leaf at a position shows, where the tree of all leaves has the given root. -/
structure Shows (H : MerkleHash) (D : Nat) (w : IncrementalWitness) (leaf : uint256) (position : Nat)
    (root : uint256) : Prop where
  root_eq : w.root H D = root
  element_eq : w.element = .ok leaf
  position_eq : ∃ p, w.position = some p ∧ p.toNat = position
  path_eq : ∃ steps, w.path H D = .ok (.ofSteps steps) ∧
    IncrementalMerkleTree.Authenticates H D leaf position root steps

variable {H : MerkleHash} {D : Nat} {w : IncrementalWitness} {before later : List uint256} {leaf : uint256}

/-- `position` is right as long as the sum of `size` stays in an `int`. -/
theorem Witnesses.position_iff (h : Witnesses H D w (before ++ [leaf]) later) :
    (∃ p, w.position = some p ∧ p.toNat = before.length) ↔ before.length < 2 ^ 31 := by
  have hlen : (before ++ [leaf]).length = before.length + 1 := by rw [List.length_append, List.length_singleton]
  constructor
  · rintro ⟨p, hposition, hp⟩
    by_contra hge
    obtain ⟨size, hsize, rfl⟩ := Option.map_eq_some_iff.mp hposition
    exact h.tree.size_ne (by omega) hsize (by omega)
  · intro hlt
    refine ⟨_, by rw [position, h.tree.size_eq (by omega)]; rfl, ?_⟩
    have hone : (1 : BitVec 64).toNat = 1 := rfl
    rw [BitVec.toNat_sub, BitVec.toNat_ofNat, hone, hlen]
    omega

theorem Witnesses.shows_iff (h : Witnesses H D w (before ++ [leaf]) later) (hD : 1 ≤ D)
    (hcap : (before ++ [leaf] ++ later).length ≤ 2 ^ D) :
    w.Shows H D leaf before.length (H.rootOf D (before ++ [leaf] ++ later)) ↔ before.length < 2 ^ 31 := by
  refine ⟨fun hshows => h.position_iff.mp hshows.position_eq, fun hlt => ?_⟩
  have hroot := h.root hD hcap
  obtain ⟨steps, hpath, hauth⟩ := h.tree.path hD (Witnesses.le_capacity hcap) (w.partialPath H)
  exact ⟨hroot, h.tree.last.2.1, h.position_iff.mpr hlt, steps, hpath, by rw [← hroot]; exact hauth⟩

theorem leavesOf_map_append (leaves : List uint256) :
    IncrementalMerkleTree.leavesOf (leaves.map .append) = leaves := by
  rw [IncrementalMerkleTree.leavesOf, List.filterMap_map]
  exact List.filterMap_some

theorem roundTrip_notMem {leaves : List uint256} : IncrementalMerkleTree.Op.roundTrip ∉ leaves.map .append := by
  simp

theorem exists_tree (H : MerkleHash) {Depth : Nat} (leaves : List uint256) (hcap : leaves.length ≤ 2 ^ Depth) :
    ∃ tree : IncrementalMerkleTree, ({} : IncrementalMerkleTree).run H Depth (leaves.map .append) = .ok tree ∧
      tree.Represents H leaves := by
  rcases Nat.eq_zero_or_pos Depth with rfl | hD
  · rcases leaves with _ | ⟨x, _ | ⟨y, leaves⟩⟩
    · exact ⟨_, rfl, .empty⟩
    · exact ⟨_, rfl, .one x (.nil 1) (by simp)⟩
    · simp at hcap
  · obtain ⟨tree, hrun, h⟩ := IncrementalMerkleTree.Represents.empty.run (H := H) hD (leaves.map .append)
      (by rw [List.nil_append, leavesOf_map_append]; exact hcap) fun hmem => absurd hmem roundTrip_notMem
    rw [List.nil_append, leavesOf_map_append] at h
    exact ⟨tree, hrun, h⟩

open IncrementalMerkleTree (leavesOf) in
theorem exists_run (H : MerkleHash) (hD : 1 ≤ D) (before : List uint256) (leaf : uint256)
    (ops : List IncrementalMerkleTree.Op) (hcap : (before ++ [leaf] ++ leavesOf ops).length ≤ 2 ^ D)
    (hser : .roundTrip ∈ ops → (before ++ [leaf] ++ leavesOf ops).length ≤ 2 ^ MAX_SIZE) :
    ∃ (tree tree' : IncrementalMerkleTree) (w : IncrementalWitness),
      ({} : IncrementalMerkleTree).run H D ((before ++ [leaf]).map .append) = .ok tree ∧
      tree.run H D ops = .ok tree' ∧ tree.witness.run H D ops = .ok w ∧
      tree'.Represents H (before ++ [leaf] ++ leavesOf ops) ∧ Witnesses H D w (before ++ [leaf]) (leavesOf ops) := by
  have hne : before ++ [leaf] ≠ [] := List.append_ne_nil_of_right_ne_nil _ (List.cons_ne_nil _ _)
  obtain ⟨tree, hrun, h⟩ := exists_tree H (before ++ [leaf]) (Witnesses.le_capacity hcap)
  obtain ⟨tree', hrun', h'⟩ := h.run hD ops hcap hser
  obtain ⟨w, hw, hwit⟩ := (witnesses_witness (D := D) h hne).run hD ops hcap hser
  rw [List.nil_append] at hwit
  exact ⟨tree, tree', w, hrun, hrun', hw, h', hwit⟩

theorem exists_witness (H : MerkleHash) {Depth : Nat} (before : List uint256) (leaf : uint256) (later : List uint256)
    (hcap : (before ++ [leaf] ++ later).length ≤ 2 ^ Depth) :
    ∃ (tree : IncrementalMerkleTree) (w : IncrementalWitness),
      ({} : IncrementalMerkleTree).run H Depth ((before ++ [leaf]).map .append) = .ok tree ∧
      tree.witness.run H Depth (later.map .append) = .ok w ∧ Witnesses H Depth w (before ++ [leaf]) later := by
  obtain ⟨tree, hrun, h⟩ := exists_tree H (before ++ [leaf]) (Witnesses.le_capacity hcap)
  have hwit := witnesses_witness (D := Depth) h (List.append_ne_nil_of_right_ne_nil _ (List.cons_ne_nil _ _))
  rcases Nat.eq_zero_or_pos Depth with rfl | hD
  · -- at depth 0 the leaf is the only one
    simp only [List.length_append, List.length_singleton, Nat.pow_zero] at hcap
    obtain rfl : later = [] := List.length_eq_zero_iff.mp (by omega)
    exact ⟨tree, tree.witness, hrun, rfl, hwit⟩
  · obtain ⟨w, hw, hlater⟩ := hwit.run hD (later.map .append)
      (by rw [List.nil_append, leavesOf_map_append]; exact hcap) fun hmem => absurd hmem roundTrip_notMem
    rw [List.nil_append, leavesOf_map_append] at hlater
    exact ⟨tree, w, hrun, hw, hlater⟩

end IncrementalWitness

open IncrementalMerkleTree (leavesOf) in
/-- A witness made after a leaf and fed the later leaves, with round trips anywhere: what it shows is right exactly if
the position of the leaf is below `2 ^ 31`. -/
theorem witness_shows_leaf_iff (H : MerkleHash) {Depth : Nat} (hD : 1 ≤ Depth) (before : List uint256) (leaf : uint256)
    (ops : List IncrementalMerkleTree.Op)
    (hcap : (before ++ [leaf] ++ leavesOf ops).length ≤ 2 ^ Depth)
    (hser : .roundTrip ∈ ops → (before ++ [leaf] ++ leavesOf ops).length ≤ 2 ^ MAX_SIZE) :
    ∃ (tree tree' : IncrementalMerkleTree) (w : IncrementalWitness),
      ({} : IncrementalMerkleTree).run H Depth ((before ++ [leaf]).map .append) = .ok tree ∧
      tree.run H Depth ops = .ok tree' ∧ tree.witness.run H Depth ops = .ok w ∧
      (w.Shows H Depth leaf before.length (tree'.root H Depth []) ↔ before.length < 2 ^ 31) := by
  obtain ⟨tree, tree', w, hrun, hrun', hw, h', hwit⟩ := IncrementalWitness.exists_run H hD before leaf ops hcap hser
  refine ⟨tree, tree', w, hrun, hrun', hw, ?_⟩
  rw [h'.root hD hcap]
  exact hwit.shows_iff hD hcap

namespace Sample

def witnessOps : List IncrementalMerkleTree.Op :=
  [.append 8, .append 9, .roundTrip, .append 10, .append 11, .roundTrip, .append 12]

def manyLeaves : List uint256 := List.replicate (2 ^ 31) 0

theorem length_manyLeaves : (manyLeaves ++ [7]).length = 2 ^ 31 + 1 := by
  rw [List.length_append, manyLeaves, List.length_replicate, List.length_singleton]

theorem exists_tree_manyLeaves : ∃ tree : IncrementalMerkleTree,
    ({} : IncrementalMerkleTree).run merkleHash 32 ((manyLeaves ++ [7]).map .append) = .ok tree ∧
      tree.Represents merkleHash (manyLeaves ++ [7]) :=
  IncrementalWitness.exists_tree merkleHash _ (by rw [length_manyLeaves]; decide)

end Sample

open Sample

theorem witness_shows_leaf_three : ∃ (tree tree' : IncrementalMerkleTree) (w : IncrementalWitness),
    ({} : IncrementalMerkleTree).run merkleHash 4 [.append 5, .append 6, .append 7] = .ok tree ∧
    tree.run merkleHash 4 witnessOps = .ok tree' ∧
    tree.witness.run merkleHash 4 witnessOps = .ok w ∧
    w.Shows merkleHash 4 7 2 (tree'.root merkleHash 4 []) := by
  obtain ⟨tree, tree', w, hrun, hrun', hw, hshows⟩ := witness_shows_leaf_iff merkleHash (by decide : 1 ≤ 4)
    [5, 6] 7 witnessOps (by decide) fun _ =>
      Nat.le_trans (by decide : 8 ≤ 2 ^ 3) (Nat.pow_le_pow_right (by decide) (by decide))
  exact ⟨tree, tree', w, hrun, hrun', hw, hshows.mpr (by decide)⟩

/-- The leaf after the first `2 ^ 31` ones: its position is not the one that the witness gives. -/
theorem witness_position_wrong : ∃ tree : IncrementalMerkleTree,
    ({} : IncrementalMerkleTree).run merkleHash 32 ((manyLeaves ++ [7]).map .append) = .ok tree ∧
      ¬ ∃ p, tree.witness.position = some p ∧ p.toNat = 2 ^ 31 := by
  obtain ⟨tree, hrun, h⟩ := exists_tree_manyLeaves
  have hposition := (IncrementalWitness.witnesses_witness (D := 32) h (by simp)).position_iff
  rw [manyLeaves, List.length_replicate] at hposition
  exact ⟨tree, hrun, fun hright => absurd (hposition.mp hright) (by decide)⟩

/-- The size of the tree and the positions of the witnesses of its leaves are right, and no shift leaves the `int`,
exactly if there are at most `2 ^ 31` leaves. -/
theorem tree_size_iff (H : MerkleHash) {Depth : Nat} (leaves : List uint256) (hcap : leaves.length ≤ 2 ^ Depth) :
    ∃ tree : IncrementalMerkleTree, ({} : IncrementalMerkleTree).run H Depth (leaves.map .append) = .ok tree ∧
      (((∃ size, tree.size = some size ∧ size.toNat = leaves.length) ∧
          (∀ i p, tree.parents[i]? = some (some p) → i + 1 < 31) ∧
          ∀ before leaf later, leaves = before ++ [leaf] ++ later → ∃ (tree : IncrementalMerkleTree) (w : IncrementalWitness),
            ({} : IncrementalMerkleTree).run H Depth ((before ++ [leaf]).map .append) = .ok tree ∧
            tree.witness.run H Depth (later.map .append) = .ok w ∧
            ∃ p, w.position = some p ∧ p.toNat = before.length) ↔
        leaves.length ≤ 2 ^ 31) := by
  obtain ⟨tree, hrun, h⟩ := IncrementalWitness.exists_tree H leaves hcap
  refine ⟨tree, hrun, fun hall => h.size_iff.mp hall.1, fun hle => ⟨h.size_iff.mpr hle, ?_, ?_⟩⟩
  · intro i p hp
    exact h.shift_lt hle hp
  · intro before leaf later hsplit
    rw [hsplit] at hcap
    obtain ⟨tree, w, htree, hw, hwit⟩ := IncrementalWitness.exists_witness H before leaf later hcap
    refine ⟨tree, w, htree, hw, hwit.position_iff.mpr ?_⟩
    rw [hsplit, List.length_append, List.length_append, List.length_singleton] at hle
    omega

theorem tree_size_three : ∃ tree : IncrementalMerkleTree,
    ({} : IncrementalMerkleTree).run merkleHash 2 [.append 5, .append 6, .append 7] = .ok tree ∧
      ∃ size, tree.size = some size ∧ size.toNat = 3 := by
  obtain ⟨tree, hrun, hright⟩ := tree_size_iff merkleHash [5, 6, 7] (by decide : 3 ≤ 2 ^ 2)
  exact ⟨tree, hrun, (hright.mpr (by decide)).1⟩

theorem tree_size_wrong : ∃ tree : IncrementalMerkleTree,
    ({} : IncrementalMerkleTree).run merkleHash 32 ((manyLeaves ++ [7]).map .append) = .ok tree ∧
      ¬ ∃ size, tree.size = some size ∧ size.toNat = 2 ^ 31 + 1 := by
  obtain ⟨tree, hrun, h⟩ := exists_tree_manyLeaves
  have hsize := h.size_iff
  rw [length_manyLeaves] at hsize
  exact ⟨tree, hrun, fun hright => absurd (hsize.mp hright) (by decide)⟩

end TrumpCoin
