import Mathlib.Data.Nat.Bitwise
import Mathlib.Tactic.IntervalCases
import TrumpCoin.Stake.CoinStake

/-!
# Targets

`SetCompact` and `GetCompact` of `arith_uint256.cpp`, `pow.cpp`, and the weight of a stake in `CheckKernelHash`. A
256-bit number is a natural number that the operators keep below `2 ^ 256`.

* `compactOverflow_iff`, `compactNegative_iff`, `compact_getCompact`: the compact form and the number it stands for;
* `proof_of_work_iff`: what `CheckProofOfWork` proves;
* `stake_weight_iff`: when the weight of a stake counts as it should;
* `retargets_exactly_iff`: when the next target is exact.
-/

namespace TrumpCoin
open Lib

/-! ## The compact form -/

section

variable (nCompact : BitVec 32)

/-- `nWord` of `SetCompact` after the shift. -/
def compactWord : Nat :=
  let nSize := nCompact.toNat >>> 24
  let nWord := nCompact.toNat &&& 0x007fffff
  if nSize ≤ 3 then nWord >>> (8 * (3 - nSize)) else nWord

/-- `*pfNegative` of `SetCompact`. -/
def compactNegative : Bool := compactWord nCompact ≠ 0 ∧ nCompact.toNat &&& 0x00800000 ≠ 0

/-- `*pfOverflow` of `SetCompact`. -/
def compactOverflow : Bool :=
  let nSize := nCompact.toNat >>> 24
  compactWord nCompact ≠ 0 ∧ (34 < nSize ∨ (0xff < compactWord nCompact ∧ 33 < nSize) ∨
    (0xffff < compactWord nCompact ∧ 32 < nSize))

/-- What the number in compact form stands for, without its sign. -/
def compactMagnitude : Nat := nCompact.toNat % 2 ^ 23 * 256 ^ (nCompact.toNat / 2 ^ 24) / 256 ^ 3

def compactValue : Int :=
  if nCompact.toNat / 2 ^ 23 % 2 = 1 then -(compactMagnitude nCompact : Int) else compactMagnitude nCompact

theorem compactMagnitude_le (h : nCompact.toNat / 2 ^ 24 ≤ 3) :
    compactMagnitude nCompact = nCompact.toNat % 2 ^ 23 / 2 ^ (8 * (3 - nCompact.toNat / 2 ^ 24)) := by
  unfold compactMagnitude
  generalize nCompact.toNat / 2 ^ 24 = k at *
  interval_cases k <;> omega

theorem compactMagnitude_gt (h : 3 < nCompact.toNat / 2 ^ 24) :
    compactMagnitude nCompact = nCompact.toNat % 2 ^ 23 * 2 ^ (8 * (nCompact.toNat / 2 ^ 24 - 3)) := by
  unfold compactMagnitude
  obtain ⟨k, hk⟩ : ∃ k, nCompact.toNat / 2 ^ 24 = k + 3 := ⟨_, (Nat.sub_add_cancel h.le).symm⟩
  rw [hk, Nat.pow_add, ← Nat.mul_assoc, Nat.mul_div_cancel _ (by decide), Nat.add_sub_cancel, Nat.pow_mul]

theorem compactWord_eq : compactWord nCompact =
    if nCompact.toNat / 2 ^ 24 ≤ 3 then compactMagnitude nCompact else nCompact.toNat % 2 ^ 23 := by
  unfold compactWord
  rw [show (0x007fffff : Nat) = 2 ^ 23 - 1 from rfl, Nat.and_two_pow_sub_one_eq_mod]
  dsimp only
  rw [Nat.shiftRight_eq_div_pow, Nat.shiftRight_eq_div_pow]
  split
  · rw [compactMagnitude_le _ ‹_›]
  · rfl

theorem setCompact_eq : setCompact nCompact = compactMagnitude nCompact % 2 ^ 256 := by
  unfold setCompact
  rw [show (0x007fffff : Nat) = 2 ^ 23 - 1 from rfl, Nat.and_two_pow_sub_one_eq_mod]
  dsimp only
  rw [Nat.shiftRight_eq_div_pow, Nat.shiftRight_eq_div_pow, Nat.shiftLeft_eq]
  split_ifs with h
  · rw [compactMagnitude_le _ h]
    refine (Nat.mod_eq_of_lt ?_).symm
    exact (Nat.div_le_self _ _).trans_lt
      ((Nat.mod_lt _ (show 0 < 2 ^ 23 by decide)).trans (show 2 ^ 23 < 2 ^ 256 by decide))
  · rw [compactMagnitude_gt _ (by omega)]

theorem compactWord_ne_zero : compactWord nCompact ≠ 0 ↔ compactMagnitude nCompact ≠ 0 := by
  rw [compactWord_eq]
  split
  · rfl
  · rw [compactMagnitude_gt _ (by omega), Nat.mul_ne_zero_iff, and_iff_left (Nat.two_pow_pos _).ne']

theorem and_signBit (x : Nat) : x &&& 0x00800000 ≠ 0 ↔ x / 2 ^ 23 % 2 = 1 := by
  rw [show (0x00800000 : Nat) = 2 ^ 23 from rfl, Nat.and_two_pow, Nat.testBit_eq_decide_div_mod_eq]
  by_cases h : x / 2 ^ 23 % 2 = 1 <;> simp only [h] <;> decide

theorem compactNegative_iff : compactNegative nCompact = true ↔ compactValue nCompact < 0 := by
  unfold compactNegative compactValue
  rw [decide_eq_true_eq, compactWord_ne_zero, and_signBit]
  split <;> omega

theorem compactOverflow_iff : compactOverflow nCompact = true ↔ 2 ^ 256 ≤ compactMagnitude nCompact := by
  have hw : nCompact.toNat % 2 ^ 23 < 2 ^ 23 := Nat.mod_lt _ (by decide)
  have hk : nCompact.toNat / 2 ^ 24 < 256 := by have := nCompact.isLt; omega
  unfold compactOverflow
  rw [decide_eq_true_eq, compactWord_ne_zero, compactWord_eq, Nat.shiftRight_eq_div_pow]
  rcases Nat.lt_or_ge 3 (nCompact.toNat / 2 ^ 24) with h | h
  · rw [if_neg (by omega), compactMagnitude_gt _ h]
    generalize nCompact.toNat % 2 ^ 23 = w at *
    generalize nCompact.toNat / 2 ^ 24 = k at *
    rcases Nat.lt_or_ge 34 k with hbig | hsmall
    · rw [and_iff_left (.inl hbig), Nat.mul_ne_zero_iff, and_iff_left (Nat.two_pow_pos _).ne']
      constructor
      · intro hne
        calc 2 ^ 256 ≤ 2 ^ (8 * (k - 3)) := Nat.pow_le_pow_right (by decide) (by omega)
          _ ≤ w * 2 ^ (8 * (k - 3)) := Nat.le_mul_of_pos_left _ (Nat.pos_of_ne_zero hne)
      · rintro hle rfl
        omega
    · interval_cases k <;> omega
  · rw [if_pos h, compactMagnitude_le _ h]
    have : nCompact.toNat % 2 ^ 23 / 2 ^ (8 * (3 - nCompact.toNat / 2 ^ 24)) < 2 ^ 23 :=
      (Nat.div_le_self _ _).trans_lt hw
    omega
end

/-- The word before the test of the sign bit, and the number of bytes. -/
theorem exists_word {x : Nat} (hpos : 0 < x) (hlt : x < 2 ^ 256) : ∃ w k, 2 ^ 16 ≤ w ∧ w < 2 ^ 24 ∧ 1 ≤ k ∧ k ≤ 32 ∧
    w * 256 ^ k ≤ x * 256 ^ 3 ∧ getCompact x = BitVec.ofNat 32 (if w &&& 0x00800000 ≠ 0 then w >>> 8 ||| (k + 1) <<< 24
      else w ||| k <<< 24) := by
  have hlog : x.log2 < 256 := (Nat.log2_lt hpos.ne').mpr hlt
  have hle : 2 ^ x.log2 ≤ x := Nat.log2_self_le hpos.ne'
  have hgt : x < 2 ^ (x.log2 + 1) := Nat.lt_log2_self
  obtain ⟨k, hk⟩ : ∃ k, (x.log2 + 1 + 7) / 8 = k := ⟨_, rfl⟩
  have hlow : 256 ^ (k - 1) ≤ x := by
    rw [show (256 : Nat) = 2 ^ 8 from rfl, ← Nat.pow_mul]
    exact (Nat.pow_le_pow_right (by decide) (by omega)).trans hle
  have hhigh : x < 256 ^ k := by
    rw [show (256 : Nat) = 2 ^ 8 from rfl, ← Nat.pow_mul]
    exact hgt.trans_le (Nat.pow_le_pow_right (by decide) (by omega))
  unfold getCompact
  rw [if_neg hpos.ne', hk]
  dsimp only
  -- what is left after the shift is the word
  suffices hword : ∃ w, 2 ^ 16 ≤ w ∧ w < 2 ^ 24 ∧ w * 256 ^ k ≤ x * 256 ^ 3 ∧
      (if k ≤ 3 then (x % 2 ^ 64) <<< (8 * (3 - k)) else (x >>> (8 * (k - 3))) % 2 ^ 64) % 2 ^ 32 = w by
    obtain ⟨w, hw1, hw2, hw, heq⟩ := hword
    refine ⟨w, k, hw1, hw2, by omega, by omega, hw, ?_⟩
    rw [heq]
    split <;> rfl
  rcases Nat.lt_or_ge 3 k with h3 | h3
  · obtain ⟨j, rfl⟩ : ∃ j, k = j + 3 := ⟨k - 3, by omega⟩
    have hdiv : x / 256 ^ j < 2 ^ 24 := Nat.div_lt_of_lt_mul (by rw [Nat.pow_add] at hhigh; exact hhigh)
    refine ⟨x / 256 ^ j, ?_, hdiv, ?_, ?_⟩
    · rw [Nat.le_div_iff_mul_le (Nat.pow_pos (by decide)), Nat.mul_comm]
      rwa [show j + 3 - 1 = j + 2 by omega, Nat.pow_add] at hlow
    · rw [Nat.pow_add, ← Nat.mul_assoc]
      exact Nat.mul_le_mul_right _ (Nat.div_mul_le_self x _)
    · rw [if_neg (by omega), Nat.shiftRight_eq_div_pow, show j + 3 - 3 = j by omega, Nat.pow_mul,
        Nat.mod_eq_of_lt (hdiv.trans (by decide)), Nat.mod_eq_of_lt (hdiv.trans (by decide))]
  · rw [if_pos h3, Nat.shiftLeft_eq]
    interval_cases k <;> exact ⟨_, by omega, by omega, by omega, rfl⟩

theorem compact_getCompact {x : Nat} (hpos : 0 < x) (hlt : x < 2 ^ 256) :
    0 < compactMagnitude (getCompact x) ∧ compactMagnitude (getCompact x) ≤ x ∧
      compactNegative (getCompact x) = false := by
  obtain ⟨w, k, hw1, hw2, hk1, hk2, hle, heq⟩ := exists_word hpos hlt
  -- a word without the sign bit and its size
  have hform : ∃ w k, 2 ^ 24 ≤ w * 256 ^ k ∧ w < 2 ^ 23 ∧ k < 256 ∧ w * 256 ^ k ≤ x * 256 ^ 3 ∧
      (getCompact x).toNat = w + k * 2 ^ 24 := by
    have hjoin : ∀ {w k : Nat}, w < 2 ^ 24 → k < 256 → (BitVec.ofNat 32 (w ||| k <<< 24)).toNat = w + k * 2 ^ 24 := by
      intro w k hw hk
      rw [Nat.or_comm, ← Nat.shiftLeft_add_eq_or_of_lt hw, Nat.shiftLeft_eq, BitVec.toNat_ofNat]
      omega
    rw [heq]
    split_ifs with hbit
    · rw [and_signBit] at hbit
      rw [Nat.shiftRight_eq_div_pow]
      refine ⟨w / 2 ^ 8, k + 1, ?_, by omega, by omega, le_trans ?_ hle, hjoin (by omega) (by omega)⟩
      · exact (show 2 ^ 24 ≤ 2 ^ 15 * 256 ^ 2 by decide).trans
          (Nat.mul_le_mul (by omega) (Nat.pow_le_pow_right (by decide) (by omega)))
      · rw [Nat.pow_add, Nat.mul_comm (256 ^ k), ← Nat.mul_assoc]
        exact Nat.mul_le_mul_right _ (Nat.div_mul_le_self w _)
    · rw [and_signBit] at hbit
      have hge : 2 ^ 16 * 256 ^ 1 ≤ w * 256 ^ k := Nat.mul_le_mul hw1 (Nat.pow_le_pow_right (by decide) hk1)
      exact ⟨w, k, hge, by omega, by omega, hle, hjoin hw2 (by omega)⟩
  obtain ⟨w, k, hge, hw, hk, hle, heq⟩ := hform
  have hsize : (getCompact x).toNat / 2 ^ 24 = k := by omega
  have hmant : (getCompact x).toNat % 2 ^ 23 = w := by omega
  have hbit : (getCompact x).toNat / 2 ^ 23 % 2 ≠ 1 := by omega
  have hmag : compactMagnitude (getCompact x) = w * 256 ^ k / 256 ^ 3 := by rw [compactMagnitude, hsize, hmant]
  refine ⟨?_, ?_, ?_⟩
  · rw [hmag]
    exact Nat.div_pos hge (by decide)
  · rw [hmag]
    exact Nat.div_le_of_le_mul (by rwa [Nat.mul_comm x] at hle)
  · rw [Bool.eq_false_iff, Ne, compactNegative_iff, compactValue, if_neg hbit]
    omega

/-! ## Proof of work -/

/-- The parameters of `Consensus::Params` that the difficulty depends on. -/
structure PowParams extends CChainParams where
  fPowNoRetargeting : Bool
  powLimit : BitVec 256
  posLimitV1 : BitVec 256
  posLimitV2 : BitVec 256
  nTargetTimespan : Int
  nTargetTimespanV2 : Int
  nTargetSpacing : Int
  posLimit_ne_zero : posLimitV1 ≠ 0 ∧ posLimitV2 ≠ 0
  spacing_pos : 0 < nTargetSpacing
  spacing_le : nTargetSpacing ≤ nTargetTimespan ∧ nTargetSpacing ≤ nTargetTimespanV2

def mainPowParams : PowParams where
  toCChainParams := CMainParams
  fPowNoRetargeting := false
  powLimit := 0x0002ffffffffffffffffffffffffffffffffffffffffffffffffffffffffffff
  posLimitV1 := 0x000000ffffffffffffffffffffffffffffffffffffffffffffffffffffffffff
  posLimitV2 := 0x000000ffffffffffffffffffffffffffffffffffffffffffffffffffffffffff
  nTargetTimespan := 40 * 60
  nTargetTimespanV2 := 40 * 60
  nTargetSpacing := 1 * 60
  posLimit_ne_zero := by decide
  spacing_pos := by decide
  spacing_le := by decide

section

variable (P : PowParams) (hash : uint256) (nBits : BitVec 32)

/-- `CheckProofOfWork`. The source does not use the hash: the comparison with the target is commented out. -/
def checkProofOfWork (_hash : uint256) (nBits : BitVec 32) : Bool :=
  !(compactNegative nBits || setCompact nBits == 0 || compactOverflow nBits ||
    decide (P.powLimit.toNat < setCompact nBits))

def checkBlockWork (isPoS fCheckPOW : Bool) : Bool := !(!isPoS && fCheckPOW && !checkProofOfWork P hash nBits)

def readBlockWork (isProofOfWork : Bool) : Bool := !(isProofOfWork && !checkProofOfWork P hash nBits)

def WorkTarget : Prop := 0 < compactValue nBits ∧ compactValue nBits ≤ P.powLimit.toNat

def HasWork : Prop := WorkTarget P nBits ∧ (hash.toArith : Int) ≤ compactValue nBits

theorem checkProofOfWork_iff : checkProofOfWork P hash nBits = true ↔ WorkTarget P nBits := by
  have hlimit := P.powLimit.isLt
  unfold checkProofOfWork WorkTarget
  rw [Bool.not_eq_true', Bool.or_eq_false_iff, Bool.or_eq_false_iff, Bool.or_eq_false_iff, ← Bool.not_eq_true,
    compactNegative_iff, ← Bool.not_eq_true (compactOverflow _), compactOverflow_iff, setCompact_eq, beq_eq_false_iff_ne,
    decide_eq_false_iff_not]
  unfold compactValue
  by_cases hover : 2 ^ 256 ≤ compactMagnitude nBits
  · split <;> omega
  · rw [Nat.mod_eq_of_lt (Nat.lt_of_not_le hover)]
    split <;> omega

/-- **Proof of work.** `CheckProofOfWork` says whether a header has work, and the headers that are accepted have it, if
and only if the hash is not above a target in range. -/
theorem proof_of_work_iff :
    ((checkProofOfWork P hash nBits = true ↔ HasWork P hash nBits) ∧
      (checkBlockWork P hash nBits false true = true → HasWork P hash nBits) ∧
      (readBlockWork P hash nBits true = true → HasWork P hash nBits)) ↔
    (WorkTarget P nBits → (hash.toArith : Int) ≤ compactValue nBits) := by
  have hblock : checkBlockWork P hash nBits false true = checkProofOfWork P hash nBits := by simp [checkBlockWork]
  have hread : readBlockWork P hash nBits true = checkProofOfWork P hash nBits := by simp [readBlockWork]
  rw [hblock, hread, checkProofOfWork_iff, HasWork]
  constructor
  · rintro ⟨hiff, -, -⟩ htarget
    exact (hiff.mp htarget).2
  · intro h
    exact ⟨⟨fun htarget => ⟨htarget, h htarget⟩, fun hwork => hwork.1⟩, fun htarget => ⟨htarget, h htarget⟩,
      fun htarget => ⟨htarget, h htarget⟩⟩

end

/-- A header with the largest hash there is passes. -/
theorem worthless_header_accepted :
    checkBlockWork mainPowParams (BitVec.allOnes 256) 0x1e00ffff false true = true ∧
      readBlockWork mainPowParams (BitVec.allOnes 256) 0x1e00ffff true = true ∧
      ¬HasWork mainPowParams (BitVec.allOnes 256) 0x1e00ffff := by
  refine ⟨by decide +kernel, by decide +kernel, fun hwork => ?_⟩
  exact absurd hwork.2 (by decide +kernel)

/-! ## Stake weight -/

namespace KernelEnv

variable (env : KernelEnv) (kernel : CStakeKernel)

/-- The kernel with a stake of value `v` is accepted. -/
def Accepts (v : Int) : Prop := env.checkKernelHash { kernel with stakeValue := v } = true

/-- The target for a stake of value `v`, as an integer. -/
def weightedTarget (v : Int) : Nat := compactMagnitude kernel.nBits * (v.toNat / 100)

/-- The weight of a stake counts as it should for two values. -/
structure WeighsRight (v₁ v₂ : Int) : Prop where
  monotone : env.Accepts kernel v₁ → env.Accepts kernel v₂
  below₁ : env.Accepts kernel v₁ ↔ (env.kernelHash kernel).toArith < weightedTarget kernel v₁
  below₂ : env.Accepts kernel v₂ ↔ (env.kernelHash kernel).toArith < weightedTarget kernel v₂

theorem accepts_iff {v : Int} (h0 : 0 ≤ v) (hmax : v < 2 ^ 63) :
    env.Accepts kernel v ↔ (env.kernelHash kernel).toArith < weightedTarget kernel v % 2 ^ 256 := by
  unfold Accepts checkKernelHash weightedTarget
  rw [decide_eq_true_eq, setCompact_eq, Nat.mod_mul_mod, Int.emod_eq_of_lt h0 (by omega)]
  rfl

end KernelEnv

theorem uint256.toArith_lt (h : uint256) : h.toArith < 2 ^ 256 := by
  have := Codec.ofLE_lt ((blob 32).write h)
  rwa [length_write_blob] at this

/-- **Stake weight.** A larger stake is accepted where a smaller one is, and each exactly below its weighted target, for
all kernels with these bits, if and only if the larger product fits into 256 bits. -/
theorem stake_weight_iff (nBits : BitVec 32) {v₁ v₂ : Int} (h0 : 0 ≤ v₁) (hle : v₁ ≤ v₂) (hmax : v₂ < 2 ^ 63) :
    (∀ (env : KernelEnv) (kernel : CStakeKernel), kernel.nBits = nBits → env.WeighsRight kernel v₁ v₂) ↔
      compactMagnitude nBits * (v₂.toNat / 100) < 2 ^ 256 := by
  constructor
  · intro h
    by_contra hwrap
    -- the largest hash is below a product that does not fit, and not below what is left of it
    let env : KernelEnv := { Sample.kernelEnv with hash := fun _ => BitVec.allOnes 256 }
    let kernel : CStakeKernel := ⟨[], 0, [], 0, nBits, 0⟩
    have hhash : env.kernelHash kernel = BitVec.allOnes 256 := rfl
    have hwrap : 2 ^ 256 ≤ KernelEnv.weightedTarget kernel v₂ := Nat.le_of_not_lt hwrap
    have hacc := (h env kernel rfl).below₂.mpr ((uint256.toArith_lt _).trans_le hwrap)
    rw [env.accepts_iff kernel (h0.trans hle) hmax, hhash,
      show uint256.toArith (BitVec.allOnes 256) = 2 ^ 256 - 1 by decide +kernel] at hacc
    have := Nat.mod_lt (KernelEnv.weightedTarget kernel v₂) (show 0 < 2 ^ 256 by decide)
    omega
  · rintro hfits env kernel rfl
    have hmono : KernelEnv.weightedTarget kernel v₁ ≤ KernelEnv.weightedTarget kernel v₂ :=
      Nat.mul_le_mul_left _ (Nat.div_le_div_right (Int.toNat_le_toNat hle))
    have hacc : ∀ v, 0 ≤ v → v < 2 ^ 63 → KernelEnv.weightedTarget kernel v < 2 ^ 256 →
        (env.Accepts kernel v ↔ (env.kernelHash kernel).toArith < KernelEnv.weightedTarget kernel v) := by
      intro v hv hv' hfit
      rw [env.accepts_iff kernel hv hv', Nat.mod_eq_of_lt hfit]
    have h₁ := hacc v₁ h0 (hle.trans_lt hmax) (hmono.trans_lt hfits)
    have h₂ := hacc v₂ (h0.trans hle) hmax hfits
    exact ⟨fun h => h₂.mpr ((h₁.mp h).trans_le hmono), h₁, h₂⟩

theorem stake_weight_iff_tiny :
    (∀ (env : KernelEnv) (kernel : CStakeKernel), kernel.nBits = 0x1c00ffff → env.WeighsRight kernel 100 200) ↔
      compactMagnitude 0x1c00ffff * 2 < 2 ^ 256 :=
  stake_weight_iff 0x1c00ffff (by decide) (by decide) (by decide)

/-- With the easiest bits of the main network a stake of one unit of weight is accepted with a zero hash, and a stake of
`2 ^ 40` units, about 1.1 million coins, is not. -/
theorem heavier_stake_rejected :
    CMainParams.moneyRange (2 ^ 40 * 100) = true ∧
      Sample.kernelEnv.Accepts ⟨[], 0, [], 0, 0x1e00ffff, 0⟩ 100 ∧
      ¬Sample.kernelEnv.Accepts ⟨[], 0, [], 0, 0x1e00ffff, 0⟩ (2 ^ 40 * 100) := by
  refine ⟨by decide, ?_, ?_⟩ <;> unfold KernelEnv.Accepts <;> decide +kernel

/-! ## The next target -/

/-- A `CBlockIndex` with the entries its `pprev` pointers lead to. -/
inductive WorkIndex where
  | root (nTime nBits : BitVec 32)
  | child (pprev : WorkIndex) (nTime nBits : BitVec 32)

namespace WorkIndex

def nHeight : WorkIndex → Nat
  | root _ _ => 0
  | child p _ _ => p.nHeight + 1

def getBlockTime : WorkIndex → Int
  | root t _ => t.toNat
  | child _ t _ => t.toNat

def nBits : WorkIndex → BitVec 32
  | root _ b => b
  | child _ _ b => b

/-- `GetBlockTime() - pprev->GetBlockTime()`; the genesis block is not asked. -/
def spacing : WorkIndex → Int
  | root _ _ => 0
  | child p t _ => t.toNat - p.getBlockTime

end WorkIndex

/-- The variables of the loop over the last blocks. -/
structure DarkGravity where
  countBlocks : Nat := 0
  pastDifficultyAverage : Nat := 0
  nActualTimespan : Int := 0
  lastBlockTime : Int := 0

def DarkGravity.read (d : DarkGravity) (block : WorkIndex) : DarkGravity where
  countBlocks := d.countBlocks + 1
  pastDifficultyAverage :=
    if d.countBlocks = 0 then setCompact block.nBits
    else (d.pastDifficultyAverage * (d.countBlocks + 1) % 2 ^ 256 + setCompact block.nBits) % 2 ^ 256 /
      (d.countBlocks + 2)
  nActualTimespan :=
    if 0 < d.lastBlockTime then d.nActualTimespan + (d.lastBlockTime - block.getBlockTime) else d.nActualTimespan
  lastBlockTime := block.getBlockTime

/-- The loop; it does not read the genesis block. -/
def DarkGravity.loop : Nat → DarkGravity → WorkIndex → DarkGravity
  | i + 1, d, .child p t b => loop i (d.read (.child p t b)) p
  | _, d, _ => d

namespace PowParams

variable (P : PowParams) (pindexLast : WorkIndex)

def isTimeProtocolV2 (nHeight : Nat) : Bool := P.networkUpgradeActive nHeight .UPGRADE_V4_0

def fTimeV2 : Bool := !P.isRegTestNet && P.isTimeProtocolV2 (pindexLast.nHeight + 1)

def limit : Nat := if P.fTimeV2 pindexLast then P.posLimitV2.toNat else P.posLimitV1.toNat

def nInterval : Int := (if P.fTimeV2 pindexLast then P.nTargetTimespanV2 else P.nTargetTimespan) / P.nTargetSpacing

def nActualSpacing : Int :=
  let a := if pindexLast.spacing < 0 then 1 else pindexLast.spacing
  if P.fTimeV2 pindexLast = true ∧ P.nTargetSpacing * 10 < a then P.nTargetSpacing * 10 else a

def factor : Int :=
  (P.nInterval pindexLast - 1) * P.nTargetSpacing + P.nActualSpacing pindexLast + P.nActualSpacing pindexLast

def divisor : Nat := ((P.nInterval pindexLast + 1) * P.nTargetSpacing).toNat

def firstTimeV2 : Prop := P.fTimeV2 pindexLast = true ∧ P.isTimeProtocolV2 pindexLast.nHeight = false

instance : Decidable (P.firstTimeV2 pindexLast) := inferInstanceAs (Decidable (_ ∧ _))

def clamp (limit bnNew : Nat) : Nat := if bnNew = 0 ∨ limit < bnNew then limit else bnNew

/-- The branch for heights above 3000. The factor is passed to `operator*=(uint32_t)`. -/
def retarget : BitVec 32 :=
  let bnNew := setCompact pindexLast.nBits
  let bnNew := if P.firstTimeV2 pindexLast then (bnNew <<< 4) % 2 ^ 256 else bnNew
  let bnNew := bnNew * (P.factor pindexLast % 2 ^ 32).toNat % 2 ^ 256
  getCompact (clamp (P.limit pindexLast) (bnNew / P.divisor pindexLast))

def darkGravityTarget : BitVec 32 :=
  let d := DarkGravity.loop 24 {} pindexLast
  let target : Int := d.countBlocks * P.nTargetSpacing
  let nActualTimespan := if d.nActualTimespan < target / 3 then target / 3 else d.nActualTimespan
  let nActualTimespan := if target * 3 < nActualTimespan then target * 3 else nActualTimespan
  let bnNew := d.pastDifficultyAverage * (nActualTimespan % 2 ^ 32).toNat % 2 ^ 256 / target.toNat
  getCompact (if P.powLimit.toNat < bnNew then P.powLimit.toNat else bnNew)

def getNextWorkRequired (pindexLast : Option WorkIndex) : Result (BitVec 32) :=
  match pindexLast with
  | none => if P.fPowNoRetargeting then .error (.nullDeref "pindexLast->nBits") else .ok (getCompact P.powLimit.toNat)
  | some p =>
    if P.fPowNoRetargeting then .ok p.nBits
    else if p.nHeight = 0 ∨ p.nHeight < 24 then .ok (getCompact P.powLimit.toNat)
    else if 3000 < p.nHeight then .ok (P.retarget p)
    else .ok (P.darkGravityTarget p)

/-! ### What it should be -/

/-- The previous target, times 16 on the first block with the new time protocol. -/
def previousTarget : Nat :=
  if P.firstTimeV2 pindexLast then setCompact pindexLast.nBits * 16 else setCompact pindexLast.nBits

def product : Nat := P.previousTarget pindexLast * (P.factor pindexLast).toNat

/-- The next target is computed in exact integers: the factor is not cut off, the product does not wrap around, and the
result is a target. -/
structure RetargetsExactly : Prop where
  factor_lt : P.factor pindexLast < 2 ^ 32
  product_lt : P.product pindexLast < 2 ^ 256
  result : P.getNextWorkRequired (some pindexLast) =
    .ok (getCompact (min (P.limit pindexLast) (P.product pindexLast / P.divisor pindexLast)))
  decodes : ∀ nBits, P.getNextWorkRequired (some pindexLast) = .ok nBits →
    compactNegative nBits = false ∧ 0 < setCompact nBits ∧ setCompact nBits ≤ P.limit pindexLast

theorem limit_pos : 0 < P.limit pindexLast ∧ P.limit pindexLast < 2 ^ 256 := by
  have h1 := P.posLimit_ne_zero.1
  have h2 := P.posLimit_ne_zero.2
  rw [Ne, ← BitVec.toNat_inj] at h1 h2
  unfold limit
  split
  · exact ⟨Nat.pos_of_ne_zero h2, P.posLimitV2.isLt⟩
  · exact ⟨Nat.pos_of_ne_zero h1, P.posLimitV1.isLt⟩

variable {P pindexLast} in
theorem getNextWorkRequired_above (hretarget : P.fPowNoRetargeting = false) (hheight : 3000 < pindexLast.nHeight) :
    P.getNextWorkRequired (some pindexLast) = .ok (P.retarget pindexLast) := by
  unfold getNextWorkRequired
  dsimp only
  rw [hretarget, if_neg Bool.false_ne_true, if_neg (by omega), if_pos hheight]

theorem one_le_nInterval : 1 ≤ P.nInterval pindexLast := by
  unfold nInterval
  split
  · exact Int.le_ediv_of_mul_le P.spacing_pos (by rw [Int.one_mul]; exact P.spacing_le.2)
  · exact Int.le_ediv_of_mul_le P.spacing_pos (by rw [Int.one_mul]; exact P.spacing_le.1)

theorem divisor_pos : 0 < P.divisor pindexLast := by
  have hI := P.one_le_nInterval pindexLast
  exact Int.pos_iff_toNat_pos.mp (Int.mul_pos (by omega) P.spacing_pos)

theorem factor_nonneg : 0 ≤ P.factor pindexLast := by
  have hI := P.one_le_nInterval pindexLast
  have hpart := Int.mul_nonneg (Int.sub_nonneg.mpr hI) P.spacing_pos.le
  have ha : 0 ≤ P.nActualSpacing pindexLast := by
    have hS := P.spacing_pos
    unfold nActualSpacing
    dsimp only
    split <;> split <;> omega
  unfold factor
  omega

theorem retarget_decodes : compactNegative (P.retarget pindexLast) = false ∧
    0 < setCompact (P.retarget pindexLast) ∧ setCompact (P.retarget pindexLast) ≤ P.limit pindexLast := by
  obtain ⟨hpos, hlt⟩ := P.limit_pos pindexLast
  have hform : ∃ q, P.retarget pindexLast = getCompact (clamp (P.limit pindexLast) q) := ⟨_, rfl⟩
  obtain ⟨q, heq⟩ := hform
  have hx : 0 < clamp (P.limit pindexLast) q ∧ clamp (P.limit pindexLast) q ≤ P.limit pindexLast := by
    unfold clamp
    split <;> omega
  obtain ⟨hx, hle⟩ := hx
  obtain ⟨hmag, hmagle, hneg⟩ := compact_getCompact hx (hle.trans_lt hlt)
  rw [heq, setCompact_eq, Nat.mod_eq_of_lt ((hmagle.trans hle).trans_lt hlt)]
  exact ⟨hneg, hmag, hmagle.trans hle⟩

variable {P pindexLast} in
theorem retarget_eq (hfactor : P.factor pindexLast < 2 ^ 32) (hproduct : P.product pindexLast < 2 ^ 256)
    (hquot : P.divisor pindexLast ≤ P.product pindexLast) :
    P.retarget pindexLast = getCompact (min (P.limit pindexLast) (P.product pindexLast / P.divisor pindexLast)) := by
  have hdiv := P.divisor_pos pindexLast
  have hprevious : P.previousTarget pindexLast < 2 ^ 256 := by
    refine lt_of_le_of_lt (Nat.le_mul_of_pos_right _ (Nat.pos_of_ne_zero fun hzero => ?_)) hproduct
    rw [product, hzero, Nat.mul_zero] at hquot
    omega
  have hshift : (if P.firstTimeV2 pindexLast then (setCompact pindexLast.nBits <<< 4) % 2 ^ 256
      else setCompact pindexLast.nBits) = P.previousTarget pindexLast := by
    unfold previousTarget at hprevious ⊢
    split_ifs with hfirst
    · rw [if_pos hfirst] at hprevious
      rw [Nat.shiftLeft_eq]
      exact Nat.mod_eq_of_lt hprevious
    · rfl
  have hone := Nat.div_pos hquot hdiv
  unfold retarget
  dsimp only
  rw [hshift, Int.emod_eq_of_lt (P.factor_nonneg pindexLast) hfactor, ← product, Nat.mod_eq_of_lt hproduct, clamp,
    Nat.min_def]
  congr 1
  split <;> split <;> omega

/-- **Difficulty retarget.** On a network that retargets, the target after a block above height 3000 is exact if and only
if the factor fits into 32 bits, the product fits into 256 bits, and the quotient is not zero. -/
theorem retargets_exactly_iff (hretarget : P.fPowNoRetargeting = false) (hheight : 3000 < pindexLast.nHeight) :
    P.RetargetsExactly pindexLast ↔
      P.factor pindexLast < 2 ^ 32 ∧ P.product pindexLast < 2 ^ 256 ∧ P.divisor pindexLast ≤ P.product pindexLast := by
  have hcode := getNextWorkRequired_above hretarget hheight
  constructor
  · intro h
    refine ⟨h.factor_lt, h.product_lt, ?_⟩
    by_contra hsmall
    -- a zero quotient has the compact form zero
    have hzero := h.result
    rw [Nat.div_eq_of_lt (Nat.lt_of_not_le hsmall), Nat.min_zero] at hzero
    exact absurd (h.decodes _ hzero).2.1 (by decide +kernel)
  · rintro ⟨hfactor, hproduct, hquot⟩
    refine ⟨hfactor, hproduct, hcode.trans (congrArg _ (retarget_eq hfactor hproduct hquot)), fun nBits hn => ?_⟩
    cases hcode.symm.trans hn
    exact P.retarget_decodes pindexLast

end PowParams

open PowParams

def minuteChain : Nat → WorkIndex
  | 0 => .root 0 0x1e00ffff
  | n + 1 => .child (minuteChain n) (BitVec.ofNat 32 (60 * (n + 1))) 0x1e00ffff

theorem nHeight_minuteChain : ∀ n, (minuteChain n).nHeight = n
  | 0 => rfl
  | n + 1 => congrArg (· + 1) (nHeight_minuteChain n)

theorem retargets_exactly_minute : mainPowParams.RetargetsExactly (minuteChain 4000) := by
  have hheight := nHeight_minuteChain 4000
  refine (retargets_exactly_iff mainPowParams (minuteChain 4000) rfl (by omega)).mpr ?_
  decide +kernel

/-- After a block a minute, a block that comes 8387567 seconds, about 97 days, later. -/
def lateBlock : WorkIndex := .child (minuteChain 4000) (BitVec.ofNat 32 (60 * 4000 + 8387567)) 0x1e00ffff

/-- Its bits are the ones that the chain requires. The product wraps around: the next target is far below the exact one,
which is the limit. -/
theorem late_block_wraps : mainPowParams.getNextWorkRequired (some (minuteChain 4000)) = .ok lateBlock.nBits ∧
    mainPowParams.getNextWorkRequired (some lateBlock) = .ok 0x1c352d2a ∧
    getCompact (min (mainPowParams.limit lateBlock)
      (mainPowParams.product lateBlock / mainPowParams.divisor lateBlock)) = 0x1e00ffff := by
  have hheight := nHeight_minuteChain 4000
  have hlate : 3000 < lateBlock.nHeight := by rw [lateBlock, WorkIndex.nHeight]; omega
  rw [getNextWorkRequired_above rfl (by omega), getNextWorkRequired_above rfl hlate]
  exact ⟨by decide +kernel, by decide +kernel, by decide +kernel⟩

end TrumpCoin
