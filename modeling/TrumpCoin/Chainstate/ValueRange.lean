import Mathlib.Algebra.Order.BigOperators.Group.List
import TrumpCoin.Chainstate.ConnectBlock

/-!
# Values of a checked transaction

`CheckTransaction` bounds every output and the running total of the outputs, and a positive value balance. A negative
one enters the running total, which is compared only after an output was added to it.

* `foldlM_checkTxOut`: what the loop over the outputs leaves;
* `ValueSafe`: `GetValueOut` and `GetShieldedValueIn` neither throw nor overflow, and all amounts are in range;
* `value_safe_iff`: when this holds of a transaction that passed.
-/

namespace TrumpCoin

open Lib

/-- The values of an `int64_t`. -/
def FitsInt64 (n : Int) : Prop := -2 ^ 63 ≤ n ∧ n < 2 ^ 63

/-- `nMaxMoneyOut` of the main, test and regression test networks. -/
def networkMaxMoneyOut : List Int := [18000000 * COIN, 21000000 * COIN, 43199500 * COIN]

/-- The exact results of the additions and the negation that `GetValueOut` computes in `int64_t`. -/
def CTransaction.valueOutSteps (tx : CTransaction) : List Int :=
  (tx.vout.map CTxOut.nValue).scanl (· + ·) 0 ++
    if tx.hasSaplingData ∧ tx.valueBalance < 0 then [-tx.valueBalance, tx.voutSum - tx.valueBalance] else []

structure ValueSafe (p : CChainParams) (tx : CTransaction) : Prop where
  /-- `GetValueOut` does not throw; the total is in range -/
  valueOut : ∃ v, tx.getValueOut = .ok v ∧ p.moneyRange v = true
  /-- `GetShieldedValueIn` does not throw -/
  shieldedValueIn : ∃ v, tx.getShieldedValueIn = .ok v ∧ FitsInt64 v
  noOverflow : ∀ n ∈ tx.valueOutSteps, FitsInt64 n
  outputs : ∀ out ∈ tx.vout, p.moneyRange out.nValue = true
  transparent : p.moneyRange tx.voutSum = true
  balance : p.moneyRange |tx.valueBalance| = true

/-! ## Amounts in range -/

section Amounts

variable {p : CChainParams} {n m : Int}

theorem moneyRange_eq_true : p.moneyRange n = true ↔ 0 ≤ n ∧ 1000 * n ≤ 2415 * p.nMaxMoneyOut := by
  simp [CChainParams.moneyRange]

theorem moneyRange_of_le (h : p.moneyRange m = true) (h0 : 0 ≤ n) (hle : n ≤ m) : p.moneyRange n = true := by
  rw [moneyRange_eq_true] at h ⊢
  omega

theorem maxMoneyOut_bounds (hp : p.nMaxMoneyOut ∈ networkMaxMoneyOut) :
    0 ≤ p.nMaxMoneyOut ∧ p.nMaxMoneyOut ≤ 43199500 * COIN := by
  simp only [networkMaxMoneyOut, List.mem_cons, List.not_mem_nil, or_false, COIN] at hp ⊢
  omega

theorem fitsInt64_of_moneyRange (hp : p.nMaxMoneyOut ∈ networkMaxMoneyOut) (h : p.moneyRange n = true) :
    FitsInt64 n := by
  have := maxMoneyOut_bounds hp
  rw [moneyRange_eq_true] at h
  unfold FitsInt64 COIN at *
  omega

end Amounts

/-! ## Running totals -/

theorem sum_nonneg_of_vout {vout : List CTxOut} (h : ∀ out ∈ vout, 0 ≤ out.nValue) :
    0 ≤ (vout.map CTxOut.nValue).sum := by
  refine List.sum_nonneg fun v hv => ?_
  obtain ⟨out, hout, rfl⟩ := List.mem_map.mp hv
  exact h out hout

theorem scanl_bounds : ∀ {vout : List CTxOut} {n k : Int}, (∀ out ∈ vout, 0 ≤ out.nValue) →
    k ∈ (vout.map CTxOut.nValue).scanl (· + ·) n → n ≤ k ∧ k ≤ n + (vout.map CTxOut.nValue).sum
  | [], n, k, _, hk => by
    simp only [List.map_nil, List.scanl_nil, List.mem_singleton] at hk
    simp [hk]
  | out :: vout, n, k, hpos, hk => by
    rw [List.forall_mem_cons] at hpos
    have hsum := sum_nonneg_of_vout hpos.2
    simp only [List.map_cons, List.scanl_cons, List.mem_cons, List.sum_cons] at hk ⊢
    rcases hk with rfl | hk
    · omega
    · have := scanl_bounds hpos.2 hk
      omega

theorem foldlM_addValueOut_ok : ∀ {vout : List CTxOut} {n : Int}, (∀ out ∈ vout, 0 ≤ out.nValue) →
    n + (vout.map CTxOut.nValue).sum < 2 ^ 63 →
    vout.foldlM CTransaction.addValueOut n = .ok (n + (vout.map CTxOut.nValue).sum)
  | [], n, _, _ => by simp; rfl
  | out :: vout, n, hpos, hlt => by
    rw [List.forall_mem_cons] at hpos
    have hsum := sum_nonneg_of_vout hpos.2
    rw [List.map_cons, List.sum_cons] at hlt ⊢
    have hstep : CTransaction.addValueOut n out = .ok (n + out.nValue) := by
      simp only [CTransaction.addValueOut, bind_eq_ok, require_eq_ok, pure_eq_ok]
      exact ⟨(), hpos.1, (), by omega, trivial⟩
    rw [List.foldlM_cons, hstep, ok_bind, foldlM_addValueOut_ok hpos.2 (by omega), Int.add_assoc]

section Loop

variable {p : CChainParams} {tx : CTransaction} {fColdStakingActive : Bool}

theorem checkTxOut_eq_ok {n v : Int} {out : CTxOut} (h : checkTxOut p tx fColdStakingActive n out = .ok v) :
    v = n + out.nValue ∧ 0 ≤ out.nValue ∧ out.nValue ≤ p.nMaxMoneyOut ∧ p.moneyRange v = true := by
  simp only [checkTxOut, bind_eq_ok, invalidUnless, require_eq_ok, pure_eq_ok] at h
  obtain ⟨_, -, _, hneg, _, hlarge, _, htotal, _, -, rfl⟩ := h
  exact ⟨rfl, hneg, hlarge, htotal⟩

/-- The loop over the outputs: the outputs are bounded, and the total is in range unless there is no output. -/
theorem foldlM_checkTxOut : ∀ {vout : List CTxOut} {n v : Int},
    vout.foldlM (checkTxOut p tx fColdStakingActive) n = .ok v →
    v = n + (vout.map CTxOut.nValue).sum ∧ (∀ out ∈ vout, 0 ≤ out.nValue ∧ out.nValue ≤ p.nMaxMoneyOut) ∧
      (vout ≠ [] → p.moneyRange v = true)
  | [], n, v, h => by
    cases h
    simp
  | out :: vout, n, v, h => by
    rw [List.foldlM_cons] at h
    obtain ⟨mid, hstep, h⟩ := bind_eq_ok.mp h
    obtain ⟨rfl, hneg, hlarge, hrange⟩ := checkTxOut_eq_ok hstep
    obtain ⟨rfl, hall, hlast⟩ := foldlM_checkTxOut h
    refine ⟨by rw [List.map_cons, List.sum_cons, Int.add_assoc], ?_, fun _ => ?_⟩
    · rw [List.forall_mem_cons]
      exact ⟨⟨hneg, hlarge⟩, hall⟩
    · rcases vout with _ | ⟨out', vout⟩
      · simpa using hrange
      · exact hlast (by simp)

/-- The value that the loop starts with: what goes to the shielded pool. A positive balance is in range. -/
theorem checkSaplingTransaction_value {v : Int} (h : checkSaplingTransaction p tx = .ok v) :
    v = max 0 (-tx.valueBalance) ∧ (0 < tx.valueBalance → p.moneyRange tx.valueBalance = true) := by
  unfold checkSaplingTransaction at h
  obtain ⟨_, -, h⟩ := bind_eq_ok.mp h
  split at h
  · rename_i hnone
    rw [pure_eq_ok] at h
    simp [CTransaction.valueBalance, hnone, h]
  · rename_i d hsome
    have hbalance : tx.valueBalance = d.valueBalance := by simp [CTransaction.valueBalance, hsome]
    rw [hbalance]
    split at h
    · rename_i hdata
      have hzero : tx.valueBalance = 0 := by
        by_contra hne
        rw [tx.hasSaplingData_of_valueBalance hne] at hdata
        cases hdata
      rw [pure_eq_ok] at h
      omega
    · simp only [bind_eq_ok, invalidUnless, require_eq_ok, pure_eq_ok] at h
      obtain ⟨_, -, _, -, _, hrange, _, -, rfl⟩ := h
      refine ⟨by split <;> omega, fun hpos => ?_⟩
      by_contra hout
      exact hrange ⟨hpos, by simpa using hout⟩

end Loop

/-! ## The amounts of a transaction that passed -/

section Checked

variable {p : CChainParams} {V : NodeChecks} {tx : CTransaction} {fColdStakingActive : Bool}

/-- What `CheckTransaction` establishes about the amounts. -/
structure CheckedValues (p : CChainParams) (tx : CTransaction) : Prop where
  version : tx.valueBalance ≠ 0 → tx.isSaplingVersion = true
  positive : 0 < tx.valueBalance → p.moneyRange tx.valueBalance = true
  outputs : ∀ out ∈ tx.vout, 0 ≤ out.nValue ∧ out.nValue ≤ p.nMaxMoneyOut
  total : tx.vout ≠ [] → p.moneyRange (tx.voutSum + max 0 (-tx.valueBalance)) = true

theorem checkTransaction_values (h : checkTransaction p V tx fColdStakingActive = .ok ()) : CheckedValues p tx := by
  have hchecked := checkTransaction_eq_ok h
  simp only [checkTransaction, bind_eq_ok, invalidUnless, require_eq_ok] at h
  obtain ⟨_, -, _, -, _, -, _, -, v, hsap, w, hvout, -⟩ := h
  obtain ⟨rfl, hpositive⟩ := checkSaplingTransaction_value hsap
  obtain ⟨rfl, houtputs, htotal⟩ := foldlM_checkTxOut hvout
  refine ⟨fun hne => (hchecked.shielded hne).1, hpositive, houtputs, fun hne => ?_⟩
  rw [Int.add_comm]
  exact htotal hne

variable (h : CheckedValues p tx)
include h

theorem CheckedValues.voutSum_nonneg : 0 ≤ tx.voutSum :=
  sum_nonneg_of_vout fun out hout => (h.outputs out hout).1

theorem CheckedValues.total_of
    (hcond : tx.vout ≠ [] ∨ p.moneyRange (max 0 (-tx.valueBalance)) = true) :
    p.moneyRange (tx.voutSum + max 0 (-tx.valueBalance)) = true := by
  by_cases hne : tx.vout = []
  · have hsum : tx.voutSum = 0 := by simp [CTransaction.voutSum, hne]
    rcases hcond with hcond | hcond
    · exact (hcond hne).elim
    · rwa [hsum, Int.zero_add]
  · exact h.total hne

theorem CheckedValues.getValueOut_ok (hlt : tx.voutSum < 2 ^ 63) :
    tx.getValueOut = .ok (tx.voutSum + max 0 (-tx.valueBalance)) := by
  have hloop : tx.vout.foldlM CTransaction.addValueOut 0 = .ok tx.voutSum := by
    have := foldlM_addValueOut_ok (n := 0) (fun out hout => (h.outputs out hout).1) (by rw [Int.zero_add]; exact hlt)
    rwa [Int.zero_add] at this
  rw [CTransaction.getValueOut, hloop, ok_bind]
  split_ifs with hneg
  · simp only [bind_eq_ok, require_eq_ok, pure_eq_ok]
    exact ⟨(), h.version (by omega), by omega⟩
  · have : 0 ≤ tx.valueBalance := by
      by_contra hlt
      exact hneg ⟨tx.hasSaplingData_of_valueBalance (by omega), by omega⟩
    rw [pure_eq_ok]
    omega

theorem CheckedValues.getShieldedValueIn_ok : tx.getShieldedValueIn = .ok (max 0 tx.valueBalance) := by
  unfold CTransaction.getShieldedValueIn
  split_ifs with hpos
  · simp only [bind_eq_ok, require_eq_ok, pure_eq_ok]
    exact ⟨(), h.version (by omega), by omega⟩
  · have : tx.valueBalance ≤ 0 := by
      by_contra hlt
      exact hpos ⟨tx.hasSaplingData_of_valueBalance (by omega), by omega⟩
    rw [pure_eq_ok]
    omega

theorem CheckedValues.balance_of
    (htotal : p.moneyRange (tx.voutSum + max 0 (-tx.valueBalance)) = true) :
    p.moneyRange |tx.valueBalance| = true := by
  have hsum := h.voutSum_nonneg
  rcases lt_or_ge 0 tx.valueBalance with hpos | hneg
  · rw [abs_of_pos hpos]
    exact h.positive hpos
  · rw [abs_of_nonpos hneg]
    exact moneyRange_of_le htotal (by omega) (by omega)

omit h

/-- **Value safety** of a transaction that `CheckTransaction` accepts holds exactly if it has a transparent output or
what it moves to the shielded pool is in range. -/
theorem value_safe_iff (hp : p.nMaxMoneyOut ∈ networkMaxMoneyOut)
    (h : checkTransaction p V tx fColdStakingActive = .ok ()) :
    ValueSafe p tx ↔ tx.vout ≠ [] ∨ p.moneyRange (max 0 (-tx.valueBalance)) = true := by
  have hvalues := checkTransaction_values h
  constructor
  · intro hsafe
    refine .inr (moneyRange_of_le hsafe.balance (le_max_left _ _) (max_le (abs_nonneg _) (neg_le_abs _)))
  · intro hcond
    have hsum := hvalues.voutSum_nonneg
    have htotal := hvalues.total_of hcond
    have hbalance := hvalues.balance_of htotal
    have htransparent : p.moneyRange tx.voutSum = true := moneyRange_of_le htotal hsum (by omega)
    have hfits := fitsInt64_of_moneyRange hp htransparent
    refine ⟨⟨_, hvalues.getValueOut_ok hfits.2, htotal⟩, ⟨_, hvalues.getShieldedValueIn_ok, ?_⟩, ?_, ?_, htransparent,
      hbalance⟩
    · have hin := fitsInt64_of_moneyRange hp hbalance
      have := le_abs_self tx.valueBalance
      unfold FitsInt64 at hin ⊢
      omega
    · intro n hn
      have hall := fitsInt64_of_moneyRange hp htotal
      unfold FitsInt64 at hfits hall ⊢
      rcases List.mem_append.mp hn with hn | hn
      · have := scanl_bounds (fun out hout => (hvalues.outputs out hout).1) hn
        rw [Int.zero_add] at this
        change 0 ≤ n ∧ n ≤ tx.voutSum at this
        omega
      · split at hn
        · simp only [List.mem_cons, List.not_mem_nil, or_false] at hn
          omega
        · cases hn
    · intro out hout
      have := maxMoneyOut_bounds hp
      obtain ⟨hneg, hlarge⟩ := hvalues.outputs out hout
      rw [moneyRange_eq_true]
      omega

end Checked

namespace Sample

def shielding (nValue : Int) : CTransaction where
  nVersion := 3
  vin := [{ prevout := ⟨0xa1, 0⟩ }]
  sapData := some { valueBalance := -nValue, vShieldedOutput := [⟨0xc0⟩] }
  hash := 0xa2

end Sample

open Sample

theorem value_safe_shielding : checkTransaction CMainParams checks (shielding (5 * COIN)) true = .ok () ∧
    ValueSafe CMainParams (shielding (5 * COIN)) := by
  have hok : checkTransaction CMainParams checks (shielding (5 * COIN)) true = .ok () := by rfl
  exact ⟨hok, (value_safe_iff (by decide) hok).mpr (.inr (by decide))⟩

/-- `CheckTransaction` accepts a balance whose negation overflows. -/
theorem value_unsafe_at_minimum :
    checkTransaction CMainParams checks (shielding (2 ^ 63)) true = .ok () ∧
      ¬FitsInt64 (-(shielding (2 ^ 63)).valueBalance) ∧
      ¬ValueSafe CMainParams (shielding (2 ^ 63)) := by
  refine ⟨by rfl, by unfold FitsInt64; decide, fun h => ?_⟩
  have hrange := h.balance
  revert hrange
  decide

end TrumpCoin
