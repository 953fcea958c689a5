import TrumpCoin.Chainstate.Coins
import TrumpCoin.Evo.SpecialTx
import TrumpCoin.Payments.BlockPayee

/-!
# Checks of a block without its inputs

`CheckTransaction` of `consensus/tx_verify.cpp` and `CheckBlock` of `validation.cpp`. Sizes, signature operation
counts, proofs of work, Merkle roots and signatures are computed by code that is not modelled (`NodeChecks`).

* `CheckedTx`, `checkTransaction_eq_ok`: what is known of a transaction that passed;
* `CheckedBlock`, `checkBlock_eq_ok`: the same for a block.
-/

namespace TrumpCoin

open Lib

def MAX_BLOCK_SIZE_CURRENT : Nat := 2000000
def MAX_TX_SIZE_AFTER_SAPLING : Nat := 400000
def MAX_ZEROCOIN_TX_SIZE : Nat := 180000
def MAX_BLOCK_SHIELDED_TXES_SIZE : Nat := 750000
def MAX_BLOCK_SIGOPS_CURRENT : Nat := 40000
def MAX_BLOCK_SIGOPS_LEGACY : Nat := 20000
def MIN_COLDSTAKING_AMOUNT : Int := 1 * COIN

/-- Measures and checks of transactions and blocks by code that is not modelled. -/
structure NodeChecks where
  /-- `GetTotalSize`; an output takes at least a byte -/
  getTotalSize : CTransaction → Nat
  vout_length_le : ∀ tx, tx.vout.length ≤ getTotalSize tx
  /-- `GetSerializeSize` of a block -/
  getSerializeSize : CBlock → Nat
  checkProofOfWork : CBlock → Bool
  /-- `hashMerkleRoot` is the root that `BlockMerkleRoot` computes -/
  merkleRootMatches : CBlock → Bool
  /-- the `mutated` of `BlockMerkleRoot` -/
  merkleMutated : CBlock → Bool
  checkBlockSignature : CBlock → Bool
  getLegacySigOpCount : CTransaction → Nat
  getP2SHSigOpCount : CTransaction → CCoinsViewCache → Nat
  /-- the script checks of `CheckInputs` -/
  checkScripts : CTransaction → CCoinsViewCache → Bool
  /-- `ParseAndValidateZerocoinSpends` at a height -/
  parseAndValidateZerocoinSpends : CTransaction → Nat → Bool
  /-- `SaplingMerkleTree::root` -/
  saplingRoot : SaplingMerkleTree → uint256
  /-- `invalid_out::ContainsOutPoint` -/
  containsInvalidOutPoint : COutPoint → Bool

/-- What the node looks up while it connects one block. -/
structure NodeEnv where
  payees : PayeeState
  order : MapOrder
  fInitialBlockDownload : Bool
  /-- the value of `SPORK_20_SAPLING_MAINTENANCE` -/
  saplingMaintenance : Int
  /-- the block is not below the last checkpoint -/
  fScriptChecks : Bool
  /-- the outpoint has an entry in the topmost coins cache -/
  hasEntry : COutPoint → Bool
  /-- the value of the variable `nHeight` of `ConnectBlock`, which is never assigned -/
  nHeight : Int

/-! ## Transactions -/

section Transactions

variable (p : CChainParams) (V : NodeChecks) (tx : CTransaction)

/-- `SaplingValidation::CheckTransaction`; returns `nValueOut`. -/
def checkSaplingTransaction : Result Int := do
  invalidUnless 100 "bad-txns-form-not-sapling" (¬(tx.isSaplingVersion = false ∧ tx.hasSaplingData = true))
  match tx.sapData with
  | none => return 0
  | some d =>
    if tx.hasSaplingData = false then return 0
    else do
      invalidUnless 100 "bad-txns-invalid-sapling" (tx.isCoinStake = false ∧ tx.isCoinBase = false ∧
        tx.hasZerocoinSpendInputs = false ∧ tx.hasZerocoinMintOutputs = false)
      invalidUnless 100 "bad-txns-valuebalance-nonzero"
        (¬(d.vShieldedSpend = [] ∧ d.vShieldedOutput = [] ∧ d.valueBalance ≠ 0))
      invalidUnless 100 "bad-txns-txintotal-toolarge" (¬(0 < d.valueBalance ∧ p.moneyRange d.valueBalance = false))
      invalidUnless 100 "bad-spend-description-nullifiers-duplicate"
        ((d.vShieldedSpend.map SpendDescription.nullifier).Nodup)
      return if d.valueBalance < 0 then -d.valueBalance else 0

/-- One step of the loop over the outputs. -/
def checkTxOut (fColdStakingActive : Bool) (nValueOut : Int) (txout : CTxOut) : Result Int := do
  invalidUnless 100 "bad-txns-vout-empty"
    (¬(txout.isEmpty = true ∧ tx.isCoinBase = false ∧ tx.isCoinStake = false))
  invalidUnless 100 "bad-txns-vout-negative" (0 ≤ txout.nValue)
  invalidUnless 100 "bad-txns-vout-toolarge" (txout.nValue ≤ p.nMaxMoneyOut)
  invalidUnless 100 "bad-txns-txouttotal-toolarge" (p.moneyRange (nValueOut + txout.nValue) = true)
  (if CScript.isPayToColdStaking txout.scriptPubKey then do
    invalidUnless 10 "cold-stake-inactive" (fColdStakingActive = true)
    invalidUnless 100 "cold-stake-vout-toosmall" (MIN_COLDSTAKING_AMOUNT ≤ txout.nValue)
  else pure ())
  return nValueOut + txout.nValue

/-- One step of the loop over the inputs, with the outpoints seen so far. -/
def checkTxIn (vInOutPoints : List COutPoint) (txin : CTxIn) : Result (List COutPoint) := do
  invalidUnless 100 "bad-txns-inputs-duplicate" (txin.prevout ∉ vInOutPoints)
  return if txin.isZerocoinSpend then vInOutPoints else txin.prevout :: vInOutPoints

/-- `CheckTransaction`. A transaction without `sapData` may have no inputs and no outputs. -/
def checkTransaction (fColdStakingActive : Bool) : Result Unit := do
  invalidUnless 10 "bad-txns-vin-empty" (¬(tx.vin = [] ∧ tx.sapData.any (fun d => d.vShieldedSpend.isEmpty) = true))
  invalidUnless 10 "bad-txns-vout-empty"
    (¬(tx.vout = [] ∧ tx.sapData.any (fun d => d.vShieldedOutput.isEmpty) = true))
  invalidUnless 10 "bad-tx-version-too-high" (1 ≤ tx.nVersion ∧ tx.nVersion < 4)
  invalidUnless 10 "bad-txns-oversize"
    (V.getTotalSize tx ≤ if tx.isShieldedTx then MAX_TX_SIZE_AFTER_SAPLING else MAX_ZEROCOIN_TX_SIZE)
  let nValueOut ← checkSaplingTransaction p tx
  let _ ← tx.vout.foldlM (checkTxOut p tx fColdStakingActive) nValueOut
  let _ ← tx.vin.foldlM checkTxIn []
  if tx.isCoinBase then
    invalidUnless 100 "bad-cb-length"
      (2 ≤ (tx.vin.head?.map fun txin => txin.scriptSig.length).getD 0 ∧
        (tx.vin.head?.map fun txin => txin.scriptSig.length).getD 0 ≤ 150)
  else tx.vin.forM fun txin =>
    invalidUnless 10 "bad-txns-prevout-null" (¬(txin.prevout.isNull = true ∧ txin.isZerocoinSpend = false))

/-- Facts of a transaction that passed. -/
structure CheckedTx (tx : CTransaction) : Prop where
  vout_length : tx.vout.length ≤ 2 ^ 32
  nodup : tx.hasZerocoinSpendInputs = false → (tx.vin.map CTxIn.prevout).Nodup
  /-- only an ordinary transaction moves value to or from the shielded pool -/
  shielded : tx.valueBalance ≠ 0 → tx.isSaplingVersion = true ∧ tx.isCoinStake = false ∧ tx.isCoinBase = false ∧
    tx.hasZerocoinSpendInputs = false

/-- The duplicate check leaves distinct prevouts, zerocoin spends apart. -/
theorem foldlM_checkTxIn : ∀ {vin : List CTxIn} {seen seen' : List COutPoint},
    (∀ txin ∈ vin, txin.isZerocoinSpend = false) → vin.foldlM checkTxIn seen = .ok seen' →
    (vin.map CTxIn.prevout).Nodup ∧ ∀ txin ∈ vin, txin.prevout ∉ seen
  | [], _, _, _, _ => ⟨List.nodup_nil, nofun⟩
  | txin :: vin, seen, seen', hzc, h => by
    rw [List.forall_mem_cons] at hzc
    rw [List.foldlM_cons] at h
    obtain ⟨mid, hstep, h⟩ := bind_eq_ok.mp h
    simp only [checkTxIn, bind_eq_ok, invalidUnless, require_eq_ok, pure_eq_ok, hzc.1] at hstep
    obtain ⟨_, hnew, rfl⟩ := hstep
    obtain ⟨hnodup, hrest⟩ := foldlM_checkTxIn hzc.2 h
    rw [List.map_cons, List.nodup_cons, List.forall_mem_cons]
    refine ⟨⟨fun hmem => ?_, hnodup⟩, hnew, fun txin' hmem hseen => hrest txin' hmem (List.mem_cons_of_mem _ hseen)⟩
    obtain ⟨txin', hmem, heq⟩ := List.mem_map.mp hmem
    exact hrest txin' hmem (heq ▸ List.mem_cons_self)

variable {p V tx} in
theorem checkSaplingTransaction_eq_ok {v : Int} (h : checkSaplingTransaction p tx = .ok v) (hne : tx.valueBalance ≠ 0) :
    tx.isSaplingVersion = true ∧ tx.isCoinStake = false ∧ tx.isCoinBase = false ∧ tx.hasZerocoinSpendInputs = false := by
  have hdata := tx.hasSaplingData_of_valueBalance hne
  unfold checkSaplingTransaction at h
  obtain ⟨_, hversion, h⟩ := bind_eq_ok.mp h
  simp only [invalidUnless, require_eq_ok, hdata, and_true, Bool.not_eq_false] at hversion
  split at h
  · rename_i hnone
    rw [CTransaction.valueBalance, hnone] at hne
    exact (hne rfl).elim
  · simp only [hdata, Bool.true_eq_false, if_false, bind_eq_ok, invalidUnless, require_eq_ok] at h
    obtain ⟨_, hkind, -⟩ := h
    exact ⟨hversion, hkind.1, hkind.2.1, hkind.2.2.1⟩

variable {p V tx} in
/-- What a transaction accepted by `CheckTransaction` satisfies. -/
theorem checkTransaction_eq_ok {fColdStakingActive : Bool} (h : checkTransaction p V tx fColdStakingActive = .ok ()) :
    CheckedTx tx := by
  simp only [checkTransaction, bind_eq_ok, invalidUnless, require_eq_ok] at h
  obtain ⟨_, -, _, -, _, -, _, hsize, v, hsap, _, -, _, hvin, -⟩ := h
  refine ⟨?_, fun hzc => ?_, checkSaplingTransaction_eq_ok hsap⟩
  · have := V.vout_length_le tx
    simp only [MAX_TX_SIZE_AFTER_SAPLING, MAX_ZEROCOIN_TX_SIZE] at hsize
    split at hsize <;> omega
  · refine (foldlM_checkTxIn (fun txin hmem => ?_) hvin).1
    simp only [CTransaction.hasZerocoinSpendInputs, List.any_eq_false, Bool.or_eq_true, not_or, Bool.not_eq_true] at hzc
    exact (hzc txin hmem).1

end Transactions

/-! ## Blocks -/

section Blocks

variable (D : Type) [Digest D] (p : CChainParams) (c : Crypto) (V : NodeChecks) (N : NodeEnv) (env : Env)
  (block : CBlock) (pindexPrev : CBlockIndex)

def checkColdStakeFreeOutput (S : PayeeState) (tx : CTransaction) (nHeight : Int) : Bool :=
  if (tx.vout[1]?).any (fun out => CScript.isPayToColdStakingLOF out.scriptPubKey) = false then true
  else match tx.vout.reverse with
    | lastOut :: previous :: _ :: _ =>
      if lastOut.scriptPubKey = previous.scriptPubKey then true
      -- after v6.0 nodes and budgets are paid in the coinbase: no free output
      else if p.networkUpgradeActive nHeight .UPGRADE_V6_0 then false
      else if lastOut.nValue = getPatriotnodePayment nHeight then true
      else if S.budgetman.isBudgetPaymentBlock nHeight then S.isSporkActive .SPORK_13_ENABLE_SUPERBLOCKS
      else false
    | _ => true

def getTotalShieldedTxSize : Nat := ((block.vtx.filter CTransaction.isShieldedTx).map V.getTotalSize).sum

/-- `CheckBlock` of a block that extends the tip, with all checks on. -/
def checkBlock : Result Unit := do
  invalidUnless 50 "high-hash" (block.isProofOfStake = true ∨ V.checkProofOfWork block = true)
  invalidUnless 100 "bad-txnmrklroot" (V.merkleRootMatches block = true)
  invalidUnless 100 "bad-txns-duplicate" (V.merkleMutated block = false)
  invalidUnless 100 "bad-blk-length" (block.vtx ≠ [] ∧ block.vtx.length ≤ MAX_BLOCK_SIZE_CURRENT ∧
    V.getSerializeSize block ≤ MAX_BLOCK_SIZE_CURRENT)
  invalidUnless 100 "bad-blk-shielded-size" (¬(MAX_BLOCK_SHIELDED_TXES_SIZE < V.getSerializeSize block ∧
    MAX_BLOCK_SHIELDED_TXES_SIZE < getTotalShieldedTxSize V block))
  invalidUnless 100 "bad-cb-missing" ((block.vtx.head?).any CTransaction.isCoinBase = true)
  invalidUnless 100 "bad-cb-multiple" (∀ tx ∈ block.vtx.drop 1, tx.isCoinBase = false)
  (if block.isProofOfStake then do
    invalidUnless 100 "bad-cs-missing" ((block.vtx[1]?).any CTransaction.isCoinStake = true)
    invalidUnless 100 "bad-cs-multiple" (∀ tx ∈ block.vtx.drop 2, tx.isCoinStake = false)
  else pure ())
  invalidUnless 0 "bad-p2cs-outs" (N.fInitialBlockDownload = true ∨ block.isProofOfStake = false ∨
    (block.vtx[1]?).all (fun tx => checkColdStakeFreeOutput p N.payees tx (pindexPrev.nHeight + 1)) = true)
  let fColdStakingActive := N.fInitialBlockDownload || !N.payees.isSporkActive .SPORK_19_COLDSTAKING_MAINTENANCE
  block.vtx.forM fun tx => do
    checkTransaction p V tx fColdStakingActive
    checkSpecialTxNoContext (D := D) p c env tx
  invalidUnless 100 "bad-blk-sigops" ((block.vtx.map V.getLegacySigOpCount).sum ≤
    if p.zcTimeStart < block.nTime then MAX_BLOCK_SIGOPS_CURRENT else MAX_BLOCK_SIGOPS_LEGACY)
  invalidUnless 100 "bad-PoS-sig" (V.checkBlockSignature block = true)

/-- Facts of a block that passed. -/
structure CheckedBlock (block : CBlock) : Prop where
  coinbase : ∃ cb rest, block.vtx = cb :: rest ∧ cb.isCoinBase = true ∧ ∀ tx ∈ rest, tx.isCoinBase = false
  txs : ∀ tx ∈ block.vtx, CheckedTx tx

variable {D p c V N env block pindexPrev} in
/-- What a block accepted by `CheckBlock` satisfies. -/
theorem checkBlock_eq_ok (h : checkBlock D p c V N env block pindexPrev = .ok ()) : CheckedBlock block := by
  simp only [checkBlock, bind_eq_ok, invalidUnless, require_eq_ok] at h
  obtain ⟨_, -, _, -, _, -, _, -, _, -, _, hcb, _, hmultiple, _, -, _, -, _, htxs, -⟩ := h
  constructor
  · cases hvtx : block.vtx with
    | nil => rw [hvtx] at hcb; cases hcb
    | cons cb rest =>
      rw [hvtx] at hcb hmultiple
      exact ⟨cb, rest, rfl, by simpa using hcb, hmultiple⟩
  · intro tx htx
    obtain ⟨_, hcheck, -⟩ := bind_eq_ok.mp (forM_eq_ok.mp htxs tx htx)
    exact checkTransaction_eq_ok hcheck

end Blocks

end TrumpCoin
