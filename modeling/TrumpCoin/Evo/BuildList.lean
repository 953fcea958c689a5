import TrumpCoin.Evo.SpecialTx

/-!
# Building the list of a block

`CDeterministicPNManager::BuildNewListFromBlock` and the parts of `ProcessBlock` and
`ProcessSpecialTxsInBlock` that compute the list of a block from the list of the previous one. The function
is cut at the source's own stages:

1. nodes that reached their confirmations get their `confirmedHash` (`confirmPNs`);
2. penalties decrease (`decreasePoSePenalties`);
3. the special transactions are applied in order (`applySpecialTx`);
4. nodes whose collateral is spent by the block are removed (`removeSpentCollaterals`);
5. the payee of the previous list is marked as paid (`markPaid`).

The legacy node that `mnodeman` may hold for a registered collateral is not part of the list and left out.
-/

namespace TrumpCoin

open Lib

section Build

variable {D : Type} [Digest D] (p : CChainParams) (c : Crypto) (env : Env)

def confirmPN (pindexPrev : CBlockIndex) (newList : CDeterministicPNList D) (dmn : CDeterministicPN) :
    Result (CDeterministicPNList D) :=
  if dmn.pdmnState.confirmedHash ≠ 0 then .ok newList
  else if p.patriotnodeCollateralMinConf ≤ pindexPrev.nHeight - dmn.pdmnState.nRegisteredHeight then
    newList.updatePNByHash dmn.proTxHash
      (dmn.pdmnState.updateConfirmedHash c.sha256 dmn.proTxHash pindexPrev.getBlockHash)
  else .ok newList

def confirmPNs (pindexPrev : CBlockIndex) (oldList newList : CDeterministicPNList D) :
    Result (CDeterministicPNList D) :=
  (oldList.forEachPN env.order false).foldlM (confirmPN p c pindexPrev) newList

/-! ## Special transactions -/

/-- The collateral a registration refers to: an output of its own transaction, or an external one. -/
def proRegCollateral (tx : CTransaction) (pl : ProRegPL) : COutPoint :=
  if pl.collateralOutpoint.hash = 0 then ⟨tx.getHash, pl.collateralOutpoint.n⟩ else pl.collateralOutpoint

/-- The node a registration creates at height `nHeight`. -/
def newPN (nHeight : Int) (internalId : Nat) (tx : CTransaction) (pl : ProRegPL) : CDeterministicPN where
  internalId := internalId
  proTxHash := tx.getHash
  collateralOutpoint := proRegCollateral tx pl
  nOperatorReward := pl.nOperatorReward
  pdmnState := { CDeterministicPNState.ofProReg pl with
    nRegisteredHeight := nHeight
    -- without an address the node starts banned and waits for a service update
    nPoSeBanHeight := if pl.addr = CService.null then nHeight else -1 }

def removeReplaced (collateral : COutPoint) (newList : CDeterministicPNList D) :
    Result (CDeterministicPNList D) :=
  match newList.getPNByCollateral collateral with
  | none => .ok newList
  | some replacedDmn => newList.removePN replacedDmn.proTxHash

/-- The coin of an external collateral has the collateral amount. -/
def externalCollateralOk (pl : ProRegPL) : Bool :=
  (env.getUTXOCoin pl.collateralOutpoint).any fun coin => coin.out.nValue == p.nPNCollateralAmt

variable (nHeight : Int) (newList : CDeterministicPNList D) (tx : CTransaction)

def applyProReg : Result (CDeterministicPNList D) := do
  let pl ← payloadOrReject ProRegPL.codec tx
  let dmn := newPN nHeight newList.nTotalRegisteredCount tx pl
  invalidUnless 100 "bad-protx-collateral"
    (pl.collateralOutpoint.hash = 0 ∨ externalCollateralOk p env pl = true)
  let newList ← removeReplaced dmn.collateralOutpoint newList
  duplicateUnless 100 "bad-protx-dup-IP-address" (newList.hasUniqueProperty (.service pl.addr) = false)
  duplicateUnless 100 "bad-protx-dup-owner-key" (newList.hasUniqueProperty (.keyID pl.keyIDOwner) = false)
  duplicateUnless 100 "bad-protx-dup-operator-key" (newList.hasUniqueProperty (.keyID pl.keyIDOperator) = false)
  newList.addPN dmn true

/-- The state after a service update. A banned node is revived when all its keys are set. -/
def serviceState (nHeight : Int) (pl : ProUpServPL) (s : CDeterministicPNState) : CDeterministicPNState :=
  let s := { s with addr := pl.addr, scriptOperatorPayout := pl.scriptOperatorPayout }
  if s.nPoSeBanHeight ≠ -1 ∧ s.keyIDOperator ≠ 0 ∧ s.keyIDVoting ≠ 0 ∧ s.keyIDOwner ≠ 0 then
    { s with nPoSePenalty := 0, nPoSeBanHeight := -1, nPoSeRevivedHeight := nHeight }
  else s

def applyProUpServ : Result (CDeterministicPNList D) := do
  let pl ← payloadOrReject ProUpServPL.codec tx
  let other ← newList.usedByOther (.service pl.addr) pl.proTxHash
  duplicateUnless 100 "bad-protx-dup-addr" (other = false)
  match newList.getPN pl.proTxHash with
  | none => dosInvalid 100 "bad-protx-hash"
  | some dmn =>
    invalidUnless 100 "bad-protx-operator-payee"
      (dmn.nOperatorReward ≠ 0 ∨ pl.scriptOperatorPayout.isEmpty = true)
    newList.updatePNByHash pl.proTxHash (serviceState nHeight pl dmn.pdmnState)

/-- The state after a registrar update. A new operator key resets and bans the node. -/
def registrarState (nHeight : Int) (pl : ProUpRegPL) (s : CDeterministicPNState) : CDeterministicPNState :=
  let s := if s.keyIDOperator ≠ pl.keyIDOperator then s.resetOperatorFields.banIfNotBanned nHeight else s
  { s with keyIDOperator := pl.keyIDOperator, keyIDVoting := pl.keyIDVoting, scriptPayout := pl.scriptPayout }

def applyProUpReg : Result (CDeterministicPNList D) := do
  let pl ← payloadOrReject ProUpRegPL.codec tx
  match newList.getPN pl.proTxHash with
  | none => dosInvalid 100 "bad-protx-hash"
  | some dmn =>
    let other ← newList.usedByOther (.keyID pl.keyIDOperator) pl.proTxHash
    duplicateUnless 100 "bad-protx-dup-operator-key" (other = false)
    newList.updatePNByHash pl.proTxHash (registrarState nHeight pl dmn.pdmnState)

def revokedState (nHeight : Int) (pl : ProUpRevPL) (s : CDeterministicPNState) : CDeterministicPNState :=
  { s.resetOperatorFields.banIfNotBanned nHeight with nRevocationReason := pl.nReason }

def applyProUpRev : Result (CDeterministicPNList D) := do
  let pl ← payloadOrReject ProUpRevPL.codec tx
  match newList.getPN pl.proTxHash with
  | none => dosInvalid 100 "bad-protx-hash"
  | some dmn => newList.updatePNByHash pl.proTxHash (revokedState nHeight pl dmn.pdmnState)

def applySpecialTx : Result (CDeterministicPNList D) :=
  if tx.nType = TxType.PROREG then applyProReg p env nHeight newList tx
  else if tx.nType = TxType.PROUPSERV then applyProUpServ nHeight newList tx
  else if tx.nType = TxType.PROUPREG then applyProUpReg nHeight newList tx
  else if tx.nType = TxType.PROUPREV then applyProUpRev nHeight newList tx
  else .ok newList

/-! ## Spent collaterals and the payee -/

def removeSpentCollateral (newList : CDeterministicPNList D) (prevout : COutPoint) :
    Result (CDeterministicPNList D) :=
  match newList.getPNByCollateral prevout with
  | none => .ok newList
  | some dmn => if dmn.collateralOutpoint = prevout then newList.removePN dmn.proTxHash else .ok newList

/-- The transactions the loops visit: all but the coinbase. -/
def CBlock.nonCoinbase (b : CBlock) : List CTransaction := b.vtx.drop 1

/-- The outpoints the block spends, in the order of the spending loop. -/
def CBlock.prevouts (b : CBlock) : List COutPoint := b.nonCoinbase.flatMap fun tx => tx.vin.map CTxIn.prevout

def removeSpentCollaterals (block : CBlock) (newList : CDeterministicPNList D) :
    Result (CDeterministicPNList D) :=
  block.prevouts.foldlM removeSpentCollateral newList

def markPaid (nHeight : Int) (payee : Option CDeterministicPN) (newList : CDeterministicPNList D) :
    Result (CDeterministicPNList D) :=
  match payee with
  | none => .ok newList
  | some payee =>
    match newList.getPN payee.proTxHash with
    | none => .ok newList
    | some dmn => newList.updatePNByHash payee.proTxHash { dmn.pdmnState with nLastPaidHeight := nHeight }

variable (block : CBlock) (pindexPrev : CBlockIndex) (oldList : CDeterministicPNList D)

/-- `BuildNewListFromBlock`, with `oldList` the value of `GetListForBlock(pindexPrev)`. -/
def buildNewListFromBlock : Result (CDeterministicPNList D) := do
  let nHeight : Int := pindexPrev.nHeight + 1
  let newList := { oldList with blockHash := 0, nHeight := nHeight }
  let payee := oldList.getPNPayee env.order
  let newList ← confirmPNs p c env pindexPrev oldList newList
  let newList ← newList.decreasePoSePenalties env.order
  let newList ← block.nonCoinbase.foldlM (applySpecialTx p env nHeight) newList
  let newList ← removeSpentCollaterals block newList
  markPaid nHeight payee newList

/-! ## Processing a block -/

def isDIP3Enforced (nHeight : Nat) : Bool := p.networkUpgradeActive nHeight .UPGRADE_V6_0

/-- The `catch` clause of `ProcessBlock`: an exception becomes a rejection, a failing assertion does not. -/
def catchException {α : Type} : Result α → Result α
  | .error (.exception _) => dosInvalid 100 "failed-dmn-block"
  | r => r

theorem catchException_eq_ok {α : Type} {r : Result α} {a : α} : catchException r = .ok a ↔ r = .ok a := by
  match r with
  | .ok _ => exact Iff.rfl
  | .error (.exception _) => exact ⟨nofun, nofun⟩
  | .error (.reject _ _ _) => exact Iff.rfl
  | .error (.error _) => exact Iff.rfl
  | .error (.assertFailure _) => exact Iff.rfl
  | .error (.nullDeref _) => exact Iff.rfl

/-- The list `ProcessBlock` computes for a block: empty before enforcement. -/
def newListOfBlock : Result (CDeterministicPNList D) :=
  if isDIP3Enforced p (pindexPrev.nHeight + 1) then do
    let newList ← catchException (buildNewListFromBlock p c env block pindexPrev oldList)
    return { newList with blockHash := block.getHash }
  else .ok {}

/-- `ProcessSpecialTxsInBlock` as a function of the previous list: every transaction is checked against that
list, then the new list is computed. -/
def processSpecialTxsInBlock : Result (CDeterministicPNList D) := do
  block.vtx.forM fun tx => checkSpecialTx p c env tx { pindexPrev := pindexPrev, mnList := oldList }
  newListOfBlock p c env block pindexPrev oldList

end Build

end TrumpCoin
