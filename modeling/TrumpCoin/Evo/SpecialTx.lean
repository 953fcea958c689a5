import TrumpCoin.Evo.PNList

/-!
# Checks of special transactions

`CheckSpecialTx` and `CheckSpecialTxNoContext` of `evo/specialtx.cpp` and the four payload checks of `evo/providertx.cpp`, against the list
of the previous block. A check either returns or rejects with the source's score, code and reason.

Hash functions and signature checks are parameters (`Crypto`), and so is what the node looks up while it
connects one block (`Env`): the coins of `pcoinsTip`, the value of spork 21 and the iteration order of maps.
-/

namespace TrumpCoin

open Lib

structure Crypto where
  /-- `CPubKey::GetID` -/
  hash160 : Bytes → CKeyID
  /-- one pass of SHA-256 -/
  sha256 : Bytes → uint256
  /-- `CHashWriter::GetHash` of the written bytes -/
  hashWriter : Bytes → uint256
  /-- `CHashSigner::VerifyHash` for the hash of the given bytes, a key and a signature -/
  verifyHash : Bytes → CKeyID → Bytes → Bool
  /-- `CMessageSigner::VerifyMessage` for a key, a signature and `MakeSignString()` of the payload -/
  verifyMessage : CKeyID → Bytes → ProRegPL → Bool

/-- What the node looks up while it connects one block. -/
structure Env where
  /-- `GetUTXOCoin`: the coins of the tip, before the block -/
  getUTXOCoin : COutPoint → Option Coin
  /-- `SPORK_21_LEGACY_PNS_MAX_HEIGHT` -/
  legacyPNsMaxHeight : Int
  /-- the order in which maps are iterated -/
  order : MapOrder

def Env.legacyPNObsolete (env : Env) (nHeight : Int) : Bool := env.legacyPNsMaxHeight < nHeight

/-- The previous block and `GetListForBlock` of it, where the source has a non-null `pindexPrev`. -/
structure PrevBlock (D : Type) [Digest D] where
  pindexPrev : CBlockIndex
  mnList : CDeterministicPNList D

def calcTxInputsHash (c : Crypto) (tx : CTransaction) : uint256 :=
  c.hashWriter (tx.vin.flatMap (fun i => COutPoint.codec.write i.prevout) ++
    match tx.sapData with
    | some d => if tx.hasSaplingData then d.vShieldedSpend.flatMap fun sd => hash256.write sd.nullifier else []
    | none => [])

section Checks

variable {D : Type} [Digest D] (p : CChainParams) (c : Crypto) (env : Env)

def invalidUnless (nDoS : Nat) (reason : String) (cond : Prop) [Decidable cond] : Result Unit :=
  require (.reject nDoS .REJECT_INVALID reason) cond

def duplicateUnless (nDoS : Nat) (reason : String) (cond : Prop) [Decidable cond] : Result Unit :=
  require (.reject nDoS .REJECT_DUPLICATE reason) cond

def payloadOrReject {α : Type} (cd : Codec α) (tx : CTransaction) : Result α :=
  match getTxPayload cd tx with
  | none => dosInvalid 100 "bad-protx-payload"
  | some pl => .ok pl

def checkService (addr : CService) : Result Unit := do
  invalidUnless 10 "bad-protx-ipaddr" (addr.isValid = true)
  invalidUnless 10 "bad-protx-ipaddr" (p.isRegTestNet = true ∨ addr.isRoutable = true)
  invalidUnless 10 "bad-protx-ipaddr-port"
    (if p.networkID = .MAIN then addr.port = mainnetDefaultPort else addr.port ≠ mainnetDefaultPort)
  invalidUnless 10 "bad-protx-ipaddr" (addr.isIPv4 = true)

def checkHashSig (forHash : Bytes) (keyID : CKeyID) (vchSig : Bytes) : Result Unit :=
  invalidUnless 100 "bad-protx-sig" (c.verifyHash forHash keyID vchSig = true)

def checkStringSig (pl : ProRegPL) (keyID : CKeyID) : Result Unit :=
  invalidUnless 100 "bad-protx-sig" (c.verifyMessage keyID pl.vchSig pl = true)

variable (tx : CTransaction)

def checkInputsHash (inputsHash : uint256) : Result Unit :=
  invalidUnless 100 "bad-protx-inputs-hash" (calcTxInputsHash c tx = inputsHash)

/-- `CheckCollateralOut`; returns the destination of the collateral. -/
def checkCollateralOut (out : CTxOut) (pl : ProRegPL) : Result CTxDestination := do
  match extractDestination c.hash160 out.scriptPubKey with
  | none => dosInvalid 10 "bad-protx-collateral-dest"
  | some dest =>
    invalidUnless 10 "bad-protx-collateral-reuse"
      (dest ≠ .keyID pl.keyIDOwner ∧ dest ≠ .keyID pl.keyIDVoting ∧ dest ≠ .keyID pl.keyIDOperator)
    invalidUnless 100 "bad-protx-collateral-amount" (out.nValue = p.nPNCollateralAmt)
    return dest

/-! ## Registration -/

/-- The part of `CheckProRegTx` that reads the payload alone. -/
def checkProRegFields (pl : ProRegPL) : Result Unit := do
  invalidUnless 100 "bad-protx-version" (pl.nVersion ≠ 0 ∧ pl.nVersion ≤ CURRENT_VERSION)
  invalidUnless 100 "bad-protx-type" (pl.nType = 0)
  invalidUnless 100 "bad-protx-mode" (pl.nMode = 0)
  invalidUnless 10 "bad-protx-key-null" (pl.keyIDOwner ≠ 0 ∧ pl.keyIDOperator ≠ 0 ∧ pl.keyIDVoting ≠ 0)
  invalidUnless 10 "bad-protx-payee" (CScript.isPayToPublicKeyHash pl.scriptPayout = true)
  invalidUnless 10 "bad-protx-operator-payee"
    (pl.scriptOperatorPayout.isEmpty = true ∨ CScript.isPayToPublicKeyHash pl.scriptOperatorPayout = true)
  match extractDestination c.hash160 pl.scriptPayout with
  | none => dosInvalid 10 "bad-protx-payee-dest"
  | some payoutDest =>
    invalidUnless 10 "bad-protx-payee-reuse" (payoutDest ≠ .keyID pl.keyIDOwner ∧
      payoutDest ≠ .keyID pl.keyIDVoting ∧ payoutDest ≠ .keyID pl.keyIDOperator)
    (if pl.addr = CService.null then pure () else checkService p pl.addr)
    invalidUnless 10 "bad-protx-operator-reward" (pl.nOperatorReward ≤ 10000)

/-- The collateral part of `CheckProRegTx`. An external collateral is looked up only with a previous block. -/
def checkProRegCollateral (pl : ProRegPL) (hasPrev : Bool) : Result Unit :=
  if pl.collateralOutpoint.hash = 0 then do
    match tx.vout[pl.collateralOutpoint.n.toNat]? with
    | none => dosInvalid 10 "bad-protx-collateral-index"
    | some out =>
      let _ ← checkCollateralOut p c out pl
      invalidUnless 100 "bad-protx-sig" (pl.vchSig.isEmpty = true)
  else if hasPrev then
    match env.getUTXOCoin pl.collateralOutpoint with
    | none => dosInvalid 10 "bad-protx-collateral"
    | some coin => do
      let dest ← checkCollateralOut p c coin.out pl
      match dest with
      | .scriptID _ => dosInvalid 10 "bad-protx-collateral-pkh"
      | .keyID keyForPayloadSig => checkStringSig c pl keyForPayloadSig
  else .ok ()

/-- An address in use is accepted only for the same collateral, whose node is then replaced. -/
def checkProRegAddress (pl : ProRegPL) (mnList : CDeterministicPNList D) : Result Unit :=
  if mnList.hasUniqueProperty (.service pl.addr) then
    match mnList.getUniquePropertyPN (.service pl.addr) with
    | none => .error (.nullDeref "GetUniquePropertyPN")
    | some other =>
      duplicateUnless 10 "bad-protx-dup-IP-address" (other.collateralOutpoint = pl.collateralOutpoint)
  else .ok ()

/-- The part of `CheckProRegTx` that compares the payload with the list of the previous block. -/
def checkProRegList (pl : ProRegPL) (mnList : CDeterministicPNList D) : Result Unit := do
  checkProRegAddress pl mnList
  duplicateUnless 10 "bad-protx-dup-owner-key" (mnList.hasUniqueProperty (.keyID pl.keyIDOwner) = false)
  duplicateUnless 10 "bad-protx-dup-operator-key" (mnList.hasUniqueProperty (.keyID pl.keyIDOperator) = false)

variable (prev : Option (PrevBlock D))

def checkProRegTx : Result Unit := do
  let pl ← payloadOrReject ProRegPL.codec tx
  checkProRegFields p c pl
  checkProRegCollateral p c env tx pl prev.isSome
  checkInputsHash c tx pl.inputsHash
  match prev with
  | none => return ()
  | some prev => checkProRegList pl prev.mnList

/-! ## Updates -/

def checkProUpServTx : Result Unit := do
  let pl ← payloadOrReject ProUpServPL.codec tx
  invalidUnless 100 "bad-protx-version" (pl.nVersion ≠ 0 ∧ pl.nVersion ≤ CURRENT_VERSION)
  checkService p pl.addr
  checkInputsHash c tx pl.inputsHash
  match prev with
  | none => return ()
  | some prev =>
    match prev.mnList.getPN pl.proTxHash with
    | none => dosInvalid 100 "bad-protx-hash"
    | some mn =>
      let other ← prev.mnList.usedByOther (.service pl.addr) pl.proTxHash
      duplicateUnless 10 "bad-protx-dup-addr" (other = false)
      invalidUnless 10 "bad-protx-operator-payee" (pl.scriptOperatorPayout.isEmpty = true ∨
        mn.nOperatorReward ≠ 0 ∧ CScript.isPayToPublicKeyHash pl.scriptOperatorPayout = true)
      checkHashSig c pl.forHash mn.pdmnState.keyIDOperator pl.vchSig

/-- The part of `CheckProUpRegTx` that reads the payload alone; returns the payout destination. -/
def checkProUpRegFields (pl : ProUpRegPL) : Result CTxDestination := do
  invalidUnless 100 "bad-protx-version" (pl.nVersion ≠ 0 ∧ pl.nVersion ≤ CURRENT_VERSION)
  invalidUnless 100 "bad-protx-mode" (pl.nMode = 0)
  invalidUnless 10 "bad-protx-operator-key-null" (pl.keyIDOperator ≠ 0)
  invalidUnless 10 "bad-protx-voting-key-null" (pl.keyIDVoting ≠ 0)
  invalidUnless 10 "bad-protx-payee" (CScript.isPayToPublicKeyHash pl.scriptPayout = true)
  match extractDestination c.hash160 pl.scriptPayout with
  | none => dosInvalid 10 "bad-protx-payee-dest"
  | some payoutDest =>
    invalidUnless 10 "bad-protx-payee-reuse"
      (payoutDest ≠ .keyID pl.keyIDVoting ∧ payoutDest ≠ .keyID pl.keyIDOperator)
    return payoutDest

/-- The part of `CheckProUpRegTx` that reads the previous block's list and the coins. -/
def checkProUpRegList (pl : ProUpRegPL) (payoutDest : CTxDestination) (prev : PrevBlock D) : Result Unit := do
  invalidUnless 10 "spork-21-inactive" (env.legacyPNObsolete (prev.pindexPrev.nHeight + 1) = true)
  match prev.mnList.getPN pl.proTxHash with
  | none => dosInvalid 100 "bad-protx-hash"
  | some dmn =>
    invalidUnless 10 "bad-protx-payee-reuse" (payoutDest ≠ .keyID dmn.pdmnState.keyIDOwner)
    match env.getUTXOCoin dmn.collateralOutpoint with
    | none => dosInvalid 100 "bad-protx-collateral"
    | some coin =>
      match extractDestination c.hash160 coin.out.scriptPubKey with
      | none => dosInvalid 100 "bad-protx-collateral-dest"
      | some collateralTxDest =>
        invalidUnless 10 "bad-protx-collateral-reuse" (collateralTxDest ≠ .keyID dmn.pdmnState.keyIDOwner ∧
          collateralTxDest ≠ .keyID pl.keyIDVoting ∧ collateralTxDest ≠ .keyID pl.keyIDOperator)
        let other ← prev.mnList.usedByOther (.keyID pl.keyIDOperator) pl.proTxHash
        duplicateUnless 10 "bad-protx-dup-key" (other = false)
        checkHashSig c pl.forHash dmn.pdmnState.keyIDOwner pl.vchSig

def checkProUpRegTx : Result Unit := do
  let pl ← payloadOrReject ProUpRegPL.codec tx
  let payoutDest ← checkProUpRegFields c pl
  checkInputsHash c tx pl.inputsHash
  match prev with
  | none => return ()
  | some prev => checkProUpRegList c env pl payoutDest prev

def checkProUpRevTx : Result Unit := do
  let pl ← payloadOrReject ProUpRevPL.codec tx
  invalidUnless 100 "bad-protx-version" (pl.nVersion ≠ 0 ∧ pl.nVersion ≤ CURRENT_VERSION)
  invalidUnless 100 "bad-protx-reason" (pl.nReason ≤ REASON_LAST)
  checkInputsHash c tx pl.inputsHash
  match prev with
  | none => return ()
  | some prev =>
    match prev.mnList.getPN pl.proTxHash with
    | none => dosInvalid 100 "bad-protx-hash"
    | some dmn => checkHashSig c pl.forHash dmn.pdmnState.keyIDOperator pl.vchSig

/-! ## All types -/

def MAX_SPECIALTX_EXTRAPAYLOAD : Nat := 10000

def checkSpecialTxBasic : Result Unit :=
  if tx.isNormalType then invalidUnless 100 "bad-txns-type-payload" (tx.hasExtraPayload = false)
  else do
    invalidUnless 100 "bad-txns-type-version" (tx.isSaplingVersion = true)
    invalidUnless 10 "bad-txns-special-coinbase" (tx.isCoinBase = false ∧ tx.isCoinStake = false)
    invalidUnless 100 "bad-txns-payload-empty" (tx.hasExtraPayload = true)
    invalidUnless 100 "bad-txns-payload-oversize"
      ((tx.extraPayload.getD []).length ≤ MAX_SPECIALTX_EXTRAPAYLOAD)

def checkSpecialTx (prev : PrevBlock D) : Result Unit := do
  checkSpecialTxBasic tx
  if tx.isNormalType then return ()
  else do
    invalidUnless 100 "bad-txns-v6-not-active"
      (p.networkUpgradeActive (prev.pindexPrev.nHeight + 1) .UPGRADE_V6_0 = true)
    if tx.nType = TxType.PROREG then checkProRegTx p c env tx (some prev)
    else if tx.nType = TxType.PROUPSERV then checkProUpServTx p c tx (some prev)
    else if tx.nType = TxType.PROUPREG then checkProUpRegTx c env tx (some prev)
    else if tx.nType = TxType.PROUPREV then checkProUpRevTx c tx (some prev)
    else dosInvalid 10 "bad-tx-type"

def checkSpecialTxNoContext : Result Unit := do
  checkSpecialTxBasic tx
  if tx.nType = TxType.NORMAL then return ()
  else if tx.nType = TxType.PROREG then checkProRegTx p c env tx (none : Option (PrevBlock D))
  else if tx.nType = TxType.PROUPSERV then checkProUpServTx p c tx (none : Option (PrevBlock D))
  else if tx.nType = TxType.PROUPREG then checkProUpRegTx c env tx (none : Option (PrevBlock D))
  else if tx.nType = TxType.PROUPREV then checkProUpRevTx c tx (none : Option (PrevBlock D))
  else dosInvalid 10 "bad-tx-type"

end Checks

end TrumpCoin
