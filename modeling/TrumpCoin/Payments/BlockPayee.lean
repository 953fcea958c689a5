import TrumpCoin.Lib.Best
import TrumpCoin.Patriotnodes.Manager
import TrumpCoin.Payments.Budget
import TrumpCoin.Payments.SignedMessage

/-!
# Who a block has to pay

`FillBlockPayee`, with which a block is assembled, and `IsBlockPayeeValid`, with which it is checked
(`patriotnode-payments.cpp`). Both read the sporks, the finalized budgets, the votes for the payee of a height, the
legacy nodes and the deterministic list at the tip; `PayeeState` collects what they read.
-/

namespace TrumpCoin

open Lib

/-! ## State -/

inductive SporkId where
  | SPORK_8_PATRIOTNODE_PAYMENT_ENFORCEMENT | SPORK_9_PATRIOTNODE_BUDGET_ENFORCEMENT | SPORK_13_ENABLE_SUPERBLOCKS
  | SPORK_19_COLDSTAKING_MAINTENANCE
deriving DecidableEq

structure CPatriotnodePayee where
  scriptPubKey : CScript
  nVotes : Int
deriving DecidableEq

def PNPAYMENTS_SIGNATURES_REQUIRED : Int := 6

structure CPatriotnodePaymentWinner extends CSignedMessage where
  vinPatriotnode : CTxIn
  nBlockHeight : Int
  payee : CScript
deriving DecidableEq

/-- The votes for the payees; `mapPatriotnodeBlocks` has `vecPayments` of each height. -/
structure CPatriotnodePayments where
  mapPatriotnodePayeeVotes : FinMap uint256 CPatriotnodePaymentWinner := ∅
  mapPatriotnodeBlocks : FinMap Int (List CPatriotnodePayee) := ∅
  mapPatriotnodesLastVote : FinMap COutPoint Int := ∅

/-- What the payee functions read of the node. -/
structure PayeeState extends CPatriotnodePayments where
  isSynced : Bool
  isSporkActive : SporkId → Bool
  /-- `SPORK_21_LEGACY_PNS_MAX_HEIGHT` -/
  legacyPNsMaxHeight : Int
  budgetman : BudgetManager
  mapPayment_History : PaymentHistory
  /-- the block is in the index and part of the active chain -/
  onChain : uint256 → Bool
  nodeCrypto : NodeCrypto
  mnodeman : CPatriotnodeMan := {}
  /-- what the manager of the legacy nodes reads of the chain and the clock -/
  manEnv : ManEnv := {}
  /-- the height of the tip of the deterministic manager -/
  tipHeight : Int := -1
  /-- the valid nodes of `GetListAtChainTip`, in the order of the traversal -/
  mnList : List CDeterministicPN := []
  hashGenesisBlock : uint256

namespace CPatriotnodeBlockPayees

variable (vecPayments : List CPatriotnodePayee)

/-- `GetPayee`: the first payee with the most votes. -/
def getPayee : Option CScript :=
  (highest CPatriotnodePayee.nVotes (-1) vecPayments).map CPatriotnodePayee.scriptPubKey

/-- `nMaxSignatures` of `IsTransactionValid`. -/
def maxSignatures : Int :=
  vecPayments.foldl (fun nMaxSignatures payee =>
    if nMaxSignatures ≤ payee.nVotes ∧ PNPAYMENTS_SIGNATURES_REQUIRED ≤ payee.nVotes then payee.nVotes
    else nMaxSignatures) 0

def isTransactionValid (vout : List CTxOut) (nHeight : Int) : Bool :=
  if maxSignatures vecPayments < PNPAYMENTS_SIGNATURES_REQUIRED then true
  else
    let requiredPatriotnodePayment := getPatriotnodePayment nHeight
    vecPayments.any fun payee =>
      let found := vout.any fun out => payee.scriptPubKey == out.scriptPubKey && out.nValue == requiredPatriotnodePayment
      decide (PNPAYMENTS_SIGNATURES_REQUIRED ≤ payee.nVotes) && found

end CPatriotnodeBlockPayees

namespace PayeeState

variable (S : PayeeState) (p : CChainParams)

def legacyPNObsolete (nHeight : Int) : Bool := decide (S.legacyPNsMaxHeight < nHeight)

/-! ## The node to pay -/

def getBlockPayee (nBlockHeight : Int) : Option CScript :=
  (S.mapPatriotnodeBlocks[nBlockHeight]?).bind CPatriotnodeBlockPayees.getPayee

/-- The legacy nodes that `GetCurrentPatriotNode` scans: the collateral and the script to pay. -/
def legacyCandidates : List (COutPoint × CScript) :=
  (S.mnodeman.mapPatriotnodes.toList.filter fun mn =>
    !decide (mn.2.protocolVersion < S.manEnv.activeProtocol) && mn.2.isEnabled p S.manEnv).map fun mn =>
      (mn.2.vin.prevout, getScriptForKey (S.nodeCrypto.getID mn.2.pubKeyCollateralAddress))

/-- The deterministic nodes that it scans. `GetPayeeScript` of a node without a script pays the empty key. -/
def dmnCandidates : List (COutPoint × CScript) :=
  if p.networkUpgradeActive S.tipHeight .UPGRADE_V6_0 then
    S.mnList.map fun dmn => (dmn.collateralOutpoint,
      if dmn.pdmnState.scriptPayout = [] then getScriptForKey (S.nodeCrypto.getID []) else dmn.pdmnState.scriptPayout)
  else []

/-- The score of a candidate. -/
def score (hash : uint256) (node : COutPoint × CScript) : Int := (getCompact (calculateScore S.nodeCrypto node.1 hash)).toNat

/-- `CPatriotnodeMan::GetCurrentPatriotNode`: the script of the first node with the highest score. -/
def getCurrentPatriotNode (hash : uint256) : Option CScript :=
  let winner := (S.legacyCandidates p).foldl (keepHigher (S.score hash) 0) none
  ((S.dmnCandidates p).foldl (keepHigher (S.score hash) 0) winner).map Prod.snd

/-- The hash that decides about the node to pay without votes. -/
def scoringHash (nHeight : Int) : uint256 :=
  if p.networkUpgradeActive nHeight .UPGRADE_V5_3 then S.manEnv.getHashAtHeight (nHeight - 1) else S.hashGenesisBlock

/-- The payee of `GetLegacyPatriotnodeTxOut`: the one voted for, or else the node with the highest score. -/
def legacyPayee (nHeight : Int) : Option CScript :=
  match S.getBlockPayee nHeight with
  | some payee => some payee
  | none => S.getCurrentPatriotNode p (S.scoringHash p nHeight)

def getLegacyPatriotnodeTxOut (nHeight : Int) : Option (List CTxOut) :=
  (S.legacyPayee p nHeight).map fun payee => [⟨getPatriotnodePayment nHeight, payee⟩]

def getPatriotnodeTxOuts (pindexPrev : CBlockIndex) : Option (List CTxOut) :=
  S.getLegacyPatriotnodeTxOut p (pindexPrev.nHeight + 1)

/-! ## Checking a block -/

/-- `CPatriotnodePayments::IsTransactionValid`. -/
def isPatriotnodeTransactionValid (vout : List CTxOut) (pindexPrev : CBlockIndex) (nHeight : Int) : Bool :=
  let nBlockHeight : Int := pindexPrev.nHeight + 1
  if S.legacyPNObsolete nBlockHeight then
    match S.getPatriotnodeTxOuts p pindexPrev with
    | none => true
    | some vecMnOuts => vecMnOuts.all fun o => decide (o ∈ vout)
  else
    match S.mapPatriotnodeBlocks[nBlockHeight]? with
    | some vecPayments => CPatriotnodeBlockPayees.isTransactionValid vecPayments vout nHeight
    | none => true

/-- The payment goes into the coinstake between the two upgrades, into the coinbase before and after. -/
def payCoinstake (nHeight : Int) : Bool :=
  p.networkUpgradeActive nHeight .UPGRADE_POS && !p.networkUpgradeActive nHeight .UPGRADE_V6_0

/-- The end of `IsBlockPayeeValid`: the check for a node's payment and its enforcement. -/
def isNodePaymentAccepted (vout : List CTxOut) (pindexPrev : CBlockIndex) (nHeight : Int) : Bool :=
  S.isPatriotnodeTransactionValid p vout pindexPrev nHeight ||
    !S.isSporkActive .SPORK_8_PATRIOTNODE_PAYMENT_ENFORCEMENT

/-- `IsBlockPayeeValid`. Returns the verdict and the payment history after the check. -/
def isBlockPayeeValid (block : CBlock) (pindexPrev : CBlockIndex) (nHeight : Int) :
    Result (Bool × PaymentHistory) :=
  let nBlockHeight : Int := pindexPrev.nHeight + 1
  if S.isSynced = false then .ok (true, S.mapPayment_History)
  else match block.vtx[if payCoinstake p nBlockHeight then 1 else 0]? with
    | none => .error (.nullDeref "IsBlockPayeeValid: block.vtx")
    | some txNew =>
      if S.isSporkActive .SPORK_13_ENABLE_SUPERBLOCKS && S.budgetman.isBudgetPaymentBlock nBlockHeight then
        let (transactionStatus, history) := S.budgetman.isTransactionValid S.onChain S.mapPayment_History txNew.vout
          block.getHash nBlockHeight
        if transactionStatus = .Valid then .ok (true, history)
        else if transactionStatus = .InValid ∧ S.isSporkActive .SPORK_9_PATRIOTNODE_BUDGET_ENFORCEMENT = true then
          .ok (false, history)
        else .ok (S.isNodePaymentAccepted p txNew.vout pindexPrev nHeight, history)
      else .ok (S.isNodePaymentAccepted p txNew.vout pindexPrev nHeight, S.mapPayment_History)

/-! ## Completing a block -/

def resize (n : Nat) (vout : List CTxOut) : List CTxOut := vout.take n ++ List.replicate (n - vout.length) ⟨-1, []⟩

/-- `vout[i].nValue = v` or an update of it. -/
def modifyValue (i : Nat) (f : Int → Int) (vout : List CTxOut) : List CTxOut :=
  vout.modify i fun o => { o with nValue := f o.nValue }

variable (txCoinbase txCoinstake : List CTxOut)

/-- `CBudgetManager::FillBlockPayee`, on the outputs of coinbase and coinstake. -/
def fillBudgetPayee (nHeight : Int) (fProofOfStake : Bool) : Option (List CTxOut × List CTxOut) :=
  if nHeight ≤ 0 then none
  else match S.budgetman.getPayeeAndAmount nHeight with
    | none => none
    | some payment =>
      if fProofOfStake then
        if p.networkUpgradeActive nHeight .UPGRADE_V6_0 then
          some ((resize 1 txCoinbase).set 0 payment.txOut, txCoinstake)
        else some (txCoinbase, txCoinstake ++ [payment.txOut])
      else
        let txCoinbase := modifyValue 0 (fun _ => rewward nHeight) txCoinbase
        some ((resize 2 txCoinbase).set 1 payment.txOut, txCoinstake)

def subtractMnPaymentFromCoinstake (txCoinstake : List CTxOut) (patriotnodePayment : Int) (stakerOuts : Nat) :
    Result (List CTxOut) := do
  Lib.require (.assertFailure "SubtractMnPaymentFromCoinstake: stakerOuts >= 2") (2 ≤ stakerOuts)
  if stakerOuts = 2 then return modifyValue 1 (· - patriotnodePayment) txCoinstake
  else
    let outputs := stakerOuts - 1
    let mnPaymentSplit := patriotnodePayment.tdiv outputs
    let mnPaymentRemainder := patriotnodePayment - mnPaymentSplit * outputs
    let txCoinstake := (List.range' 1 outputs).foldl (fun vout j => modifyValue j (· - mnPaymentSplit) vout) txCoinstake
    return modifyValue outputs (· - mnPaymentRemainder) txCoinstake

/-- `CPatriotnodePayments::FillBlockPayee`. -/
def fillPatriotnodePayee (pindexPrev : CBlockIndex) (fProofOfStake : Bool) : Result (List CTxOut × List CTxOut) :=
  match S.getPatriotnodeTxOuts p pindexPrev with
  | none => .ok (txCoinbase, txCoinstake)
  | some vecMnOuts => do
    let nHeight : Int := pindexPrev.nHeight + 1
    let fPayCoinstake := fProofOfStake && !p.networkUpgradeActive nHeight .UPGRADE_V6_0
    let txCoinbase := if fProofOfStake && !fPayCoinstake then [] else txCoinbase
    let patriotnodePayment := (vecMnOuts.map CTxOut.nValue).sum
    let txCoinstake' := if fPayCoinstake then txCoinstake ++ vecMnOuts else txCoinstake
    let txCoinbase := if fPayCoinstake then txCoinbase else txCoinbase ++ vecMnOuts
    if fProofOfStake then
      return (txCoinbase, ← subtractMnPaymentFromCoinstake txCoinstake' patriotnodePayment txCoinstake.length)
    else return (modifyValue 0 (fun _ => rewward nHeight - patriotnodePayment) txCoinbase, txCoinstake')

def fillBlockPayee (pindexPrev : CBlockIndex) (fProofOfStake : Bool) : Result (List CTxOut × List CTxOut) :=
  let budget := if S.isSporkActive .SPORK_13_ENABLE_SUPERBLOCKS then
      S.fillBudgetPayee p txCoinbase txCoinstake (pindexPrev.nHeight + 1) fProofOfStake
    else none
  match budget with
  | some vouts => .ok vouts
  | none => S.fillPatriotnodePayee p txCoinbase txCoinstake pindexPrev fProofOfStake

/-! ## Assembling a block -/

def newCoinbase (scriptPubKey : CScript) : List CTxOut := [⟨0, scriptPubKey⟩]

def createCoinbaseTx (scriptPubKeyIn : CScript) (pindexPrev : CBlockIndex) : Result (List CTxOut) := do
  let (txCoinbase, _) ← S.fillBlockPayee p (newCoinbase scriptPubKeyIn) [] pindexPrev false
  if txCoinbase.length = 1 then return modifyValue 0 (fun _ => getBlockValue (pindexPrev.nHeight + 1)) txCoinbase
  else return txCoinbase

/-- A block on top of `pindexPrev` whose coinbase and coinstake were completed by `FillBlockPayee`: a work block of
`CreateNewBlock`, which hands the fees to the first output, or a stake block of `SolveProofOfStake`, where the wallet
brings a coinstake with an empty first output. -/
inductive Assembled (pindexPrev : CBlockIndex) (block : CBlock) : Prop
  | work (scriptPubKeyIn : CScript) (nFees : Int) (txCoinbase : List CTxOut) (coinbase : CTransaction)
      (rest : List CTransaction) (hpos : p.networkUpgradeActive (pindexPrev.nHeight + 1) .UPGRADE_POS = false)
      (hfill : S.createCoinbaseTx p scriptPubKeyIn pindexPrev = .ok txCoinbase)
      (hvout : coinbase.vout = modifyValue 0 (· + nFees) txCoinbase) (hvtx : block.vtx = coinbase :: rest)
  | stake (txCoinStake : List CTxOut) (coinbase coinstake : CTransaction) (rest : List CTransaction)
      (hpos : p.networkUpgradeActive (pindexPrev.nHeight + 1) .UPGRADE_POS = true)
      (hempty : txCoinStake[0]? = some ⟨0, []⟩) (hlen : 2 ≤ txCoinStake.length)
      (hfill : S.fillBlockPayee p (newCoinbase []) txCoinStake pindexPrev true =
        .ok (coinbase.vout, coinstake.vout))
      (hvtx : block.vtx = coinbase :: coinstake :: rest)

end PayeeState

end TrumpCoin
