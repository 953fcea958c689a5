import TrumpCoin.Chainstate.CheckBlock
import TrumpCoin.Evo.Chain

/-!
# Connecting a block

`ConnectBlock` of `validation.cpp` with `fJustCheck = false`: the checks of the block, the loop over its
transactions, the checks that follow the loop and the special transactions. The script checks run inside
`CheckInputs`; the source may hand them to other threads and collect the result after the loop.

* `connectTx_eq_ok`: one turn of the loop;
* `connectBlock_eq_ok`: what is known of a block that was connected;
* `Connected`: chains of connected blocks.
-/

namespace TrumpCoin

open Lib

/-! ## Inputs -/

section Inputs

variable (p : CChainParams) (V : NodeChecks) (N : NodeEnv)

def checkTxInput (inputs : CCoinsViewCache) (nSpendHeight : Int) (nValueIn : Int) (txin : CTxIn) : Result Int := do
  let coin := inputs.accessCoin txin.prevout
  require (.assertFailure "CheckTxInputs: !coin.IsSpent()") (coin.isSpent = false)
  require (.reject 0 .REJECT_INVALID "bad-txns-premature-spend-of-coinbase-coinstake")
    (¬((coin.fCoinBase = true ∨ coin.fCoinStake = true) ∧ nSpendHeight - coin.nHeight < p.nCoinbaseMaturity))
  invalidUnless 100 "bad-txns-inputvalues-outofrange"
    (p.moneyRange coin.out.nValue = true ∧ p.moneyRange (nValueIn + coin.out.nValue) = true)
  return nValueIn + coin.out.nValue

def checkTxInputs (tx : CTransaction) (inputs : CCoinsViewCache) (nSpendHeight : Int) : Result Unit := do
  require (.reject 0 .unset "") (inputs.haveInputs tx = true)
  require (.reject 0 .unset "") (inputs.haveShieldedRequirements V.saplingRoot tx = true)
  let nValueIn ← tx.vin.foldlM (checkTxInput p inputs nSpendHeight) 0
  let shieldedValueIn ← tx.getShieldedValueIn
  let nValueOut ← tx.getValueOut
  invalidUnless 100 "bad-txns-in-belowout" (tx.isCoinStake = true ∨ nValueOut ≤ nValueIn + shieldedValueIn)

def checkInputs (tx : CTransaction) (inputs : CCoinsViewCache) (nSpendHeight : Int) : Result Unit :=
  if tx.isCoinBase = false ∧ tx.hasZerocoinSpendInputs = false then do
    checkTxInputs p V tx inputs nSpendHeight
    invalidUnless 100 "mandatory-script-verify-flag-failed" (N.fScriptChecks = false ∨ V.checkScripts tx inputs = true)
  else .ok ()

/-! ## The loop over the transactions -/

structure ConnectState where
  view : CCoinsViewCache
  nFees : Int := 0
  nSigOps : Nat := 0
  nValueOut : Int := 0
  nValueIn : Int := 0
  saplingTree : SaplingMerkleTree
  /-- undo data of every transaction, that of the coinbase included -/
  vtxundo : List (List (Option Coin)) := []

/-- The inputs are available, the shielded ones too; returns the signature operations so far. -/
def requireInputs (nHeight : Nat) (view : CCoinsViewCache) (nSigOps : Nat) (tx : CTransaction) : Result Nat :=
  if p.networkUpgradeActive nHeight .UPGRADE_V5_0 = false ∧ tx.hasZerocoinSpendInputs = true then do
    require (.reject 100 .REJECT_INVALID "") (V.parseAndValidateZerocoinSpends tx nHeight = true)
    return nSigOps
  else if tx.isCoinBase = false then do
    invalidUnless 100 "bad-txns-inputs-missingorspent" (view.haveInputs tx = true)
    invalidUnless 100 "bad-txns-sapling-requirements-not-met" (view.haveShieldedRequirements V.saplingRoot tx = true)
    let nSigOps := nSigOps + V.getP2SHSigOpCount tx view
    invalidUnless 100 "bad-blk-sigops" (nSigOps ≤ MAX_BLOCK_SIGOPS_CURRENT)
    return nSigOps
  else return nSigOps

/-- The values of a transaction are added up; a coinstake has no fee. -/
def tallyValues (nHeight : Nat) (s : ConnectState) (tx : CTransaction) : Result (Int × Int × Int) := do
  let txValueOut ← tx.getValueOut
  if tx.isCoinBase then return (s.nFees, s.nValueOut + txValueOut, s.nValueIn)
  else do
    let txValueIn ← s.view.getValueIn tx
    checkInputs p V N tx s.view nHeight
    return (if tx.isCoinStake then s.nFees else s.nFees + (txValueIn - txValueOut), s.nValueOut + txValueOut,
      s.nValueIn + txValueIn)

/-- The outpoints that `AddCoins` does not add at a height. -/
def invalidOutAt (nHeight : Nat) (o : COutPoint) : Bool := p.skipInvalidUTXOS nHeight && V.containsInvalidOutPoint o

def CTransaction.commitments (tx : CTransaction) : List uint256 :=
  if tx.isShieldedTx then (tx.sapData.map fun d => d.vShieldedOutput.map OutputDescription.cmu).getD [] else []

def connectTx (nHeight nTime : Nat) (s : ConnectState) (tx : CTransaction) : Result ConnectState := do
  let nSigOps := s.nSigOps + V.getLegacySigOpCount tx
  invalidUnless 100 "bad-blk-sigops" (nSigOps ≤ MAX_BLOCK_SIGOPS_CURRENT)
  require (.reject 100 .unset "")
    (¬(N.fInitialBlockDownload = false ∧ N.saplingMaintenance < nTime ∧ tx.isShieldedTx = true))
  let nSigOps ← requireInputs p V nHeight s.view nSigOps tx
  let (nFees, nValueOut, nValueIn) ← tallyValues p V N nHeight s tx
  let (view, vprevout) ← s.view.updateCoins N.hasEntry (invalidOutAt p V nHeight) tx nHeight
  return { view := view, nFees := nFees, nSigOps := nSigOps, nValueOut := nValueOut, nValueIn := nValueIn,
           saplingTree := s.saplingTree ++ tx.commitments, vtxundo := s.vtxundo ++ [vprevout] }

/-- What one turn of the loop does. -/
structure TxConnected (nHeight : Nat) (s : ConnectState) (tx : CTransaction) (s' : ConnectState) : Prop where
  have_inputs : s.view.haveInputs tx = true
  shielded : tx.isCoinBase = false → tx.hasZerocoinSpendInputs = false →
    s.view.haveShieldedRequirements V.saplingRoot tx = true
  coins : ∃ vprevout, s.view.updateCoins N.hasEntry (invalidOutAt p V nHeight) tx nHeight = .ok (s'.view, vprevout) ∧
    s'.vtxundo = s.vtxundo ++ [vprevout]
  tree : s'.saplingTree = s.saplingTree ++ tx.commitments
  values : ∃ txValueOut, tx.getValueOut = .ok txValueOut ∧ s'.nValueOut = s.nValueOut + txValueOut ∧
    (tx.isCoinBase = true ∧ s'.nValueIn = s.nValueIn ∧ s'.nFees = s.nFees ∨
    tx.isCoinBase = false ∧ ∃ txValueIn, s.view.getValueIn tx = .ok txValueIn ∧
      s'.nValueIn = s.nValueIn + txValueIn ∧
      s'.nFees = if tx.isCoinStake then s.nFees else s.nFees + (txValueIn - txValueOut))

variable {p V N} {nHeight nTime : Nat} {s s' : ConnectState} {tx : CTransaction}

theorem requireInputs_eq_ok {view : CCoinsViewCache} {n n' : Nat}
    (h : requireInputs p V nHeight view n tx = .ok n') : view.haveInputs tx = true ∧
      (tx.isCoinBase = false → tx.hasZerocoinSpendInputs = false →
        view.haveShieldedRequirements V.saplingRoot tx = true) := by
  unfold requireInputs at h
  split at h
  · rename_i hzc
    refine ⟨?_, fun _ hno => ?_⟩
    · rw [CCoinsViewCache.haveInputs, if_neg]
      rintro ⟨-, hno⟩
      rw [hno] at hzc
      cases hzc.2
    · rw [hno] at hzc
      cases hzc.2
  · split_ifs at h with hcb
    · simp only [bind_eq_ok, invalidUnless, require_eq_ok] at h
      obtain ⟨_, hinputs, _, hshielded, -⟩ := h
      exact ⟨hinputs, fun _ _ => hshielded⟩
    · rw [Bool.not_eq_false] at hcb
      exact ⟨by rw [CCoinsViewCache.haveInputs, hcb]; rfl, fun h => by rw [hcb] at h; cases h⟩

/-- The fees and both value totals after one transaction. -/
theorem tallyValues_eq_ok {nFees nValueOut nValueIn : Int}
    (h : tallyValues p V N nHeight s tx = .ok (nFees, nValueOut, nValueIn)) :
    ∃ txValueOut, tx.getValueOut = .ok txValueOut ∧ nValueOut = s.nValueOut + txValueOut ∧
    (tx.isCoinBase = true ∧ nValueIn = s.nValueIn ∧ nFees = s.nFees ∨
    tx.isCoinBase = false ∧ ∃ txValueIn, s.view.getValueIn tx = .ok txValueIn ∧ nValueIn = s.nValueIn + txValueIn ∧
      nFees = if tx.isCoinStake then s.nFees else s.nFees + (txValueIn - txValueOut)) := by
  obtain ⟨v, hv, h⟩ := bind_eq_ok.mp h
  refine ⟨v, hv, ?_⟩
  split at h
  · rename_i hcb
    cases h
    exact ⟨rfl, .inl ⟨hcb, rfl, rfl⟩⟩
  · rename_i hcb
    rw [Bool.not_eq_true] at hcb
    obtain ⟨w, hw, h⟩ := bind_eq_ok.mp h
    obtain ⟨_, -, h⟩ := bind_eq_ok.mp h
    cases h
    exact ⟨rfl, .inr ⟨hcb, w, hw, rfl, rfl⟩⟩

/-- What an accepted transaction has passed, and the state it leaves. -/
theorem connectTx_eq_ok (h : connectTx p V N nHeight nTime s tx = .ok s') : TxConnected p V N nHeight s tx s' := by
  simp only [connectTx, bind_eq_ok, invalidUnless, require_eq_ok] at h
  obtain ⟨_, -, _, -, n, hinputs, ⟨nFees, nValueOut, nValueIn⟩, hvalues, ⟨view, vprevout⟩, hcoins, h⟩ := h
  cases h
  obtain ⟨hhave, hshielded⟩ := requireInputs_eq_ok hinputs
  exact ⟨hhave, hshielded, ⟨vprevout, hcoins, rfl⟩, rfl, tallyValues_eq_ok hvalues⟩

end Inputs

/-! ## The block -/

/-- The active chain: its tip, the coins, the shielded pool, the best block of the evo database and the list of
patriotnodes. -/
structure ChainState (D : Type) [Digest D] where
  pindex : CBlockIndex
  view : CCoinsViewCache
  /-- `nChainSaplingValue` of the tip -/
  nChainSaplingValue : Int
  evoBestBlock : uint256
  mnList : CDeterministicPNList D

/-- The chain state after a block, with the sums of `ConnectBlock` and the undo data that it writes. -/
structure ConnectResult (D : Type) [Digest D] where
  state : ChainState D
  nFees : Int
  nMint : Int
  vtxundo : List (List (Option Coin))

def CBlock.saplingValue (block : CBlock) : Int :=
  ((block.vtx.filter CTransaction.isShieldedTx).map fun tx => -tx.valueBalance).sum

section Block

variable {D : Type} [Digest D] (p : CChainParams) (c : Crypto) (V : NodeChecks) (N : NodeEnv)

/-- What the special transactions see: the coins are those before the block. -/
def NodeEnv.toEnv (view : CCoinsViewCache) : Env where
  getUTXOCoin o := view.coins[o]?
  legacyPNsMaxHeight := N.payees.legacyPNsMaxHeight
  order := N.order

variable (block : CBlock) (s : ChainState D)

/-- The checks up to the special case for the genesis block. -/
def connectPrelude : Result Unit := do
  checkBlock D p c V N (N.toEnv s.view) block s.pindex
  require (.assertFailure "ConnectBlock: hashPrevBlock == view.GetBestBlock()")
    (s.pindex.getBlockHash = s.view.hashBlock)
  invalidUnless 100 "bad-cb-pos" (p.networkUpgradeActive (s.pindex.nHeight + 1) .UPGRADE_V6_0 = true ∨
    block.isProofOfStake = false ∨ (block.vtx.head?).any (fun tx => tx.vout == [⟨0, []⟩]) = true)
  require (.error "Found EvoDB inconsistency, you must reindex to continue")
    (p.networkUpgradeActive (s.pindex.nHeight + 1) .UPGRADE_V6_0 = false ∨ s.evoBestBlock = s.pindex.getBlockHash)

/-- The checks before the loop; returns the commitment tree. -/
def connectContext : Result SaplingMerkleTree := do
  let isPoSActive := p.networkUpgradeActive (s.pindex.nHeight + 1) .UPGRADE_POS
  invalidUnless 100 "PoS-early" (isPoSActive = true ∨ block.isProofOfStake = false)
  invalidUnless 100 "PoW-ended" (isPoSActive = false ∨ block.isProofOfStake = true)
  invalidUnless 100 "turnstile-violation-sapling-shielded-pool" (0 ≤ s.nChainSaplingValue + block.saplingValue)
  match s.view.getSaplingAnchorAt V.saplingRoot s.view.hashSaplingAnchor with
  | none => .error (.assertFailure "ConnectBlock: view.GetSaplingAnchorAt(view.GetBestAnchor(), sapling_tree)")
  | some tree => return tree

def isCoinbaseValueValid (tx : CTransaction) (nBudgetAmt : Int) : Result Unit := do
  require (.assertFailure "IsCoinbaseValueValid: tx->IsCoinBase()") (tx.isCoinBase = true)
  if N.payees.isSynced then do
    let nCBaseOutAmt ← tx.getValueOut
    invalidUnless 100 "bad-superblock-cb-amt" (nBudgetAmt ≤ 0 ∨ nCBaseOutAmt = nBudgetAmt)
  else return ()

/-- The checks between the loop and the special transactions. The expected mint is computed and not compared with
anything, and the budget amount stays zero. -/
def connectPayments (block : CBlock) (pindexPrev : CBlockIndex) (s : ConnectState) : Result Unit := do
  invalidUnless 100 "bad-sapling-root-in-block"
    (p.networkUpgradeActive (pindexPrev.nHeight + 1) .UPGRADE_V5_0 = false ∨
      block.hashFinalSaplingRoot = V.saplingRoot s.saplingTree)
  require (.assertFailure "ConnectBlock: nFees >= 0") (0 ≤ s.nFees)
  (if N.fInitialBlockDownload then pure () else do
    let (valid, _) ← N.payees.isBlockPayeeValid p block pindexPrev N.nHeight
    invalidUnless 0 "bad-cb-payee" (valid = true))
  if block.isProofOfStake ∧ p.networkUpgradeActive (pindexPrev.nHeight + 1) .UPGRADE_V6_0 = true then
    match block.vtx with
    | [] => .error (.nullDeref "ConnectBlock: block.vtx[0]")
    | tx :: _ => isCoinbaseValueValid N tx 0
  else return ()

def connectBlock : Result (ConnectResult D) := do
  connectPrelude p c V N block s
  if block.getHash = N.payees.hashGenesisBlock then
    return ⟨{ s with view := { s.view with hashBlock := block.getHash } }, 0, 0, []⟩
  else do
    let tree ← connectContext p V block s
    let t ← block.vtx.foldlM (connectTx p V N (s.pindex.nHeight + 1) block.nTime) { view := s.view, saplingTree := tree }
    connectPayments p V N block s.pindex t
    let mnList ← processSpecialTxsInBlock p c (N.toEnv s.view) block s.pindex s.mnList
    let view := t.view.pushAnchor V.saplingRoot t.saplingTree
    return { state :=
               { pindex := .child s.pindex block.getHash
                 view := { view with hashBlock := block.getHash }
                 nChainSaplingValue := s.nChainSaplingValue + block.saplingValue
                 evoBestBlock := block.getHash
                 mnList := mnList }
             nFees := t.nFees
             nMint := t.nValueOut - t.nValueIn + t.nFees
             vtxundo := t.vtxundo.drop 1 }

/-- What is known of a connected block other than genesis. -/
structure BlockConnected (block : CBlock) (s : ChainState D) (t : ConnectState) (r : ConnectResult D) : Prop where
  checked : CheckedBlock block
  tip : s.pindex.getBlockHash = s.view.hashBlock
  kind : p.networkUpgradeActive (s.pindex.nHeight + 1) .UPGRADE_POS = block.isProofOfStake
  pool : 0 ≤ s.nChainSaplingValue + block.saplingValue
  loop : ∃ tree, s.view.getSaplingAnchorAt V.saplingRoot s.view.hashSaplingAnchor = some tree ∧
    block.vtx.foldlM (connectTx p V N (s.pindex.nHeight + 1) block.nTime) { view := s.view, saplingTree := tree } = .ok t
  root : p.networkUpgradeActive (s.pindex.nHeight + 1) .UPGRADE_V5_0 = true →
    block.hashFinalSaplingRoot = V.saplingRoot t.saplingTree
  fees : 0 ≤ t.nFees
  special : processSpecialTxsInBlock p c (N.toEnv s.view) block s.pindex s.mnList = .ok r.state.mnList
  result : r = {
    state := {
      pindex := .child s.pindex block.getHash
      view := { t.view.pushAnchor V.saplingRoot t.saplingTree with hashBlock := block.getHash }
      nChainSaplingValue := s.nChainSaplingValue + block.saplingValue
      evoBestBlock := block.getHash
      mnList := r.state.mnList }
    nFees := t.nFees
    nMint := t.nValueOut - t.nValueIn + t.nFees
    vtxundo := t.vtxundo.drop 1 }

variable {p c V N} {block : CBlock} {s : ChainState D} {r : ConnectResult D}

theorem connectContext_eq_ok {tree : SaplingMerkleTree} (h : connectContext p V block s = .ok tree) :
    p.networkUpgradeActive (s.pindex.nHeight + 1) .UPGRADE_POS = block.isProofOfStake ∧
    0 ≤ s.nChainSaplingValue + block.saplingValue ∧
    s.view.getSaplingAnchorAt V.saplingRoot s.view.hashSaplingAnchor = some tree := by
  simp only [connectContext, bind_eq_ok, invalidUnless, require_eq_ok] at h
  obtain ⟨_, hearly, _, hended, _, hpool, h⟩ := h
  split at h
  · cases h
  · rename_i tree' htree
    cases h
    refine ⟨?_, hpool, htree⟩
    rcases hearly with h | h <;> rcases hended with h' | h'
    · rw [h] at h'; cases h'
    · rw [h, h']
    · rw [h, h']
    · rw [h] at h'; cases h'

/-- What an accepted block has passed; the genesis block takes another path. -/
theorem connectBlock_eq_ok (hgenesis : block.getHash ≠ N.payees.hashGenesisBlock)
    (h : connectBlock p c V N block s = .ok r) : ∃ t, BlockConnected p c V N block s t r := by
  simp only [connectBlock, bind_eq_ok, if_neg hgenesis] at h
  obtain ⟨_, hprelude, tree, hcontext, t, hloop, _, hpay, mnList, hspecial, h⟩ := h
  cases h
  simp only [connectPrelude, bind_eq_ok, invalidUnless, require_eq_ok] at hprelude
  obtain ⟨_, hcheck, _, htip, -⟩ := hprelude
  obtain ⟨hkind, hpool, htree⟩ := connectContext_eq_ok hcontext
  simp only [connectPayments, bind_eq_ok, invalidUnless, require_eq_ok] at hpay
  obtain ⟨_, hroot, _, hfees, -⟩ := hpay
  refine ⟨t, checkBlock_eq_ok hcheck, htip, hkind, hpool, ⟨tree, htree, hloop⟩, fun hv5 => ?_, hfees, hspecial, rfl⟩
  rcases hroot with h | h
  · rw [hv5] at h; cases h
  · exact h

/-! ## Chains -/

/-- One connected block of a chain: what the node saw, and the fees. -/
structure ChainLink where
  env : NodeEnv
  block : CBlock
  nFees : Int

/-- The state after genesis, whose coinbase is not in the coins view. -/
def ChainState.genesis (V : NodeChecks) (hash : uint256) : ChainState D :=
  ⟨.genesis hash, { hashBlock := hash, hashSaplingAnchor := V.saplingRoot [] }, 0, hash, {}⟩

/-- A block that `ConnectBlock` connects on top of a state. As in `Chain`, the list handed to it may be one rebuilt from
stored diffs. -/
structure ConnectsOnto (p : CChainParams) (c : Crypto) (V : NodeChecks) (s : ChainState D) (N : NodeEnv) (block : CBlock)
    (old : CDeterministicPNList D) (r : ConnectResult D) : Prop where
  count : Recount s.mnList old
  height : s.pindex.nHeight + 1 < 2 ^ 31
  genesis : block.getHash ≠ N.payees.hashGenesisBlock
  connects : connectBlock p c V N block { s with mnList := old } = .ok r

theorem ConnectsOnto.connected {s : ChainState D} {N : NodeEnv} {block : CBlock} {old : CDeterministicPNList D}
    {r : ConnectResult D} (h : ConnectsOnto p c V s N block old r) :
    ∃ t, BlockConnected p c V N block { s with mnList := old } t r :=
  connectBlock_eq_ok h.genesis h.connects

/-- Blocks connected on top of genesis, newest first, and the chain state after the last of them. -/
inductive Connected (p : CChainParams) (c : Crypto) (V : NodeChecks) : List ChainLink → ChainState D → Prop
  | genesis (hash : uint256) : Connected p c V [] (.genesis V hash)
  | connect {links : List ChainLink} {s : ChainState D} {old : CDeterministicPNList D} {r : ConnectResult D}
      (N : NodeEnv) (block : CBlock) (hprev : Connected p c V links s) (hnew : ConnectsOnto p c V s N block old r) :
      Connected p c V (⟨N, block, r.nFees⟩ :: links) r.state

/-- The connected blocks are a chain of the list manager too. -/
theorem Connected.chain {links : List ChainLink} {s : ChainState D} (h : Connected p c V links s) :
    Chain p c (links.map ChainLink.block) s.pindex s.mnList := by
  induction h with
  | genesis hash => exact .genesis hash
  | connect N block _ hnew ih =>
    obtain ⟨t, ht⟩ := hnew.connected
    rw [ht.result]
    exact .connect _ block ih hnew.count hnew.height ht.special

theorem Connected.height {links : List ChainLink} {s : ChainState D} (h : Connected p c V links s) :
    s.pindex.nHeight = links.length := by
  induction h with
  | genesis hash => rfl
  | connect N block _ hnew ih =>
    obtain ⟨t, ht⟩ := hnew.connected
    rw [ht.result]
    exact congrArg (· + 1) ih

/-- Connect blocks (newest first) on top of genesis, each list computed from the one before it. -/
def connectChain (D : Type) [Digest D] (p : CChainParams) (c : Crypto) (V : NodeChecks) (genesis : uint256) :
    List (NodeEnv × CBlock) → Result (List ChainLink × ChainState D)
  | [] => .ok ([], .genesis V genesis)
  | (N, block) :: bs => do
    let (links, s) ← connectChain D p c V genesis bs
    let r ← connectBlock p c V N block s
    return (⟨N, block, r.nFees⟩ :: links, r.state)

/-- Running `ConnectBlock` over a list of blocks builds a connected chain. -/
theorem Connected.of_connectChain {genesis : uint256} : ∀ {bs : List (NodeEnv × CBlock)}
    {r : List ChainLink × ChainState D}, connectChain D p c V genesis bs = .ok r → bs.length < 2 ^ 31 →
    (∀ b ∈ bs, b.2.getHash ≠ b.1.payees.hashGenesisBlock) →
    Connected p c V r.1 r.2 ∧ r.2.pindex.nHeight = bs.length ∧ r.1.map ChainLink.block = bs.map Prod.snd
  | [], _, h, _, _ => by
    cases h
    exact ⟨.genesis genesis, rfl, rfl⟩
  | (N, block) :: bs, r, h, hlen, hgenesis => by
    simp only [connectChain, bind_eq_ok] at h
    obtain ⟨⟨links, s⟩, hprev, r', hnew, hr⟩ := h
    cases hr
    rw [List.forall_mem_cons] at hgenesis
    rw [List.length_cons] at hlen
    obtain ⟨hc, hheight, hblocks⟩ := of_connectChain hprev (by omega) hgenesis.2
    obtain ⟨t, ht⟩ := connectBlock_eq_ok hgenesis.1 hnew
    have hheight : s.pindex.nHeight = bs.length := hheight
    refine ⟨.connect N block hc ⟨.refl s.mnList, by rw [hheight]; omega, hgenesis.1, hnew⟩, ?_, ?_⟩
    · rw [ht.result]
      exact congrArg (· + 1) hheight
    · exact congrArg (block :: ·) hblocks

end Block

/-! ## A sample chain -/

namespace Sample

def workParams : CChainParams :=
  { params with nActivationHeight := fun idx => if idx = .UPGRADE_V6_0 then 1 else -1, nCoinbaseMaturity := 1 }

def checks : NodeChecks where
  getTotalSize tx := tx.vout.length
  vout_length_le _ := Nat.le_refl _
  getSerializeSize b := b.vtx.length
  checkProofOfWork _ := true
  merkleRootMatches _ := true
  merkleMutated _ := false
  checkBlockSignature _ := true
  getLegacySigOpCount _ := 0
  getP2SHSigOpCount _ _ := 0
  checkScripts _ _ := true
  parseAndValidateZerocoinSpends _ _ := true
  saplingRoot tree := tree.foldl (fun h cm => 3 * h + cm + 1) 0
  containsInvalidOutPoint _ := false

def nodeEnv : NodeEnv where
  payees :=
    { isSynced := false, isSporkActive := fun _ => false, legacyPNsMaxHeight := 0, budgetman := {},
      mapPayment_History := ∅, onChain := fun _ => false, mapPatriotnodeBlocks := ∅, nodeCrypto := nodeCrypto,
      hashGenesisBlock := 0xb0 }
  order := .byHash
  fInitialBlockDownload := false
  saplingMaintenance := 4000000000
  fScriptChecks := true
  hasEntry _ := false
  nHeight := 0

def payingCoinbase (h : uint256) (v : Int) : CTransaction :=
  { vin := [{ scriptSig := [1, 0] }], vout := [⟨v, p2pkh 0x71⟩], hash := h }

/-- Its coins pay for the registration of `fundedBlock`. -/
def fundingBlock : CBlock := { hash := 0xb1, vtx := [payingCoinbase 0x12 (101 * COIN)] }

def fundedBlock : CBlock := { hash := 0xb2, vtx := [payingCoinbase 0x22 (1 * COIN), register 0x11 0x51] }

end Sample

end TrumpCoin
