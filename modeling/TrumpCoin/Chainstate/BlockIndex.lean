import TrumpCoin.Consensus

/-!
# The block index

`chain.h`, `chain.cpp` and the parts of `validation.cpp` that build the tree of blocks: `AddToBlockIndex`,
`ReceivedBlockTransactions`, `AcceptBlockHeader` and `AcceptBlock`. A pointer to a `CBlockIndex` is the hash under which
`mapBlockIndex` holds the entry, since entries are never removed; a pointer that may be null is an `Option`.

What `AcceptBlock` asks of code outside the index is in `BlockChecks`, one field for each group of checks, so that the
places at which it stops and what it has written to the index by then are those of the source.
-/

namespace TrumpCoin

open Lib

/-! ## Entries -/

/-- `CBlockIndex::nStatus`: the level under `BLOCK_VALID_MASK` and the flags. -/
structure BlockStatus where
  validity : Nat := 0
  haveData : Bool := false
  failedValid : Bool := false
  failedChild : Bool := false
deriving DecidableEq, Inhabited

def BLOCK_VALID_TREE : Nat := 2

def BLOCK_VALID_TRANSACTIONS : Nat := 3

/-- `nStatus & BLOCK_FAILED_MASK`. -/
def BlockStatus.failed (st : BlockStatus) : Bool := st.failedValid || st.failedChild

/-- `CBlockIndex` as an entry of `mapBlockIndex`. -/
structure BlockEntry where
  pprev : Option uint256 := none
  nHeight : Nat := 0
  nChainWork : Nat := 0
  nTx : Nat := 0
  nChainTx : Nat := 0
  nSequenceId : Nat := 0
  nStatus : BlockStatus := {}
deriving DecidableEq, Inhabited

namespace BlockEntry

def isValid (e : BlockEntry) (nUpTo : Nat) : Bool := !e.nStatus.failed && decide (nUpTo ≤ e.nStatus.validity)

def raiseValidity (e : BlockEntry) (nUpTo : Nat) : BlockEntry :=
  if e.nStatus.failed then e
  else if e.nStatus.validity < nUpTo then { e with nStatus := { e.nStatus with validity := nUpTo } }
  else e

end BlockEntry

/-- The state of `validation.cpp` around the block tree. `vChain` is that of `chainActive`, from the genesis block
on. -/
structure BlockIndexState where
  mapBlockIndex : FinMap uint256 BlockEntry := ∅
  vChain : List uint256 := []
  setBlockIndexCandidates : FinMap uint256 Unit := ∅
  /-- a multimap from a block to those that wait for its data, in the order of their insertion -/
  mapBlocksUnlinked : List (uint256 × uint256) := []
  nBlockSequenceId : Nat := 1
  pindexBestHeader : Option uint256 := none
  pindexBestInvalid : Option uint256 := none

structure BlockData where
  hash : uint256
  hashPrevBlock : uint256
  isProofOfStake : Bool := false
  /-- `vtx.size()` -/
  nTx : Nat := 1
  /-- `GetBlockProof` -/
  proof : Nat := 1
deriving DecidableEq

namespace BlockIndexState

variable (s : BlockIndexState) (hash : uint256)

def entry : BlockEntry := (s.mapBlockIndex[hash]?).getD {}

def contains : Bool := (s.mapBlockIndex[hash]?).isSome

def set (e : BlockEntry) : BlockIndexState :=
  { s with mapBlockIndex := s.mapBlockIndex.insert hash e }

def tip (s : BlockIndexState) : Option uint256 := s.vChain.getLast?

variable (address : uint256 → Nat)

/-- `CBlockIndexWorkComparator`; `address` gives the order of the pointers. -/
def worse (s : BlockIndexState) (pa pb : uint256) : Bool :=
  let a := s.entry pa
  let b := s.entry pb
  if a.nChainWork > b.nChainWork then false
  else if a.nChainWork < b.nChainWork then true
  else if a.nSequenceId < b.nSequenceId then false
  else if a.nSequenceId > b.nSequenceId then true
  else decide (address pa > address pb)

/-- The walk of `CBlockIndex::GetAncestor` along `pprev`; the skip list shortens it. -/
def ancestorWalk (s : BlockIndexState) : Nat → uint256 → Option uint256
  | 0, hash => some hash
  | n + 1, hash => (s.entry hash).pprev.bind (s.ancestorWalk n)

def getAncestor (height : Nat) : Option uint256 :=
  if height > (s.entry hash).nHeight then none else s.ancestorWalk ((s.entry hash).nHeight - height) hash

/-! ## New entries -/

def addToBlockIndex (s : BlockIndexState) (block : BlockData) : BlockIndexState :=
  if s.contains block.hash then s
  else
    let pprev := if s.contains block.hashPrevBlock then some block.hashPrevBlock else none
    let prev := s.entry block.hashPrevBlock
    let fresh : BlockEntry :=
      { pprev
        nHeight := if pprev.isSome then prev.nHeight + 1 else 0
        nChainWork := (if pprev.isSome then prev.nChainWork else 0) + block.proof }
    let pindexBestHeader :=
      match s.pindexBestHeader with
      | none => some block.hash
      | some best => if (s.entry best).nChainWork < fresh.nChainWork then some block.hash else some best
    { s.set block.hash (fresh.raiseValidity BLOCK_VALID_TREE) with pindexBestHeader }

/-- The parent and the height of an entry: what the other models of `mapBlockIndex` have in common with this one. -/
def link : Option (Option uint256 × Nat) := (s.mapBlockIndex[hash]?).map fun e => (e.pprev, e.nHeight)

/-- The link of a new entry, by that of its parent. -/
def newLink (hashPrevBlock : uint256) : Option (Option uint256 × Nat) → Option uint256 × Nat
  | none => (none, 0)
  | some prev => (some hashPrevBlock, prev.2 + 1)

theorem link_addToBlockIndex (block : BlockData) :
    (s.addToBlockIndex block).link hash =
      if s.link block.hash = none ∧ block.hash = hash then some (newLink block.hashPrevBlock (s.link block.hashPrevBlock))
      else s.link hash := by
  have hraise : ∀ e : BlockEntry, (e.raiseValidity BLOCK_VALID_TREE).pprev = e.pprev ∧
      (e.raiseValidity BLOCK_VALID_TREE).nHeight = e.nHeight := by
    intro e
    unfold BlockEntry.raiseValidity
    split_ifs <;> exact ⟨rfl, rfl⟩
  unfold addToBlockIndex contains
  cases hold : s.mapBlockIndex[block.hash]? with
  | some e => simp [link, hold]
  | none =>
    by_cases hh : block.hash = hash
    · subst hh
      cases hprev : s.mapBlockIndex[block.hashPrevBlock]? <;>
        simp [link, set, hold, hprev, hraise, newLink, entry]
    · simp [link, set, hh, FinMap.get_insert]

/-- The loop of `ReceivedBlockTransactions` over the blocks that can be linked now. -/
def linkLoop : Nat → List uint256 → BlockIndexState → BlockIndexState
  | 0, _, s => s
  | _ + 1, [], s => s
  | fuel + 1, pindex :: queue, s =>
    let e := s.entry pindex
    let before := (e.pprev.map fun p => (s.entry p).nChainTx).getD 0
    let s := s.set pindex { e with nChainTx := (before + e.nTx) % 2 ^ 32, nSequenceId := s.nBlockSequenceId }
    let s := { s with nBlockSequenceId := s.nBlockSequenceId + 1 }
    let candidate := s.tip.all fun tip => !s.worse address pindex tip
    let s :=
      if candidate then { s with setBlockIndexCandidates := s.setBlockIndexCandidates.insert pindex () } else s
    let waiting := (s.mapBlocksUnlinked.filter fun e => e.1 = pindex).map Prod.snd
    let s := { s with mapBlocksUnlinked := s.mapBlocksUnlinked.filter fun e => !(e.1 = pindex) }
    linkLoop fuel (queue ++ waiting) s

def receivedBlockTransactions (s : BlockIndexState) (block : BlockData) : BlockIndexState :=
  let e := s.entry block.hash
  let received : BlockEntry :=
    { e with nTx := block.nTx, nChainTx := 0, nStatus := { e.nStatus with haveData := true } }
  let s := s.set block.hash (received.raiseValidity BLOCK_VALID_TRANSACTIONS)
  match e.pprev with
  | none => linkLoop address (s.mapBlocksUnlinked.length + 1) [block.hash] s
  | some pprev =>
    if (s.entry pprev).nChainTx ≠ 0 then linkLoop address (s.mapBlocksUnlinked.length + 1) [block.hash] s
    else if (s.entry pprev).isValid BLOCK_VALID_TREE then
      { s with mapBlocksUnlinked := s.mapBlocksUnlinked ++ [(pprev, block.hash)] }
    else s

end BlockIndexState

/-! ## Acceptance -/

/-- How `CheckBlock` and `ContextualCheckBlock` end. -/
inductive BlockVerdict where
  | valid
  | invalid
  | corruptionPossible
deriving DecidableEq

/-- What the checks outside the index say about one block at one time. -/
structure BlockChecks where
  /-- `CheckBlock` at the start of `ProcessNewBlock` -/
  checkBlock : Bool := true
  /-- `Checkpoints::CheckBlock` of the parent -/
  checkpoint : Bool := false
  checkWork : Bool := true
  checkProofOfStake : Bool := true
  contextualCheckBlockHeader : Bool := true
  verdict : BlockVerdict := .valid
  /-- the checks of a proof-of-stake block's inputs on its fork and on the active chain -/
  stakeInputs : Bool := true
  /-- `FindBlockPos` and `WriteBlockToDisk` -/
  disk : Bool := true
deriving DecidableEq

/-- `AcceptBlockHeader`, called by `AcceptBlock` with the parent's entry. -/
def BlockIndexState.acceptBlockHeader (checks : BlockChecks) (block : BlockData) (s : BlockIndexState) :
    BlockIndexState × Bool :=
  if s.contains block.hash then (s, !(s.entry block.hash).nStatus.failed)
  else if !checks.contextualCheckBlockHeader then (s, false)
  else (s.addToBlockIndex block, true)

/-- The rest of the validation code, which may be called from here. -/
structure Validation where
  hashGenesisBlock : uint256
  address : uint256 → Nat
  activateBestChain : BlockIndexState → BlockIndexState
  /-- `ReconsiderBlock`, and whether the state it reports is valid -/
  reconsiderBlock : uint256 → BlockIndexState → BlockIndexState × Bool

namespace Validation

variable (v : Validation)

variable (checks : BlockChecks) (block : BlockData) (s : BlockIndexState)

/-- `GetPrevIndex`: whether the block can be built on its parent. -/
def getPrevIndex : BlockIndexState × Bool :=
  if block.hash = v.hashGenesisBlock then (s, true)
  else if !s.contains block.hashPrevBlock then (s, false)
  else if (s.entry block.hashPrevBlock).nStatus.failed then
    if checks.checkpoint then
      let r := v.reconsiderBlock block.hashPrevBlock s
      if r.2 then (v.activateBestChain r.1, true) else (r.1, false)
    else (s, false)
  else (s, true)

/-- `AcceptBlock` once the header is in the index. -/
def acceptBlockData : BlockIndexState × Bool :=
  let e := s.entry block.hash
  if e.nStatus.haveData then (s, true)
  else
    match checks.verdict with
    | .corruptionPossible => (s, false)
    | .invalid => (s.set block.hash { e with nStatus := { e.nStatus with failedValid := true } }, false)
    | .valid =>
      if block.isProofOfStake && !checks.stakeInputs then (s, false)
      else if !checks.disk then (s, false)
      else (s.receivedBlockTransactions v.address block, true)

def acceptBlock : BlockIndexState × Bool :=
  let prev := v.getPrevIndex checks block s
  if !prev.2 then (prev.1, false)
  else if block.hash ≠ v.hashGenesisBlock && !checks.checkWork then (prev.1, false)
  else if block.isProofOfStake && !checks.checkProofOfStake then (prev.1, false)
  else
    let header := prev.1.acceptBlockHeader checks block
    if !header.2 then (header.1, false) else v.acceptBlockData checks block header.1

/-- `ProcessNewBlock`, as far as the block tree is concerned. -/
def processNewBlock : BlockIndexState :=
  if !checks.checkBlock then s
  else
    let r := v.acceptBlock checks block s
    if r.2 then v.activateBestChain r.1 else r.1

end Validation

end TrumpCoin
