import TrumpCoin.Chainstate.ConnectBlock
import TrumpCoin.Sapling.IncrementalWitness

/-!
# The witnesses of the wallet's notes

`IncrementNoteWitnesses`, `DecrementNoteWitnesses` and `GetSaplingNoteWitnesses` of
`sapling/saplingscriptpubkeyman.cpp`, and `BlockConnected` and `BlockDisconnected` of `wallet/wallet.cpp` as far as
they touch a note's witnesses. A note keeps its witnesses for the last blocks, the current one in front.

The note data of all wallet transactions are one map: the outpoint of a note names its transaction.
-/

namespace TrumpCoin

open Lib

/-! ## Notes -/

structure SaplingOutPoint where
  hash : uint256
  n : Nat
deriving DecidableEq

namespace SaplingOutPoint

/-- `operator<`: by hash, then by index. -/
instance : Ord SaplingOutPoint := ⟨compareLex (compareOn hash) (compareOn n)⟩

instance : Std.TransOrd SaplingOutPoint :=
  inferInstanceAs (Std.TransCmp (compareLex (compareOn hash) (compareOn n)))

instance : Std.LawfulEqOrd SaplingOutPoint where
  eq_of_compare {a b} h := by
    obtain ⟨h1, h2⟩ := Ordering.then_eq_eq.mp (show (compare a.hash b.hash).then (compare a.n b.n) = .eq from h)
    cases a; cases b
    rw [Std.compare_eq_iff_eq] at h1 h2
    simp_all

end SaplingOutPoint

/-- The outputs of a transaction with indices from `n` on. -/
def outputsFrom (hash : uint256) : (n : Nat) → List OutputDescription → List (SaplingOutPoint × uint256)
  | _, [] => []
  | n, output :: outputs => (⟨hash, n⟩, output.cmu) :: outputsFrom hash (n + 1) outputs

/-- The shielded outputs of a transaction, each with its commitment. -/
def CTransaction.saplingOutputs (tx : CTransaction) : List (SaplingOutPoint × uint256) :=
  if tx.isShieldedTx then (tx.sapData.map fun d => outputsFrom tx.hash 0 d.vShieldedOutput).getD [] else []

def CBlock.saplingOutputs (block : CBlock) : List (SaplingOutPoint × uint256) :=
  block.vtx.flatMap CTransaction.saplingOutputs

def WITNESS_CACHE_SIZE : Nat := 100 + 1

structure SaplingNoteData where
  witnesses : List IncrementalWitness := []
  /-- set for the wallet's own notes only -/
  ivk : Option uint256 := none
  witnessHeight : Int := -1
deriving DecidableEq

namespace SaplingNoteData

section Model

variable (H : MerkleHash) (Depth : Nat) (indexHeight nWitnessCacheSize : Int) (nd : SaplingNoteData)

def isMyNote : Bool := nd.ivk.isSome

/-- The check that a note has no more witnesses than the cache. -/
def assertCached : Result Unit :=
  require (.assertFailure "nWitnessCacheSize >= (int64_t) nd->witnesses.size()")
    ((nd.witnesses.length : Int) ≤ nWitnessCacheSize)

def copyFront (witnesses : List IncrementalWitness) : List IncrementalWitness :=
  match witnesses with
  | [] => []
  | w :: ws => w :: w :: ws

def copyPreviousWitnesses : Result SaplingNoteData :=
  if nd.isMyNote = true ∧ nd.witnessHeight < indexHeight then do
    nd.assertCached nWitnessCacheSize
    require (.assertFailure "(nd->witnessHeight == -1) || (nd->witnessHeight == indexHeight - 1)")
      (nd.witnessHeight = -1 ∨ nd.witnessHeight = indexHeight - 1)
    let witnesses := copyFront nd.witnesses
    return { nd with witnesses := if WITNESS_CACHE_SIZE < witnesses.length then witnesses.dropLast else witnesses }
  else return nd

def appendNoteCommitment (note_commitment : uint256) : Result SaplingNoteData :=
  match nd.witnesses with
  | [] => return nd
  | w :: ws =>
    if nd.isMyNote = true ∧ nd.witnessHeight < indexHeight then do
      nd.assertCached nWitnessCacheSize
      let w ← w.append H Depth note_commitment
      return { nd with witnesses := w :: ws }
    else return nd

/-- `WitnessNoteIfMine` for the note that is found. Witnesses that it already has are dropped. -/
def witnessNoteIfMine (witness : IncrementalWitness) : Result SaplingNoteData :=
  if nd.isMyNote = false ∨ indexHeight ≤ nd.witnessHeight then return nd
  else do
    let nd := { nd with witnesses := [witness], witnessHeight := indexHeight - 1 }
    nd.assertCached nWitnessCacheSize
    return nd

def updateWitnessHeights : Result SaplingNoteData :=
  if nd.isMyNote = true ∧ nd.witnessHeight < indexHeight then do
    let nd := { nd with witnessHeight := indexHeight }
    nd.assertCached nWitnessCacheSize
    return nd
  else return nd

/-- The first part of `DecrementNoteWitnesses` for a note. -/
def popWitness : Result SaplingNoteData :=
  if nd.witnessHeight ≤ indexHeight then do
    nd.assertCached nWitnessCacheSize
    require (.assertFailure "(nd->witnessHeight == -1) || (nd->witnessHeight == indexHeight)")
      (nd.witnessHeight = -1 ∨ nd.witnessHeight = indexHeight)
    return { nd with witnesses := nd.witnesses.tail, witnessHeight := indexHeight - 1 }
  else return nd

def decrementNoteWitnesses : Result SaplingNoteData :=
  if nd.isMyNote = true then do
    let nd ← nd.popWitness indexHeight nWitnessCacheSize
    require (.assertFailure "(nWitnessCacheSize - 1) >= (int64_t) nd->witnesses.size()")
      (nd.witnessHeight < indexHeight → (nd.witnesses.length : Int) ≤ nWitnessCacheSize - 1)
    return nd
  else return nd

end Model

end SaplingNoteData

/-! ## The wallet -/

structure SaplingWallet where
  mapSaplingNoteData : FinMap SaplingOutPoint SaplingNoteData := ∅
  nWitnessCacheSize : Int := 0
  nWitnessCacheNeedsUpdate : Bool := false
  m_last_block_processed_height : Int

/-- The incoming viewing key with which the wallet decrypts an output. -/
abbrev NoteKeys := SaplingOutPoint → Option uint256

namespace SaplingWallet

section Model

variable (H : MerkleHash) (Depth : Nat) (wallet : SaplingWallet)

/-- The data of a note with the commitment appended to the tree, and its witness if it is one of the wallet's. -/
def appendOutput (chainHeight : Int) (s : IncrementalMerkleTree × FinMap SaplingOutPoint SaplingNoteData)
    (output : SaplingOutPoint × uint256) :
    Result (IncrementalMerkleTree × FinMap SaplingOutPoint SaplingNoteData) := do
  let saplingTree ← s.1.append H Depth output.2
  let notes ← s.2.updateM fun nd =>
    nd.appendNoteCommitment H Depth chainHeight wallet.nWitnessCacheSize output.2
  match notes[output.1]? with
  | none => return (saplingTree, notes)
  | some nd =>
    let nd ← nd.witnessNoteIfMine chainHeight wallet.nWitnessCacheSize saplingTree.witness
    return (saplingTree, notes.insert output.1 nd)

def growCache : SaplingWallet :=
  if wallet.nWitnessCacheSize < WITNESS_CACHE_SIZE then
    { wallet with nWitnessCacheSize := wallet.nWitnessCacheSize + 1, nWitnessCacheNeedsUpdate := true }
  else wallet

def incrementNoteWitnesses (chainHeight : Int) (block : CBlock) (saplingTree : IncrementalMerkleTree) :
    Result SaplingWallet := do
  let notes ← wallet.mapSaplingNoteData.updateM fun nd =>
    nd.copyPreviousWitnesses chainHeight wallet.nWitnessCacheSize
  let wallet := wallet.growCache
  let (_, notes) ← block.saplingOutputs.foldlM (wallet.appendOutput H Depth chainHeight) (saplingTree, notes)
  let notes ← notes.updateM fun nd => nd.updateWitnessHeights chainHeight wallet.nWitnessCacheSize
  return { wallet with mapSaplingNoteData := notes }

def decrementNoteWitnesses (p : CChainParams) (nChainHeight : Int) : Result SaplingWallet := do
  let notes ← wallet.mapSaplingNoteData.updateM fun nd =>
    nd.decrementNoteWitnesses nChainHeight wallet.nWitnessCacheSize
  let nWitnessCacheSize := wallet.nWitnessCacheSize - 1
  require (if p.isRegTestNet then .exception "nWitnessCacheSize > 0" else .assertFailure "nWitnessCacheSize > 0")
    (0 < nWitnessCacheSize)
  return { wallet with mapSaplingNoteData := notes, nWitnessCacheSize, nWitnessCacheNeedsUpdate := true }

/-- One turn of the loop of `GetSaplingNoteWitnesses`, over the witnesses so far and the anchor of the first. -/
def collectWitness (s : List (Option IncrementalWitness) × Option uint256) (note : SaplingOutPoint) :
    Result (List (Option IncrementalWitness) × Option uint256) :=
  match wallet.mapSaplingNoteData[note]?.bind fun nd => nd.witnesses.head? with
  | none => return (s.1 ++ [none], s.2)
  | some w => do
    require (.assertFailure "*rt == witnesses[i]->root()") (∀ rt, s.2 = some rt → rt = w.root H Depth)
    return (s.1 ++ [some w], some (w.root H Depth))

/-- `GetSaplingNoteWitnesses`: the witnesses, and the anchor if there is one. -/
def getSaplingNoteWitnesses (notes : List SaplingOutPoint) :
    Result (List (Option IncrementalWitness) × Option uint256) :=
  notes.foldlM (wallet.collectWitness H Depth) ([], none)

end Model

/-! ## Blocks and transactions that the wallet is told of -/

section Notices

variable (H : MerkleHash) (Depth : Nat) (p : CChainParams) (keys : NoteKeys) (wallet : SaplingWallet)

variable (sent : SaplingOutPoint → Bool)

/-- `FindMySaplingNotes` and `AddExternalNotesDataToTx`: data for the outputs that a key of the wallet decrypts, and for
those that were sent by the wallet. -/
def findNotes (tx : CTransaction) : List (SaplingOutPoint × SaplingNoteData) :=
  tx.saplingOutputs.filterMap fun output =>
    if (keys output.1).isSome ∨ sent output.1 = true then some (output.1, { ivk := keys output.1 }) else none

/-- New note data with the cached witnesses of the old ones. -/
def keepWitnesses (old : Option SaplingNoteData) (nd : SaplingNoteData) : SaplingNoteData :=
  match old with
  | none => nd
  | some old =>
    { nd with witnesses := if old.witnesses.isEmpty then nd.witnesses else old.witnesses
              witnessHeight := old.witnessHeight }

/-- `SyncTransaction`. The notes of a transaction that the wallet has go through `UpdatedNoteData`, which looks up each
of them among the new ones with `at`. -/
def syncTransaction (tx : CTransaction) : Result SaplingWallet :=
  match findNotes keys sent tx with
  | [] => return wallet
  | found => do
    require (.exception "map::at")
      (∀ e ∈ wallet.mapSaplingNoteData.toList, e.1.hash = tx.hash → e.1 ∈ found.map Prod.fst)
    let notes := found.foldl (fun (m : FinMap SaplingOutPoint SaplingNoteData) e =>
      m.insert e.1 (keepWitnesses wallet.mapSaplingNoteData[e.1]? e.2)) wallet.mapSaplingNoteData
    return { wallet with mapSaplingNoteData := notes }

/-- What `BlockConnected` reads of the entry before the one connected. -/
structure PrevIndex where
  nHeight : Int
  hashFinalSaplingRoot : uint256

/-- The tree before the block, from the coins view. -/
def previousTree (pprev : Option PrevIndex) (getSaplingAnchorAt : uint256 → Option IncrementalMerkleTree) :
    Result IncrementalMerkleTree :=
  let rt := match pprev with
    | none => H.emptyRoot Depth
    | some pprev =>
      if p.networkUpgradeActive pprev.nHeight .UPGRADE_V5_0 then pprev.hashFinalSaplingRoot else H.emptyRoot Depth
  match getSaplingAnchorAt rt with
  | none => .error (.assertFailure "pcoinsTip->GetSaplingAnchorAt")
  | some tree => .ok tree

def blockConnected (block : CBlock) (nHeight : Int) (pprev : Option PrevIndex)
    (getSaplingAnchorAt : uint256 → Option IncrementalMerkleTree) : Result SaplingWallet := do
  let wallet := { wallet with m_last_block_processed_height := nHeight }
  let wallet ← block.vtx.foldlM (fun wallet tx => wallet.syncTransaction keys sent tx) wallet
  let oldSaplingTree ← previousTree H Depth p pprev getSaplingAnchorAt
  wallet.incrementNoteWitnesses H Depth nHeight block oldSaplingTree

def blockDisconnected (block : CBlock) (nBlockHeight : Int) : Result SaplingWallet := do
  let wallet := { wallet with m_last_block_processed_height := nBlockHeight - 1 }
  let wallet ← block.vtx.foldlM (fun wallet tx => wallet.syncTransaction keys sent tx) wallet
  if p.networkUpgradeActive nBlockHeight .UPGRADE_V5_0 then wallet.decrementNoteWitnesses p nBlockHeight
  else return wallet

end Notices

end SaplingWallet

end TrumpCoin
