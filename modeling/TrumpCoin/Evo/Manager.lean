import TrumpCoin.Evo.DiffOfBlock
import TrumpCoin.Lib.Proc

/-!
# The manager of the lists

`CDeterministicPNManager` with its two caches, over `CEvoDB`: a database under two transactions, one for the current
block and one for the blocks since the last flush. `GetListForBlock` walks back to a list that is cached or stored and
applies the differences of the blocks in between.

A value of a transaction is read back as the object that was written; a value of the database is read back from its
bytes, and a read that throws counts as a missing key. None of the modelled functions erases a key of the database.
The signals to the wallet and the interface are left out.
-/

namespace TrumpCoin

open Lib

def DISK_SNAPSHOT_PERIOD : Nat := 1440
def DISK_SNAPSHOTS : Nat := 3
def LIST_DIFFS_CACHE_SIZE : Nat := DISK_SNAPSHOT_PERIOD * DISK_SNAPSHOTS

/-! ## The database -/

/-- `CDBTransaction::writes`, for the two kinds of keys of the manager. -/
structure EvoWrites (D : Type) [Digest D] where
  diffs : FinMap uint256 CDeterministicPNListDiff := ∅
  snapshots : FinMap uint256 (CDeterministicPNList D) := ∅

structure EvoTable where
  diffs : FinMap uint256 Bytes := ∅
  snapshots : FinMap uint256 Bytes := ∅

structure CEvoDB (D : Type) [Digest D] where
  db : EvoTable := {}
  rootDBTransaction : EvoWrites D := {}
  curDBTransaction : EvoWrites D := {}

/-- `CDBWrapper::Read` of a value that is there. -/
def readValue {α : Type} : Result (α × Bytes) → Result (Option α)
  | .ok (a, _) => .ok (some a)
  | .error (.exception _) => .ok none
  | .error e => .error e

namespace CEvoDB

variable {D : Type} [Digest D] (evoDb : CEvoDB D)

variable (hash : uint256)

/-- `Read` of the key `(DB_LIST_DIFF, hash)`. -/
def readDiff : Result (Option CDeterministicPNListDiff) :=
  match evoDb.curDBTransaction.diffs[hash]?.or evoDb.rootDBTransaction.diffs[hash]? with
  | some diff => .ok (some diff)
  | none =>
    match evoDb.db.diffs[hash]? with
    | none => .ok none
    | some bs => readValue (CDeterministicPNListDiff.unserialize bs)

/-- `Read` of the key `(DB_LIST_SNAPSHOT, hash)`. -/
def readSnapshot : Result (Option (CDeterministicPNList D)) :=
  match evoDb.curDBTransaction.snapshots[hash]?.or evoDb.rootDBTransaction.snapshots[hash]? with
  | some l => .ok (some l)
  | none =>
    match evoDb.db.snapshots[hash]? with
    | none => .ok none
    | some bs => readValue (CDeterministicPNList.unserialize D bs)

def writeDiff (diff : CDeterministicPNListDiff) : CEvoDB D :=
  { evoDb with curDBTransaction :=
      { evoDb.curDBTransaction with diffs := evoDb.curDBTransaction.diffs.insert hash diff } }

def writeSnapshot (l : CDeterministicPNList D) : CEvoDB D :=
  { evoDb with curDBTransaction :=
      { evoDb.curDBTransaction with snapshots := evoDb.curDBTransaction.snapshots.insert hash l } }

def commitCurTransaction : CEvoDB D :=
  { evoDb with
    rootDBTransaction :=
      { diffs := evoDb.rootDBTransaction.diffs ∪ evoDb.curDBTransaction.diffs
        snapshots := evoDb.rootDBTransaction.snapshots ∪ evoDb.curDBTransaction.snapshots }
    curDBTransaction := {} }

def rollbackCurTransaction : CEvoDB D := { evoDb with curDBTransaction := {} }

/-- `CommitRootTransaction`, where the current transaction is clean. A list is written in the order of its map. -/
def commitRootTransaction (order : MapOrder) : CEvoDB D :=
  { evoDb with
    db :=
      { diffs := evoDb.db.diffs ∪ evoDb.rootDBTransaction.diffs.map fun _ diff => diff.serialize
        snapshots := evoDb.db.snapshots ∪ evoDb.rootDBTransaction.snapshots.map fun _ l => l.serialize order }
    rootDBTransaction := {} }

end CEvoDB

/-! ## The manager -/

structure CDeterministicPNManager (D : Type) [Digest D] where
  evoDb : CEvoDB D := {}
  mnListsCache : FinMap uint256 (CDeterministicPNList D) := ∅
  mnListDiffsCache : FinMap uint256 CDeterministicPNListDiff := ∅
  tipIndex : Option CBlockIndex := none

namespace CDeterministicPNManager

variable {D : Type} [Digest D]

def cacheList (hash : uint256) (l : CDeterministicPNList D) (m : CDeterministicPNManager D) :
    CDeterministicPNManager D :=
  { m with mnListsCache := m.mnListsCache.emplace hash l }

def cacheDiff (hash : uint256) (diff : CDeterministicPNListDiff) (m : CDeterministicPNManager D) :
    CDeterministicPNManager D :=
  { m with mnListDiffsCache := m.mnListDiffsCache.emplace hash diff }

def cleanupCache (nHeight : Int) (m : CDeterministicPNManager D) : CDeterministicPNManager D :=
  { m with
    mnListsCache := m.mnListsCache.filter fun _ l => !decide (l.nHeight + LIST_DIFFS_CACHE_SIZE < nHeight)
    mnListDiffsCache := m.mnListDiffsCache.filter fun _ d => !decide (d.nHeight + LIST_DIFFS_CACHE_SIZE < nHeight) }

def updatedBlockTip (pindex : CBlockIndex) (m : CDeterministicPNManager D) : CDeterministicPNManager D :=
  { m with tipIndex := some pindex }

def commit (m : CDeterministicPNManager D) : CDeterministicPNManager D :=
  { m with evoDb := m.evoDb.commitCurTransaction }

def rollback (m : CDeterministicPNManager D) : CDeterministicPNManager D :=
  { m with evoDb := m.evoDb.rollbackCurTransaction }

end CDeterministicPNManager

abbrev ManagerM (D : Type) [Digest D] := Proc (CDeterministicPNManager D) Fault

/-! ## `GetListForBlock` -/

section GetList

variable {D : Type} [Digest D] (p : CChainParams)

open Proc CDeterministicPNManager

/-- The body of the loop that looks for a list: `none` if the difference of the block is in the cache. -/
def lookup (pindex : CBlockIndex) : ManagerM D (Option (CDeterministicPNList D)) := do
  let hash := pindex.getBlockHash
  match ← read fun m => m.mnListsCache[hash]? with
  | some l => return some l
  | none =>
    let stored : Result (Option (CDeterministicPNList D)) ← read fun m => m.evoDb.readSnapshot hash
    match ← ofExcept stored with
    | some l => do
      modify (cacheList hash l)
      return some l
    | none =>
      match ← read fun m => m.mnListDiffsCache[hash]? with
      | some _ => return none
      | none =>
        let stored : Result (Option CDeterministicPNListDiff) ← read fun m => m.evoDb.readDiff hash
        match ← ofExcept stored with
        | some diff => do
          modify (cacheDiff hash { diff with nHeight := pindex.nHeight })
          return none
        | none =>
          -- the block before the enforcement of the lists
          if p.isActivationHeight (pindex.nHeight + 1) .UPGRADE_V6_0 then do
            let snapshot : CDeterministicPNList D := { blockHash := hash }
            modify (cacheList hash snapshot)
            return some snapshot
          else fail (.exception "No patriotnode list data found for block")

/-- The loop, with the blocks whose differences are to be applied, oldest first. -/
def findSnapshot : CBlockIndex → List CBlockIndex → ManagerM D (CDeterministicPNList D × List CBlockIndex)
  | .genesis hash, listDiffIndexes => do
    match ← lookup p (.genesis hash) with
    | some l => return (l, listDiffIndexes)
    | none => fail (.nullDeref "GetListForBlock: pindex->pprev")
  | .child pprev hash, listDiffIndexes => do
    match ← lookup p (.child pprev hash) with
    | some l => return (l, listDiffIndexes)
    | none => findSnapshot pprev (.child pprev hash :: listDiffIndexes)

/-- The body of the loop over the differences. -/
def applyCachedDiff (diffs : FinMap uint256 CDeterministicPNListDiff) (snapshot : CDeterministicPNList D)
    (diffIndex : CBlockIndex) : Result (CDeterministicPNList D) :=
  match diffs[diffIndex.getBlockHash]? with
  | none => .error (.exception "unordered_map::at")
  | some diff =>
    if diff.hasChanges then snapshot.applyDiff diffIndex diff
    else .ok { snapshot with blockHash := diffIndex.getBlockHash, nHeight := diffIndex.nHeight }

def getListForBlock (pindex : CBlockIndex) : ManagerM D (CDeterministicPNList D) :=
  if isDIP3Enforced p pindex.nHeight = false then return {}
  else do
    let (snapshot, listDiffIndexes) ← findSnapshot p pindex []
    let diffs ← read fun m => m.mnListDiffsCache
    let snapshot ← ofExcept (listDiffIndexes.foldlM (applyCachedDiff diffs) snapshot)
    let tipIndex ← read fun m => m.tipIndex
    -- a list of the tip is always kept
    modify (if tipIndex.any (fun tip => snapshot.blockHash == tip.getBlockHash) then
      cacheList snapshot.blockHash snapshot else id)
    return snapshot

end GetList

/-! ## `ProcessBlock` and `UndoBlock` -/

section Blocks

variable {D : Type} [Digest D] (p : CChainParams) (c : Crypto) (env : Env) (block : CBlock) (pindexPrev : CBlockIndex)

open Proc CDeterministicPNManager

/-- The `catch` clause of `ProcessBlock`. -/
def catchFault : Fault → Fault
  | .exception _ => .reject 100 .REJECT_INVALID "failed-dmn-block"
  | e => e

/-- Write the difference and, at times, the list itself. -/
def storeList (oldList newList : CDeterministicPNList D) (diff : CDeterministicPNListDiff)
    (m : CDeterministicPNManager D) : CDeterministicPNManager D :=
  let nHeight := pindexPrev.nHeight + 1
  let m := { m with evoDb := m.evoDb.writeDiff newList.blockHash diff }
  let m := if nHeight % DISK_SNAPSHOT_PERIOD = 0 ∨ oldList.nHeight = -1 then
      cacheList newList.blockHash newList { m with evoDb := m.evoDb.writeSnapshot newList.blockHash newList }
    else m
  cacheDiff block.getHash { diff with nHeight := nHeight } m

/-- The `try` block of `ProcessBlock`; returns the list it computed. -/
def processLists (fJustCheck : Bool) : ManagerM D (CDeterministicPNList D) := do
  let oldList ← getListForBlock p pindexPrev
  let newList ← ofExcept (buildNewListFromBlock p c env block pindexPrev oldList)
  if fJustCheck then return newList
  else do
    let newList := { newList with blockHash := block.getHash }
    let oldList ← getListForBlock p pindexPrev
    let diff ← ofExcept (oldList.buildDiff env.order newList)
    modify (storeList block pindexPrev oldList newList diff)
    return newList

def processBlock (fJustCheck : Bool) : ManagerM D (CDeterministicPNList D) :=
  if isDIP3Enforced p (pindexPrev.nHeight + 1) = false then return {}
  else do
    let newList ← mapError catchFault (processLists p c env block pindexPrev fJustCheck)
    modify (if fJustCheck then id else cleanupCache (pindexPrev.nHeight + 1))
    return newList

/-- `ProcessSpecialTxsInBlock`. The checks ask for the previous list each; the first call leaves it in reach of the
others. -/
def processSpecialTxs (fJustCheck : Bool) : ManagerM D (CDeterministicPNList D) := do
  let mnList ← getListForBlock p pindexPrev
  ofExcept (block.vtx.forM fun tx => checkSpecialTx p c env tx { pindexPrev := pindexPrev, mnList := mnList })
  processBlock p c env block pindexPrev fJustCheck

def eraseCached (hash : uint256) (m : CDeterministicPNManager D) : CDeterministicPNManager D :=
  { m with mnListsCache := m.mnListsCache.erase hash, mnListDiffsCache := m.mnListDiffsCache.erase hash }

/-- `UndoBlock`. A missing difference reads as one without changes; the lists are those that the signals get. -/
def undoBlock (order : MapOrder) : ManagerM D Unit :=
  if isDIP3Enforced p (pindexPrev.nHeight + 1) = false then return ()
  else do
    let hash := block.getHash
    let stored : Result (Option CDeterministicPNListDiff) ← read fun m => m.evoDb.readDiff hash
    let diff ← ofExcept stored
    if (diff.getD {}).hasChanges then do
      let curList ← getListForBlock p (.child pindexPrev hash)
      let prevList ← getListForBlock p pindexPrev
      modify (eraseCached hash)
      let _ ← ofExcept (curList.buildDiff order prevList)
      return ()
    else modify (eraseCached hash)

end Blocks

end TrumpCoin
