import TrumpCoin.Chainstate.Coins
import TrumpCoin.Lib.WriteBack

/-!
# The chainstate database

`CCoinsViewDB` of `txdb.cpp` and `sapling/sapling_txdb.cpp`, with the entries of the coins caches of `coins.h` that its
`BatchWrite` is given. The database is the map of its records. `BatchWrite` is the list of the batches that it writes,
in order: the process may stop between any two of them. The order in which a hash map is iterated and the estimated
size of a batch are parameters; what is logged and counted is left out.

* `coinBatches_flatten`: wherever the coins are cut into batches, their writes are the same.
* `batchWrite_spec`: after all batches the database holds what was seen through the cache.
-/

namespace TrumpCoin

open Lib WriteBack

/-! ## Entries of the caches -/

structure CCoinsCacheEntry where
  coin : Coin := coinEmpty
  dirty : Bool := false
  fresh : Bool := false

structure CAnchorsSaplingCacheEntry where
  entered : Bool := false
  tree : SaplingMerkleTree := []
  dirty : Bool := false

structure CNullifiersCacheEntry where
  entered : Bool := false
  dirty : Bool := false

def Coin.unspent (coin : Coin) : Option Coin := if coin.isSpent then none else some coin

def CAnchorsSaplingCacheEntry.anchor (entry : CAnchorsSaplingCacheEntry) : Option SaplingMerkleTree :=
  if entry.entered then some entry.tree else none

/-- The data of one `CCoinsViewCache`. -/
structure CacheLayer where
  hashBlock : uint256 := 0
  cacheCoins : FinMap COutPoint CCoinsCacheEntry := ∅
  hashSaplingAnchor : uint256 := 0
  cacheSaplingAnchors : FinMap uint256 CAnchorsSaplingCacheEntry := ∅
  cacheSaplingNullifiers : FinMap uint256 CNullifiersCacheEntry := ∅

def coinReading : Reading CCoinsCacheEntry (Option Coin) where
  seen e := e.coin.unspent
  dirty := CCoinsCacheEntry.dirty
  fresh := CCoinsCacheEntry.fresh
  absent := none

def anchorReading : Reading CAnchorsSaplingCacheEntry (Option SaplingMerkleTree) where
  seen := CAnchorsSaplingCacheEntry.anchor
  dirty := CAnchorsSaplingCacheEntry.dirty
  absent := none

def nullifierReading : Reading CNullifiersCacheEntry Bool where
  seen := CNullifiersCacheEntry.entered
  dirty := CNullifiersCacheEntry.dirty
  absent := false

/-! ## The records -/

structure CCoinsViewDB where
  coins : FinMap COutPoint Coin := ∅
  saplingAnchors : FinMap uint256 SaplingMerkleTree := ∅
  saplingNullifiers : FinMap uint256 Bool := ∅
  bestSaplingAnchor : Option uint256 := none
  bestBlock : Option uint256 := none
  headBlocks : Option (List uint256) := none

/-- One `Write` or `Erase` of a batch. -/
inductive DbWrite where
  | coin (outpoint : COutPoint) (coin : Option Coin)
  | saplingAnchor (rt : uint256) (tree : Option SaplingMerkleTree)
  | saplingNullifier (nullifier : uint256) (spent : Option Bool)
  | bestSaplingAnchor (hash : uint256)
  | bestBlock (hash : Option uint256)
  | headBlocks (heads : Option (List uint256))

/-- What a flush depends on besides the caches. -/
structure FlushEnv where
  coinOrder : FinMap COutPoint CCoinsCacheEntry → List (COutPoint × CCoinsCacheEntry)
  coinOrder_perm : ∀ m, (coinOrder m).Perm m.toList
  anchorOrder : FinMap uint256 CAnchorsSaplingCacheEntry → List (uint256 × CAnchorsSaplingCacheEntry)
  anchorOrder_perm : ∀ m, (anchorOrder m).Perm m.toList
  nullifierOrder : FinMap uint256 CNullifiersCacheEntry → List (uint256 × CNullifiersCacheEntry)
  nullifierOrder_perm : ∀ m, (nullifierOrder m).Perm m.toList
  sizeEstimate : List DbWrite → Nat
  /-- `-dbbatchsize` -/
  batch_size : Nat

namespace CCoinsViewDB

variable (root : SaplingMerkleTree → uint256) (db : CCoinsViewDB)

def getCoin (outpoint : COutPoint) : Option Coin := db.coins[outpoint]?

def getBestBlock : uint256 := db.bestBlock.getD 0

def getHeadBlocks : List uint256 := db.headBlocks.getD []

def getSaplingAnchorAt (rt : uint256) : Option SaplingMerkleTree :=
  if rt = root [] then some [] else db.saplingAnchors[rt]?

def getNullifier (nf : uint256) : Bool := (db.saplingNullifiers[nf]?).isSome

def getBestAnchor : uint256 := db.bestSaplingAnchor.getD (root [])

def apply : DbWrite → CCoinsViewDB
  | .coin outpoint coin => { db with coins := db.coins.assign outpoint coin }
  | .saplingAnchor rt tree => { db with saplingAnchors := db.saplingAnchors.assign rt tree }
  | .saplingNullifier nf spent => { db with saplingNullifiers := db.saplingNullifiers.assign nf spent }
  | .bestSaplingAnchor hash => { db with bestSaplingAnchor := some hash }
  | .bestBlock hash => { db with bestBlock := hash }
  | .headBlocks heads => { db with headBlocks := heads }

def writeBatch (batch : List DbWrite) : CCoinsViewDB := batch.foldl apply db

end CCoinsViewDB

/-! ## `BatchWrite` -/

/-- What `BatchWrite` adds to the batch for a coin. -/
def coinWrites (x : COutPoint × CCoinsCacheEntry) : List DbWrite :=
  if x.2.dirty then [.coin x.1 x.2.coin.unspent] else []

/-- What `BatchWriteAnchors` adds to the batch. -/
def anchorWrites (root : SaplingMerkleTree → uint256) (x : uint256 × CAnchorsSaplingCacheEntry) : List DbWrite :=
  if x.2.dirty then
    if x.2.entered = false then [.saplingAnchor x.1 none]
    else if x.1 = root [] then []
    else [.saplingAnchor x.1 (some x.2.tree)]
  else []

def nullifierWrites (x : uint256 × CNullifiersCacheEntry) : List DbWrite :=
  if x.2.dirty then
    if x.2.entered = false then [.saplingNullifier x.1 none] else [.saplingNullifier x.1 (some true)]
  else []

namespace CCoinsViewDB

variable (F : FlushEnv) (root : SaplingMerkleTree → uint256) (db : CCoinsViewDB)

/-- The loop over the coins, from the batch collected so far: the batches written on the way, and the last one. -/
def coinBatches (batch : List DbWrite) :
    List (COutPoint × CCoinsCacheEntry) → List (List DbWrite) × List DbWrite
  | [] => ([], batch)
  | x :: entries =>
    let batch := batch ++ coinWrites x
    if F.batch_size < F.sizeEstimate batch then
      let (written, last) := coinBatches [] entries
      (batch :: written, last)
    else coinBatches batch entries

variable (layer : CacheLayer)

def batchWriteSapling : List DbWrite :=
  (F.anchorOrder layer.cacheSaplingAnchors).flatMap (anchorWrites root) ++
    (F.nullifierOrder layer.cacheSaplingNullifiers).flatMap nullifierWrites ++
      if layer.hashSaplingAnchor = 0 then [] else [.bestSaplingAnchor layer.hashSaplingAnchor]

/-- `old_tip`: with two head blocks the database is in the middle of a replay. -/
def oldTip (hashBlock : uint256) : Result uint256 :=
  if db.getBestBlock = 0 then
    match db.getHeadBlocks with
    | [head, old_tip] => do
      require (.assertFailure "BatchWrite: old_heads[0] == hashBlock") (head = hashBlock)
      return old_tip
    | _ => return db.getBestBlock
  else return db.getBestBlock

def transitionMark (hashBlock old_tip : uint256) : List DbWrite :=
  [.bestBlock none, .headBlocks (some [hashBlock, old_tip])]

/-- What the last batch writes after the coins. -/
def lastWrites : List DbWrite :=
  batchWriteSapling F root layer ++ [.headBlocks none, .bestBlock (some layer.hashBlock)]

def batches : Result (List (List DbWrite)) := do
  require (.assertFailure "BatchWrite: !hashBlock.IsNull()") (layer.hashBlock ≠ 0)
  let old_tip ← db.oldTip layer.hashBlock
  let (written, last) := coinBatches F (transitionMark layer.hashBlock old_tip) (F.coinOrder layer.cacheCoins)
  return written ++ [last ++ lastWrites F root layer]

def batchWrite : Result CCoinsViewDB := do
  let batches ← db.batches F root layer
  return batches.foldl writeBatch db

end CCoinsViewDB

/-! ## The writes of all batches -/

namespace CCoinsViewDB

variable {F : FlushEnv} {root : SaplingMerkleTree → uint256} {db : CCoinsViewDB}

theorem writeBatch_append (ws vs : List DbWrite) : db.writeBatch (ws ++ vs) = (db.writeBatch ws).writeBatch vs :=
  List.foldl_append

theorem foldl_writeBatch (bs : List (List DbWrite)) : bs.foldl writeBatch db = db.writeBatch bs.flatten := by
  induction bs generalizing db with
  | nil => rfl
  | cons b bs ih => rw [List.foldl_cons, ih, List.flatten_cons, writeBatch_append]

theorem coinBatches_flatten {batch : List DbWrite} {entries : List (COutPoint × CCoinsCacheEntry)} :
    (coinBatches F batch entries).1.flatten ++ (coinBatches F batch entries).2 =
      batch ++ entries.flatMap coinWrites := by
  induction entries generalizing batch with
  | nil => simp [coinBatches]
  | cons x entries ih =>
    rw [coinBatches, List.flatMap_cons, ← List.append_assoc]
    split
    · rw [List.flatten_cons, List.append_assoc, ih, List.nil_append]
    · exact ih

theorem writeBatch_flatMap {α : Type} (f : α → List DbWrite) (entries : List α) :
    db.writeBatch (entries.flatMap f) = entries.foldl (fun db x => db.writeBatch (f x)) db := by
  induction entries generalizing db with
  | nil => rfl
  | cons x entries ih => rw [List.flatMap_cons, writeBatch_append, ih, List.foldl_cons]

/-- What no write for an entry changes. -/
theorem writeBatch_frame {α β : Type} {obs : CCoinsViewDB → β} {f : α → List DbWrite}
    (h : ∀ x db, obs (writeBatch db (f x)) = obs db) (entries : List α) :
    obs (db.writeBatch (entries.flatMap f)) = obs db := by
  induction entries generalizing db with
  | nil => rfl
  | cons x entries ih => rw [List.flatMap_cons, writeBatch_append, ih, h]

/-! ## The database after a flush -/

section Spec

variable {layer : CacheLayer} {db' : CCoinsViewDB} {coins : COutPoint → Option Coin}

theorem getCoin_coinWrites {cache : FinMap COutPoint CCoinsCacheEntry}
    (h : coinReading.Through cache db.getCoin coins) :
    (db.writeBatch ((F.coinOrder cache).flatMap coinWrites)).getCoin = coins := by
  rw [writeBatch_flatMap]
  refine h.foldl_flush (F.coinOrder_perm cache) (fun k e db _ => ?_) fun x db k hk => ?_
  · unfold coinWrites
    cases hdirty : e.dirty <;> simp [coinReading, writeBatch, apply, getCoin, FinMap.get_assign, hdirty]
  · unfold coinWrites
    split
    · simp [writeBatch, apply, getCoin, FinMap.get_assign, Ne.symm hk]
    · rfl

variable {anchors : uint256 → Option SaplingMerkleTree}

/-- The tree of the empty root is not written, and it is read without a record. -/
theorem getSaplingAnchorAt_anchorWrites {cache : FinMap uint256 CAnchorsSaplingCacheEntry}
    (h : anchorReading.Through cache (db.getSaplingAnchorAt root) anchors) (hempty : anchors (root []) = some []) :
    (db.writeBatch ((F.anchorOrder cache).flatMap (anchorWrites root))).getSaplingAnchorAt root = anchors := by
  rw [writeBatch_flatMap]
  refine h.foldl_flush (F.anchorOrder_perm cache) (fun k e db hk => ?_) fun x db k hk => ?_
  · have hseen : anchors k = e.anchor := h.seen_eq hk
    unfold anchorWrites
    by_cases hroot : k = root []
    · have hread : e.anchor = some [] := by rw [← hseen, hroot, hempty]
      have hany : ∀ db : CCoinsViewDB, db.getSaplingAnchorAt root k = some [] := fun db => if_pos hroot
      rw [hany, hany]
      split
      · exact hread.symm
      · rfl
    · cases hdirty : e.dirty <;> cases hentered : e.entered <;>
        simp [anchorReading, writeBatch, apply, getSaplingAnchorAt, FinMap.get_assign, hdirty, hentered, hroot,
          CAnchorsSaplingCacheEntry.anchor]
  · unfold anchorWrites
    split_ifs <;> simp [writeBatch, apply, getSaplingAnchorAt, FinMap.get_assign, Ne.symm hk]

variable {nullifiers : uint256 → Bool}

theorem getNullifier_nullifierWrites {cache : FinMap uint256 CNullifiersCacheEntry}
    (h : nullifierReading.Through cache db.getNullifier nullifiers) :
    (db.writeBatch ((F.nullifierOrder cache).flatMap nullifierWrites)).getNullifier = nullifiers := by
  rw [writeBatch_flatMap]
  refine h.foldl_flush (F.nullifierOrder_perm cache) (fun k e db _ => ?_) fun x db k hk => ?_
  · unfold nullifierWrites
    cases hdirty : e.dirty <;> cases hentered : e.entered <;>
      simp [nullifierReading, writeBatch, apply, getNullifier, FinMap.get_assign, hdirty, hentered]
  · unfold nullifierWrites
    split_ifs <;> simp [writeBatch, apply, getNullifier, FinMap.get_assign, Ne.symm hk]

/-- The writes of all batches, wherever they were cut. -/
theorem batchWrite_eq_ok {old_tip : uint256} (hblock : layer.hashBlock ≠ 0)
    (htip : db.oldTip layer.hashBlock = .ok old_tip) :
    db.batchWrite F root layer = .ok (((((db.writeBatch (transitionMark layer.hashBlock old_tip)).writeBatch
      ((F.coinOrder layer.cacheCoins).flatMap coinWrites)).writeBatch
      ((F.anchorOrder layer.cacheSaplingAnchors).flatMap (anchorWrites root))).writeBatch
      ((F.nullifierOrder layer.cacheSaplingNullifiers).flatMap nullifierWrites)).writeBatch
      ((if layer.hashSaplingAnchor = 0 then [] else [.bestSaplingAnchor layer.hashSaplingAnchor]) ++
        [.headBlocks none, .bestBlock (some layer.hashBlock)])) := by
  have hreq : require (Fault.assertFailure "BatchWrite: !hashBlock.IsNull()") (layer.hashBlock ≠ 0) = .ok () :=
    require_eq_ok.mpr hblock
  simp only [batchWrite, batches, hreq, htip, ok_bind, pure_bind, foldl_writeBatch, List.flatten_append,
    List.flatten_singleton, ← List.append_assoc, coinBatches_flatten, lastWrites, batchWriteSapling]
  simp only [List.append_assoc, writeBatch_append]
  rfl

/-- After the flush the database has what was seen through the cache, and no transition is under way. -/
theorem batchWrite_spec {old_tip : uint256} (F : FlushEnv)
    (hblock : layer.hashBlock ≠ 0) (hanchor : layer.hashSaplingAnchor ≠ 0)
    (htip : db.oldTip layer.hashBlock = .ok old_tip) (hcoins : coinReading.Through layer.cacheCoins db.getCoin coins)
    (hanchors : anchorReading.Through layer.cacheSaplingAnchors (db.getSaplingAnchorAt root) anchors)
    (hempty : anchors (root []) = some [])
    (hnullifiers : nullifierReading.Through layer.cacheSaplingNullifiers db.getNullifier nullifiers) :
    ∃ db', db.batchWrite F root layer = .ok db' ∧ db'.getCoin = coins ∧ db'.getSaplingAnchorAt root = anchors ∧
      db'.getNullifier = nullifiers ∧ db'.getBestBlock = layer.hashBlock ∧
      db'.getBestAnchor root = layer.hashSaplingAnchor ∧ db'.headBlocks = none := by
  rw [batchWrite_eq_ok hblock htip, if_neg hanchor]
  -- the databases after the mark, the coins, the anchors and the nullifiers
  generalize h₁ : db.writeBatch (transitionMark layer.hashBlock old_tip) = db₁
  generalize h₂ : db₁.writeBatch ((F.coinOrder layer.cacheCoins).flatMap coinWrites) = db₂
  generalize h₃ : db₂.writeBatch ((F.anchorOrder layer.cacheSaplingAnchors).flatMap (anchorWrites root)) = db₃
  generalize h₄ : db₃.writeBatch ((F.nullifierOrder layer.cacheSaplingNullifiers).flatMap nullifierWrites) = db₄
  have hf₂ : db₂.getSaplingAnchorAt root = db₁.getSaplingAnchorAt root ∧ db₂.getNullifier = db₁.getNullifier := by
    rw [← h₂]
    constructor <;> refine writeBatch_frame (fun x db => ?_) _ <;> unfold coinWrites <;> split <;> rfl
  have hf₃ : db₃.getCoin = db₂.getCoin ∧ db₃.getNullifier = db₂.getNullifier := by
    rw [← h₃]
    constructor <;> refine writeBatch_frame (fun x db => ?_) _ <;> unfold anchorWrites <;> split_ifs <;> rfl
  have hf₄ : db₄.getCoin = db₃.getCoin ∧ db₄.getSaplingAnchorAt root = db₃.getSaplingAnchorAt root := by
    rw [← h₄]
    constructor <;> refine writeBatch_frame (fun x db => ?_) _ <;> unfold nullifierWrites <;> split_ifs <;> rfl
  have hc : db₂.getCoin = coins := by rw [← h₂]; exact getCoin_coinWrites (by rw [← h₁]; exact hcoins)
  have ha : db₃.getSaplingAnchorAt root = anchors := by
    rw [← h₃]
    refine getSaplingAnchorAt_anchorWrites ?_ hempty
    rw [hf₂.1, ← h₁]
    exact hanchors
  have hn : db₄.getNullifier = nullifiers := by
    rw [← h₄]
    refine getNullifier_nullifierWrites ?_
    rw [hf₃.2, hf₂.2, ← h₁]
    exact hnullifiers
  refine ⟨_, rfl, ?_, ?_, hn, rfl, rfl, rfl⟩
  · exact (hf₄.1.trans hf₃.1).trans hc
  · exact hf₄.2.trans ha

end Spec

end CCoinsViewDB

end TrumpCoin
