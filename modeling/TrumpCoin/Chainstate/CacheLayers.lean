import TrumpCoin.Chainstate.CoinsDB

/-!
# The stack of coins caches

`CCoinsViewCache` of `coins.cpp` with its flags. Caches are stacked over the chainstate database, the topmost first. A
read fills the caches on its way, so every function here returns the caches after it. The accounting of memory is left
out.

Below the caches stands what they are for: `PlainView` has the unspent coins and the nullifiers as plain maps and the
commitment trees as a stack. `CacheOp` is a call to one of the caches; `ViewStack.step` makes it on the caches and
`PlainView.step` on the plain views, of which there is one for each cache and one for the database.
-/

namespace TrumpCoin

open Lib WriteBack

/-! ## Reading -/

namespace CacheLayer

section Reads

variable (root : SaplingMerkleTree → uint256) (db : CCoinsViewDB)

/-- `GetCoin` with `FetchCoin`. -/
def getCoin (outpoint : COutPoint) : List CacheLayer → Option Coin × List CacheLayer
  | [] => (db.getCoin outpoint, [])
  | layer :: base =>
    match layer.cacheCoins[outpoint]? with
    | some entry => (some entry.coin, layer :: base)
    | none =>
      match getCoin outpoint base with
      | (none, base) => (none, layer :: base)
      | (some tmp, base) =>
        -- a spent coin of the base is as good as none
        (some tmp, { layer with
          cacheCoins := layer.cacheCoins.insert outpoint { coin := tmp, fresh := tmp.isSpent } } :: base)

/-- The entry that `GetCoin` finds is that of a spent coin. -/
def spentEntry (outpoint : COutPoint) : List CacheLayer → Bool
  | [] => false
  | layer :: base =>
    match layer.cacheCoins[outpoint]? with
    | some entry => entry.coin.isSpent
    | none => spentEntry outpoint base

def haveCoin (outpoint : COutPoint) (layers : List CacheLayer) : Bool × List CacheLayer :=
  let (coin, layers) := getCoin db outpoint layers
  (coin.any fun coin => !coin.isSpent, layers)

def getSaplingAnchorAt (rt : uint256) : List CacheLayer → Option SaplingMerkleTree × List CacheLayer
  | [] => (db.getSaplingAnchorAt root rt, [])
  | layer :: base =>
    match layer.cacheSaplingAnchors[rt]? with
    | some entry => (entry.anchor, layer :: base)
    | none =>
      match getSaplingAnchorAt rt base with
      | (none, base) => (none, layer :: base)
      | (some tree, base) =>
        (some tree, { layer with
          cacheSaplingAnchors := layer.cacheSaplingAnchors.insert rt { entered := true, tree := tree } } :: base)

def getNullifier (nullifier : uint256) : List CacheLayer → Bool × List CacheLayer
  | [] => (db.getNullifier nullifier, [])
  | layer :: base =>
    match layer.cacheSaplingNullifiers[nullifier]? with
    | some entry => (entry.entered, layer :: base)
    | none =>
      let (tmp, base) := getNullifier nullifier base
      (tmp, { layer with
        cacheSaplingNullifiers := layer.cacheSaplingNullifiers.insert nullifier { entered := tmp } } :: base)

def getBestBlock : List CacheLayer → uint256 × List CacheLayer
  | [] => (db.getBestBlock, [])
  | layer :: base =>
    if layer.hashBlock = 0 then
      let (hash, base) := getBestBlock base
      (hash, { layer with hashBlock := hash } :: base)
    else (layer.hashBlock, layer :: base)

def getBestAnchor : List CacheLayer → uint256 × List CacheLayer
  | [] => (db.getBestAnchor root, [])
  | layer :: base =>
    if layer.hashSaplingAnchor = 0 then
      let (hash, base) := getBestAnchor base
      (hash, { layer with hashSaplingAnchor := hash } :: base)
    else (layer.hashSaplingAnchor, layer :: base)

end Reads

/-! ## Writing -/

variable (layer : CacheLayer)

def addCoin (outpoint : COutPoint) (coin : Coin) (possible_overwrite : Bool) : Result CacheLayer := do
  require (.assertFailure "AddCoin: !coin.IsSpent()") (coin.isSpent = false)
  if CScript.isUnspendable coin.out.scriptPubKey || CScript.isZerocoinMint coin.out.scriptPubKey then return layer
  else
    let entry := (layer.cacheCoins[outpoint]?).getD {}
    if possible_overwrite then
      return { layer with
        cacheCoins := layer.cacheCoins.insert outpoint { entry with coin := coin, dirty := true } }
    else do
      require (.exception "Adding new coin that replaces non-pruned entry") (entry.coin.isSpent = true)
      return { layer with
        cacheCoins := layer.cacheCoins.insert outpoint
          { coin := coin, dirty := true, fresh := entry.fresh || !entry.dirty } }

/-- The part of `SpendCoin` after `FetchCoin`, with the coin that is moved out. -/
def spendFetched (outpoint : COutPoint) : Coin × CacheLayer :=
  match layer.cacheCoins[outpoint]? with
  | none => (coinEmpty, layer)
  | some entry =>
    if entry.fresh then (entry.coin, { layer with cacheCoins := layer.cacheCoins.erase outpoint })
    else (entry.coin, { layer with
      cacheCoins := layer.cacheCoins.insert outpoint { entry with coin := coinEmpty, dirty := true } })

def uncache (outpoint : COutPoint) : CacheLayer :=
  match layer.cacheCoins[outpoint]? with
  | none => layer
  | some entry =>
    if entry.dirty || entry.fresh then layer else { layer with cacheCoins := layer.cacheCoins.erase outpoint }

def setNullifiers (tx : CTransaction) (spent : Bool) : CacheLayer :=
  match tx.sapData with
  | none => layer
  | some d => { layer with
      cacheSaplingNullifiers := d.vShieldedSpend.foldl
        (fun m spend => m.insert spend.nullifier { entered := spent, dirty := true }) layer.cacheSaplingNullifiers }

/-- `AbstractPushAnchor` where the root changes. -/
def enterAnchor (root : SaplingMerkleTree → uint256) (layer : CacheLayer) (tree : SaplingMerkleTree) : CacheLayer :=
  { layer with
    cacheSaplingAnchors := layer.cacheSaplingAnchors.insert (root tree) { entered := true, tree := tree, dirty := true }
    hashSaplingAnchor := root tree }

/-- `AbstractPopAnchor` after the best anchor was brought into the cache. -/
def removeAnchor (currentRoot newrt : uint256) : CacheLayer :=
  let entry := (layer.cacheSaplingAnchors[currentRoot]?).getD {}
  { layer with
    cacheSaplingAnchors := layer.cacheSaplingAnchors.insert currentRoot { entry with entered := false, dirty := true }
    hashSaplingAnchor := newrt }

/-! ## `BatchWrite` into a cache -/

/-- A coin's entry that comes from the cache above. -/
def mergeCoin (own : Option CCoinsCacheEntry) (child : CCoinsCacheEntry) : Result (Option CCoinsCacheEntry) :=
  if child.dirty = false then .ok own
  else
    match own with
    | none =>
      if child.fresh && child.coin.isSpent then .ok none
      else .ok (some { coin := child.coin, dirty := true, fresh := child.fresh })
    | some us => do
      require
        (.exception "FRESH flag misapplied to cache entry for base transaction with spendable outputs")
        (¬(child.fresh = true ∧ us.coin.isSpent = false))
      -- the child's FRESH flag is not copied
      if us.fresh && child.coin.isSpent then return none
      else return some { us with coin := child.coin, dirty := true }

/-- `BatchWriteAnchors`, for one entry. -/
def mergeAnchor (own : Option CAnchorsSaplingCacheEntry) (child : CAnchorsSaplingCacheEntry) :
    Result (Option CAnchorsSaplingCacheEntry) :=
  if child.dirty = false then .ok own
  else
    match own with
    | none => .ok (some { entered := child.entered, tree := child.tree, dirty := true })
    | some us =>
      if us.entered = child.entered then .ok (some us)
      else .ok (some { us with entered := child.entered, dirty := true })

/-- `BatchWriteNullifiers`, for one entry. -/
def mergeNullifier (own : Option CNullifiersCacheEntry) (child : CNullifiersCacheEntry) :
    Result (Option CNullifiersCacheEntry) :=
  if child.dirty = false then .ok own
  else
    match own with
    | none => .ok (some { entered := child.entered, dirty := true })
    | some us =>
      if us.entered = child.entered then .ok (some us) else .ok (some { entered := child.entered, dirty := true })

def batchWrite (F : FlushEnv) (own child : CacheLayer) : Result CacheLayer := do
  let cacheCoins ← mergeAll mergeCoin (F.coinOrder child.cacheCoins) own.cacheCoins
  let cacheSaplingAnchors ← mergeAll mergeAnchor (F.anchorOrder child.cacheSaplingAnchors) own.cacheSaplingAnchors
  let cacheSaplingNullifiers ←
    mergeAll mergeNullifier (F.nullifierOrder child.cacheSaplingNullifiers) own.cacheSaplingNullifiers
  return ⟨child.hashBlock, cacheCoins, child.hashSaplingAnchor, cacheSaplingAnchors, cacheSaplingNullifiers⟩

def cleared : CacheLayer :=
  { hashBlock := layer.hashBlock, hashSaplingAnchor := layer.hashSaplingAnchor }

end CacheLayer

/-! ## Calls -/

abbrev UnspentCoin := { coin : Coin // coin.isSpent = false }

inductive CacheRead where
  | getCoin (outpoint : COutPoint)
  | haveCoin (outpoint : COutPoint)
  | getNullifier (nullifier : uint256)
  | getSaplingAnchorAt (rt : uint256)
  | getBestAnchor
  | getBestBlock

inductive CacheAnswer where
  | coin (coin : Option Coin)
  | flag (flag : Bool)
  | tree (tree : Option SaplingMerkleTree)
  | hash (hash : uint256)
  | moved (coin : Coin)
  | done

/-- A call. Reads are of the cache at some level, `0` being the topmost, or of the database below all; everything else
is a call to the topmost cache, except that a cache may be put over it or destroyed. -/
inductive CacheOp where
  | read (level : Nat) (read : CacheRead)
  | addCoin (outpoint : COutPoint) (coin : UnspentCoin) (possible_overwrite : Bool)
  | spendCoin (outpoint : COutPoint)
  | uncache (outpoint : COutPoint)
  | setNullifiers (tx : CTransaction) (spent : Bool)
  | pushAnchor (tree : SaplingMerkleTree)
  | popAnchor (newrt : uint256)
  | setBestBlock (hash : uint256)
  | flush (F : FlushEnv)
  | openCache
  | dropCache

/-- The caches, the topmost first, and the database. -/
structure ViewStack where
  layers : List CacheLayer
  db : CCoinsViewDB

namespace ViewStack

variable (root : SaplingMerkleTree → uint256)

def readFrom (db : CCoinsViewDB) (layers : List CacheLayer) : CacheRead → CacheAnswer × List CacheLayer
  | .getCoin outpoint => (CacheLayer.getCoin db outpoint layers).map .coin id
  | .haveCoin outpoint => (CacheLayer.haveCoin db outpoint layers).map .flag id
  | .getNullifier nullifier => (CacheLayer.getNullifier db nullifier layers).map .flag id
  | .getSaplingAnchorAt rt => (CacheLayer.getSaplingAnchorAt root db rt layers).map .tree id
  | .getBestAnchor => (CacheLayer.getBestAnchor root db layers).map .hash id
  | .getBestBlock => (CacheLayer.getBestBlock db layers).map .hash id

def onTop (s : ViewStack) (f : CacheLayer → List CacheLayer → Result (CacheAnswer × ViewStack)) :
    Result (CacheAnswer × ViewStack) :=
  match s.layers with
  | [] => .error (.nullDeref "no cache")
  | layer :: base => f layer base

def spendCoin (s : ViewStack) (outpoint : COutPoint) : Result (CacheAnswer × ViewStack) :=
  onTop { s with layers := (CacheLayer.getCoin s.db outpoint s.layers).2 } fun layer base =>
    let (coin, layer) := layer.spendFetched outpoint
    .ok (.moved coin, ⟨layer :: base, s.db⟩)

def pushAnchor (s : ViewStack) (tree : SaplingMerkleTree) : Result (CacheAnswer × ViewStack) :=
  let (currentRoot, layers) := CacheLayer.getBestAnchor root s.db s.layers
  onTop ⟨layers, s.db⟩ fun layer base =>
    if currentRoot = root tree then .ok (.done, ⟨layer :: base, s.db⟩)
    else .ok (.done, ⟨layer.enterAnchor root tree :: base, s.db⟩)

/-- `PopAnchor` with `BringBestAnchorIntoCache`. -/
def popAnchor (s : ViewStack) (newrt : uint256) : Result (CacheAnswer × ViewStack) := do
  let (currentRoot, layers) := CacheLayer.getBestAnchor root s.db s.layers
  if currentRoot = newrt then return (.done, ⟨layers, s.db⟩)
  else
    let (tree, layers) := CacheLayer.getSaplingAnchorAt root s.db currentRoot layers
    require (.assertFailure "BringBestAnchorIntoCache: GetSaplingAnchorAt(currentRoot, tree)") (tree.isSome = true)
    onTop ⟨layers, s.db⟩ fun layer base => .ok (.done, ⟨layer.removeAnchor currentRoot newrt :: base, s.db⟩)

def flush (F : FlushEnv) (s : ViewStack) : Result (CacheAnswer × ViewStack) :=
  s.onTop fun layer base =>
    match base with
    | [] => do
      let db ← s.db.batchWrite F root layer
      return (.flag true, ⟨[layer.cleared], db⟩)
    | own :: base => do
      let own ← own.batchWrite F layer
      return (.flag true, ⟨layer.cleared :: own :: base, s.db⟩)

def step (s : ViewStack) : CacheOp → Result (CacheAnswer × ViewStack)
  | .read level r =>
    let (answer, layers) := readFrom root s.db (s.layers.drop level) r
    .ok (answer, ⟨s.layers.take level ++ layers, s.db⟩)
  | .addCoin outpoint coin possible_overwrite => s.onTop fun layer base => do
    let layer ← layer.addCoin outpoint coin.1 possible_overwrite
    return (.done, ⟨layer :: base, s.db⟩)
  | .spendCoin outpoint => s.spendCoin outpoint
  | .uncache outpoint => s.onTop fun layer base => .ok (.done, ⟨layer.uncache outpoint :: base, s.db⟩)
  | .setNullifiers tx spent => s.onTop fun layer base => .ok (.done, ⟨layer.setNullifiers tx spent :: base, s.db⟩)
  | .pushAnchor tree => s.pushAnchor root tree
  | .popAnchor newrt => s.popAnchor root newrt
  | .setBestBlock hash => s.onTop fun layer base => .ok (.done, ⟨{ layer with hashBlock := hash } :: base, s.db⟩)
  | .flush F => s.flush root F
  | .openCache => .ok (.done, ⟨{} :: s.layers, s.db⟩)
  | .dropCache => s.onTop fun _ base => .ok (.done, ⟨base, s.db⟩)

def run (s : ViewStack) : List CacheOp → Result (List CacheAnswer × ViewStack)
  | [] => .ok ([], s)
  | op :: ops => do
    let (answer, s) ← s.step root op
    let (answers, s) ← run s ops
    return (answer :: answers, s)

end ViewStack

/-! ## What the caches are for -/

structure PlainView where
  coins : COutPoint → Option Coin
  nullifiers : uint256 → Bool
  /-- the trees that were pushed, the newest first -/
  anchors : List SaplingMerkleTree
  bestBlock : uint256

namespace PlainView

variable (root : SaplingMerkleTree → uint256) (view : PlainView)

/-- The tree of a root; the empty tree is always there. -/
def anchorAt (rt : uint256) : Option SaplingMerkleTree :=
  if rt = root [] then some [] else view.anchors.find? fun tree => root tree = rt

def bestAnchor : uint256 := root (view.anchors.headD [])

/-- The root that was the best one before the last push. -/
def previousAnchor : uint256 := root (view.anchors.tail.headD [])

/-- Outputs that can never be spent are not kept. -/
def addCoin (outpoint : COutPoint) (coin : Coin) : PlainView :=
  if CScript.isUnspendable coin.out.scriptPubKey || CScript.isZerocoinMint coin.out.scriptPubKey then view
  else { view with coins := Function.update view.coins outpoint (some coin) }

def spendCoin (outpoint : COutPoint) : PlainView := { view with coins := Function.update view.coins outpoint none }

def setNullifiers (tx : CTransaction) (spent : Bool) : PlainView :=
  match tx.sapData with
  | none => view
  | some d => { view with
      nullifiers := d.vShieldedSpend.foldl (fun f spend => Function.update f spend.nullifier spent) view.nullifiers }

def pushAnchor (tree : SaplingMerkleTree) : PlainView :=
  if view.bestAnchor root = root tree then view else { view with anchors := tree :: view.anchors }

def popAnchor (newrt : uint256) : PlainView :=
  if view.bestAnchor root = newrt then view else { view with anchors := view.anchors.tail }

def answer : CacheRead → CacheAnswer
  | .getCoin outpoint => .coin (view.coins outpoint)
  | .haveCoin outpoint => .flag (view.coins outpoint).isSome
  | .getNullifier nullifier => .flag (view.nullifiers nullifier)
  | .getSaplingAnchorAt rt => .tree (view.anchorAt root rt)
  | .getBestAnchor => .hash (view.bestAnchor root)
  | .getBestBlock => .hash view.bestBlock

/-- A call on plain views: only the topmost changes, except that a flush makes the one below equal to it. -/
def step (views : List PlainView) : CacheOp → CacheAnswer × List PlainView
  | .read level r => (((views[level]?).map fun view => view.answer root r).getD .done, views)
  | .addCoin outpoint coin _ => (.done, views.modifyHead fun view => view.addCoin outpoint coin.1)
  | .spendCoin outpoint =>
    (.moved ((views.head?.bind fun view => view.coins outpoint).getD coinEmpty),
      views.modifyHead fun view => view.spendCoin outpoint)
  | .uncache _ => (.done, views)
  | .setNullifiers tx spent => (.done, views.modifyHead fun view => view.setNullifiers tx spent)
  | .pushAnchor tree => (.done, views.modifyHead fun view => view.pushAnchor root tree)
  | .popAnchor newrt => (.done, views.modifyHead fun view => view.popAnchor root newrt)
  | .setBestBlock hash => (.done, views.modifyHead fun view => { view with bestBlock := hash })
  | .flush _ => (.flag true, views.take 1 ++ views.take 1 ++ views.drop 2)
  | .openCache => (.done, views.take 1 ++ views)
  | .dropCache => (.done, views.tail)

def run (views : List PlainView) : List CacheOp → List CacheAnswer × List PlainView
  | [] => ([], views)
  | op :: ops =>
    let (answer, views) := step root views op
    let (answers, views) := run views ops
    (answer :: answers, views)

end PlainView

end TrumpCoin
