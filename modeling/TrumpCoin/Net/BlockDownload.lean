import TrumpCoin.Chainstate.BlockIndex
import TrumpCoin.Net.Banning

/-!
# Requests for blocks and their delivery

`net_processing.cpp`: which blocks a peer is asked for (`FindNextBlocksToDownload`), the record of the requests
(`MarkBlockAsInFlight`, `MarkBlockAsReceived`, `FinalizeNode`) and the handler of `BLOCK` messages. Both branches of
`ProcessMessage` for `HEADERS` ask for `HeadersFirstSyncingActive()`, which is constantly false (`chainparams.h`), so
that a header without its block comes into the index only through `AcceptBlock`.
-/

namespace TrumpCoin

open Lib

/-! ## The state of the node -/

structure QueuedBlock where
  hash : uint256
  pindex : Option uint256
  nTime : Int
  nValidatedQueuedBefore : Int
  fValidatedHeaders : Bool
deriving DecidableEq

/-- `CNodeState`, as far as banning, block download and its timeouts read it. -/
structure CNodeState extends PeerScore where
  pindexBestKnownBlock : Option uint256 := none
  hashLastUnknownBlock : uint256 := 0
  pindexLastCommonBlock : Option uint256 := none
  nStallingSince : Int := 0
  vBlocksInFlight : List QueuedBlock := []
  nBlocksInFlight : Int := 0
deriving DecidableEq

/-- `CNode`, as far as banning and the handler of `BLOCK` read it. -/
structure CNode extends PeerNode where
  nVersion : Int := 0
  vBlockRequested : List uint256 := []
deriving DecidableEq

/-- The globals of `net_processing.cpp` and `validation.cpp`. The list iterator of an entry of `mapBlocksInFlight` is
determined by the node and the hash. -/
structure NodeGlobals where
  chain : BlockIndexState := {}
  mapNodeState : FinMap Nat CNodeState := ∅
  vNodes : FinMap Nat CNode := ∅
  mapBlocksInFlight : FinMap uint256 Nat := ∅
  nQueuedValidatedHeaders : Int := 0
  mapBlockSource : FinMap uint256 Nat := ∅
  fImporting : Bool := false
  fReindex : Bool := false

def MAX_BLOCKS_IN_TRANSIT_PER_PEER : Int := 16

def BLOCK_DOWNLOAD_WINDOW : Nat := 1024

namespace NodeGlobals

variable (g : NodeGlobals) (nodeid : Nat)

def setState (state : CNodeState) : NodeGlobals :=
  { g with mapNodeState := g.mapNodeState.insert nodeid state }

/-- `State(nodeid)` with the `assert` that follows it, or the reference made of it. -/
def state (fault : Fault) : Result CNodeState :=
  match g.mapNodeState[nodeid]? with
  | some state => .ok state
  | none => .error fault

/-! ## Blocks in flight -/

def markBlockAsReceived (g : NodeGlobals) (hash : uint256) : Result NodeGlobals :=
  match g.mapBlocksInFlight[hash]? with
  | none => .ok g
  | some nodeid => do
    let state ← g.state nodeid (.assertFailure "MarkBlockAsReceived: state != nullptr")
    let validated := (state.vBlocksInFlight.find? (·.hash = hash)).any (·.fValidatedHeaders)
    let state' := { state with
      vBlocksInFlight := state.vBlocksInFlight.eraseP (·.hash = hash)
      nBlocksInFlight := state.nBlocksInFlight - 1
      nStallingSince := 0 }
    return { g.setState nodeid state' with
      nQueuedValidatedHeaders := g.nQueuedValidatedHeaders - (if validated then 1 else 0)
      mapBlocksInFlight := g.mapBlocksInFlight.erase hash }

def markBlockAsInFlight (hash : uint256) (pindex : Option uint256) (nTime : Int) : Result NodeGlobals := do
  let _ ← g.state nodeid (.assertFailure "MarkBlockAsInFlight: state != nullptr")
  let g ← g.markBlockAsReceived hash
  let state ← g.state nodeid (.assertFailure "MarkBlockAsInFlight: state != nullptr")
  let newentry : QueuedBlock :=
    { hash, pindex, nTime, nValidatedQueuedBefore := g.nQueuedValidatedHeaders, fValidatedHeaders := pindex.isSome }
  let state' := { state with
    vBlocksInFlight := state.vBlocksInFlight ++ [newentry]
    nBlocksInFlight := state.nBlocksInFlight + 1 }
  return { g.setState nodeid state' with
    nQueuedValidatedHeaders := g.nQueuedValidatedHeaders + (if pindex.isSome then 1 else 0)
    mapBlocksInFlight := g.mapBlocksInFlight.insert hash nodeid }

def initializeNode (node : CNode) : NodeGlobals :=
  { g with mapNodeState := g.mapNodeState.emplace nodeid {}, vNodes := g.vNodes.emplace nodeid node }

def finalizeNode : Result NodeGlobals := do
  let state ← g.state nodeid (.nullDeref "FinalizeNode: state")
  return { g with
    mapBlocksInFlight := state.vBlocksInFlight.foldl (fun m entry => m.erase entry.hash) g.mapBlocksInFlight
    mapNodeState := g.mapNodeState.erase nodeid
    vNodes := g.vNodes.erase nodeid }

/-! ## What a peer has -/

/-- The better of two announced blocks: `pindexBestKnownBlock` after `hash` was found in the index. -/
def betterKnown (g : NodeGlobals) (best : Option uint256) (hash : uint256) : Option uint256 :=
  match best with
  | none => some hash
  | some b => if (g.chain.entry b).nChainWork ≤ (g.chain.entry hash).nChainWork then some hash else some b

def processBlockAvailability : Result NodeGlobals := do
  let state ← g.state nodeid (.assertFailure "ProcessBlockAvailability: state != nullptr")
  if state.hashLastUnknownBlock ≠ 0 ∧ g.chain.contains state.hashLastUnknownBlock ∧
      0 < (g.chain.entry state.hashLastUnknownBlock).nChainWork then
    return g.setState nodeid { state with
      pindexBestKnownBlock := g.betterKnown state.pindexBestKnownBlock state.hashLastUnknownBlock
      hashLastUnknownBlock := 0 }
  else return g

def updateBlockAvailability (hash : uint256) : Result NodeGlobals := do
  let g ← g.processBlockAvailability nodeid
  let state ← g.state nodeid (.assertFailure "UpdateBlockAvailability: state != nullptr")
  if g.chain.contains hash ∧ 0 < (g.chain.entry hash).nChainWork then
    return g.setState nodeid { state with pindexBestKnownBlock := g.betterKnown state.pindexBestKnownBlock hash }
  else return g.setState nodeid { state with hashLastUnknownBlock := hash }

end NodeGlobals

namespace BlockIndexState

def deref (site : String) : Option uint256 → Result uint256
  | some hash => .ok hash
  | none => .error (.nullDeref site)

/-- The loop of `LastCommonAncestor`, at equal heights. -/
def commonLoop (s : BlockIndexState) : Nat → Option uint256 → Option uint256 → Option uint256 × Option uint256
  | 0, pa, pb => (pa, pb)
  | fuel + 1, pa, pb =>
    match pa, pb with
    | some a, some b => if a = b then (pa, pb) else s.commonLoop fuel (s.entry a).pprev (s.entry b).pprev
    | _, _ => (pa, pb)

def lastCommonAncestor (s : BlockIndexState) (pa pb : uint256) : Result uint256 := do
  let ha := (s.entry pa).nHeight
  let hb := (s.entry pb).nHeight
  let a := if ha > hb then s.getAncestor pa hb else some pa
  let b := if hb > ha then s.getAncestor pb ha else some pb
  let r := s.commonLoop (min ha hb + 1) a b
  require (.assertFailure "LastCommonAncestor: pa == pb") (r.1 = r.2)
  deref "LastCommonAncestor" r.1

/-- `n` successive blocks, the last of which is `hash`. -/
def pathTo (s : BlockIndexState) : Nat → uint256 → Result (List uint256)
  | 0, _ => .ok []
  | 1, hash => .ok [hash]
  | n + 2, hash => do
    let pprev ← deref "FindNextBlocksToDownload: vToFetch[i]->pprev" (s.entry hash).pprev
    return (← s.pathTo (n + 1) pprev) ++ [hash]

end BlockIndexState

/-- What `FindNextBlocksToDownload` has found so far; `finished` once it returns. -/
structure FetchState where
  vBlocks : List uint256 := []
  pindexLastCommonBlock : uint256
  waitingfor : Option Nat := none
  nodeStaller : Option Nat := none
  finished : Bool := false

namespace NodeGlobals

variable (g : NodeGlobals) (nodeid : Nat)

/-- One block of `vToFetch`. -/
def fetchBlock (count nWindowEnd : Nat) (f : FetchState) (hash : uint256) : FetchState :=
  let e := g.chain.entry hash
  if f.finished then f
  else if !e.isValid BLOCK_VALID_TREE then { f with finished := true }
  else if e.nStatus.haveData then
    if e.nChainTx ≠ 0 then { f with pindexLastCommonBlock := hash } else f
  else
    match g.mapBlocksInFlight[hash]? with
    | none =>
      if e.nHeight > nWindowEnd then
        let stalled := f.vBlocks.isEmpty && decide (f.waitingfor ≠ some nodeid)
        { f with nodeStaller := if stalled then f.waitingfor else f.nodeStaller, finished := true }
      else
        let vBlocks := f.vBlocks ++ [hash]
        { f with vBlocks, finished := vBlocks.length = count }
    | some owner => { f with waitingfor := if f.waitingfor = none then some owner else f.waitingfor }

/-- The loop over runs of successors of `pindexWalk` towards the peer's best block. -/
def fetchLoop (count nWindowEnd nMaxHeight : Nat) (best : uint256) : Nat → uint256 → FetchState → Result FetchState
  | 0, _, f => .ok f
  | fuel + 1, pindexWalk, f =>
    let nHeight := (g.chain.entry pindexWalk).nHeight
    if nHeight < nMaxHeight then do
      let nToFetch := min (nMaxHeight - nHeight) (max (count - f.vBlocks.length) 128)
      let ancestor := g.chain.getAncestor best (nHeight + nToFetch)
      let last ← BlockIndexState.deref "FindNextBlocksToDownload: pindexWalk" ancestor
      let vToFetch ← g.chain.pathTo nToFetch last
      let f := vToFetch.foldl (g.fetchBlock nodeid count nWindowEnd) f
      if f.finished then return f else fetchLoop count nWindowEnd nMaxHeight best fuel last f
    else .ok f

/-- Where the walk starts from: the last block in common so far, or a guess on the active chain. -/
def commonGuess (g : NodeGlobals) (state : CNodeState) (best : uint256) : Result uint256 :=
  match state.pindexLastCommonBlock with
  | some common => .ok common
  | none =>
    let height := min (g.chain.entry best).nHeight (g.chain.vChain.length - 1)
    BlockIndexState.deref "LastCommonAncestor: pa" g.chain.vChain[height]?

/-- `FindNextBlocksToDownload`, from the comparison with the tip on. -/
def fetchFrom (count : Nat) (state : CNodeState) (best : uint256) : Result FetchState := do
  let guess ← g.commonGuess state best
  let common ← g.chain.lastCommonAncestor guess best
  let f : FetchState := { pindexLastCommonBlock := common }
  if common = best then return f
  else
    let nWindowEnd := (g.chain.entry common).nHeight + BLOCK_DOWNLOAD_WINDOW
    let nMaxHeight := min (g.chain.entry best).nHeight (nWindowEnd + 1)
    g.fetchLoop nodeid count nWindowEnd nMaxHeight best (nMaxHeight - (g.chain.entry common).nHeight) common f

/-- `FindNextBlocksToDownload`: the blocks to ask for, and the peer that holds up the download. -/
def findNextBlocksToDownload (count : Nat) : Result (NodeGlobals × List uint256 × Option Nat) :=
  if count = 0 then .ok (g, [], none)
  else do
    let g ← g.processBlockAvailability nodeid
    let state ← g.state nodeid (.assertFailure "FindNextBlocksToDownload: state != nullptr")
    match state.pindexBestKnownBlock with
    | none => return (g, [], none)
    | some best =>
      let tip ← BlockIndexState.deref "FindNextBlocksToDownload: chainActive.Tip()" g.chain.tip
      if (g.chain.entry best).nChainWork < (g.chain.entry tip).nChainWork then return (g, [], none)
      else
        let f ← g.fetchFrom nodeid count state best
        return (g.setState nodeid { state with pindexLastCommonBlock := some f.pindexLastCommonBlock }, f.vBlocks,
          f.nodeStaller)

/-- The part of `SendMessages` that asks for blocks; `fFetch` is whether the peer is one to download from. -/
def sendBlockRequests (fFetch : Bool) (nNow : Int) : Result (NodeGlobals × List uint256) := do
  let state ← g.state nodeid (.nullDeref "SendMessages: State(pto->GetId())")
  if fFetch ∧ state.nBlocksInFlight < MAX_BLOCKS_IN_TRANSIT_PER_PEER then
    let r ← g.findNextBlocksToDownload nodeid (MAX_BLOCKS_IN_TRANSIT_PER_PEER - state.nBlocksInFlight).toNat
    let g ← r.2.1.foldlM (fun g hash => g.markBlockAsInFlight nodeid hash (some hash) nNow) r.1
    let state ← g.state nodeid (.nullDeref "SendMessages: State(pto->GetId())")
    match r.2.2 with
    | none => return (g, r.2.1)
    | some staller =>
      if state.nBlocksInFlight ≠ 0 then return (g, r.2.1)
      else
        let s ← g.state staller (.nullDeref "SendMessages: State(staller)")
        return (if s.nStallingSince = 0 then g.setState staller { s with nStallingSince := nNow } else g, r.2.1)
  else return (g, [])

/-! ## Delivery -/

def misbehaving (howmuch : Int) : NodeGlobals :=
  match g.mapNodeState[nodeid]? with
  | none => g
  | some state => g.setState nodeid { state with toPeerScore := state.raise howmuch }

/-- What banning sees of the globals. -/
def peerTable : PeerTable :=
  { mapNodeState := g.mapNodeState.map fun _ state => state.toPeerScore
    vNodes := g.vNodes.map fun _ node => node.toPeerNode }

/-- The calls of `Misbehaving` by the handler of `BLOCK` are those of the model of banning. -/
theorem peerTable_misbehaving (banscore howmuch : Int) :
    (g.misbehaving nodeid howmuch).peerTable = (g.peerTable.misbehaving banscore nodeid howmuch).1 := by
  have hget : g.peerTable.mapNodeState[nodeid]? = (g.mapNodeState[nodeid]?).map (·.toPeerScore) :=
    Std.ExtTreeMap.getElem?_map
  unfold misbehaving
  cases hstate : g.mapNodeState[nodeid]? with
  | none =>
    rw [hstate] at hget
    simp [PeerTable.misbehaving, hget]
  | some state =>
    rw [hstate] at hget
    rw [PeerTable.misbehaving_eq hget]
    simp only [peerTable, PeerTable.setState, setState, PeerTable.mk.injEq, and_true]
    exact FinMap.map_insert _ _ _ _

end NodeGlobals

/-- A `BLOCK` message, with what the checks will say about its block. -/
structure BlockMessage where
  pfrom : Nat
  block : BlockData
  checks : BlockChecks := {}
  /-- `-dropmessagestest` hits the message -/
  dropped : Bool := false

/-- What a message makes the node do besides changing its globals. -/
structure BlockReply where
  /-- the block that is handed to `ProcessNewBlock` -/
  processed : Option BlockData := none
  /-- the last hash of a `GETBLOCKS` request -/
  getBlocks : Option uint256 := none
deriving DecidableEq

namespace NodeGlobals

/-- The handler of `BLOCK`, for a block whose parent is not in the index. -/
def askForAncestors (g : NodeGlobals) (pfrom : Nat) (node : CNode) (block : BlockData) : NodeGlobals × BlockReply :=
  let wanted := if node.vBlockRequested.contains block.hash then block.hashPrevBlock else block.hash
  let node := { node with vBlockRequested := node.vBlockRequested ++ [wanted] }
  ({ g with vNodes := g.vNodes.insert pfrom node }, { getBlocks := some wanted })

/-- `ProcessMessage` of a `BLOCK` message from a connected peer. -/
def processMessageBlock (v : Validation) (activeProtocol : Int) (g : NodeGlobals) (m : BlockMessage) :
    Result (NodeGlobals × BlockReply) :=
  let node := (g.vNodes[m.pfrom]?).getD {}
  if m.dropped then .ok (g, {})
  else if node.nVersion = 0 then .ok (g.misbehaving m.pfrom 1, {})
  -- no other branch of the handler takes the message while blocks are imported
  else if g.fImporting || g.fReindex then .ok (g, {})
  else if !g.chain.contains m.block.hashPrevBlock then .ok (g.askForAncestors m.pfrom node m.block)
  else if !g.chain.contains m.block.hash then do
    let g ← g.markBlockAsReceived m.block.hash
    let g := { g with
      mapBlockSource := g.mapBlockSource.emplace m.block.hash m.pfrom
      chain := v.processNewBlock m.checks m.block g.chain }
    -- `DisconnectOldProtocol`
    let node := { node with fDisconnect := decide (node.nVersion < activeProtocol) }
    return ({ g with vNodes := g.vNodes.insert m.pfrom node }, { processed := some m.block })
  else .ok (g, {})

end NodeGlobals

end TrumpCoin
