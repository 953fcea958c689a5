import TrumpCoin.Payments.SignedMessage

/-!
# The manager of the legacy patriotnodes

`CPatriotnodePing`, `CPatriotnodeBroadcast` and `CPatriotnode` of `patriotnode.cpp`, and the handling of their messages
by `CPatriotnodeMan` of `patriotnodeman.cpp`. A broadcast announces the node of a collateral, a ping keeps it enabled.

The chain, the coins, the clock and the deterministic list are the environment of a message. Relaying, requests to
peers, the bookkeeping of the sync and the remote activation of an own node are left out.
-/

namespace TrumpCoin

open Lib

def PNPING_DEPTH : Int := 12
def CACHED_BLOCK_HASHES : Int := 200

/-- An address and port: in the first format, or of a network that only the second format can express. -/
inductive NodeAddr where
  | v1 (service : CService)
  | v2 (net : UInt8) (addr : Bytes) (port : BitVec 16)
deriving DecidableEq

namespace NodeAddr

def isAddrV1Compatible : NodeAddr → Bool
  | v1 _ => true
  | v2 .. => false

def getPort : NodeAddr → BitVec 16
  | v1 service => service.port
  | v2 _ _ port => port

def serialize : NodeAddr → Bytes
  | v1 service => CService.codec.write service
  | v2 net addr port => net :: byteVector.write addr ++ (blob 2).write port

end NodeAddr

def writeInt64 (x : Int64) : Bytes := (uintLE 8).write x.toBitVec

/-- What the signed messages of patriotnodes are computed with. -/
structure NodeCrypto extends MessageCrypto where
  getID : Bytes → CKeyID
  /-- `CService::ToString` -/
  addrToString : NodeAddr → String
  /-- `CTxIn::ToString` -/
  vinToString : CTxIn → String

def getScriptForKey (keyID : CKeyID) : CScript :=
  [OP_DUP, OP_HASH160, 0x14] ++ (blob 20).write keyID ++ [OP_EQUALVERIFY, OP_CHECKSIG]

/-! ## Messages -/

structure CPatriotnodePing extends CSignedMessage where
  vin : CTxIn := {}
  blockHash : uint256 := 0
  sigTime : Int64 := 0
deriving DecidableEq

namespace CPatriotnodePing

variable (k : NodeCrypto) (ping : CPatriotnodePing)

def isNull : Bool := ping.blockHash == 0 || ping.vin.prevout.isNull

def getHash : uint256 :=
  k.hashWriter (ping.vin.serialize ++
    (if ping.nMessVersion = MESS_VER_HASH then (blob 32).write ping.blockHash else []) ++ writeInt64 ping.sigTime)

def getStrMessage : String := k.vinToString ping.vin ++ ping.blockHash.toHex ++ toString ping.sigTime

def checkSignature (keyID : CKeyID) : Bool :=
  ping.toCSignedMessage.checkSignature k.toMessageCrypto (ping.getHash k) (ping.getStrMessage k) keyID

end CPatriotnodePing

/-- `CPatriotnodeBroadcast`, the part of a patriotnode that is sent. -/
structure CPatriotnodeBroadcast extends CSignedMessage where
  vin : CTxIn := {}
  addr : NodeAddr
  pubKeyCollateralAddress : Bytes
  pubKeyPatriotnode : Bytes
  sigTime : Int64
  protocolVersion : Int
  lastPing : CPatriotnodePing := {}
deriving DecidableEq

namespace CPatriotnodeBroadcast

variable (k : NodeCrypto) (mnb : CPatriotnodeBroadcast)

/-- `GetHash`: the time and the key of the collateral only. -/
def getHash : uint256 := k.hashWriter (writeInt64 mnb.sigTime ++ byteVector.write mnb.pubKeyCollateralAddress)

def getSignatureHash : uint256 :=
  k.hashWriter (int32LE.write mnb.nMessVersion ++ mnb.addr.serialize ++ writeInt64 mnb.sigTime ++
    byteVector.write mnb.pubKeyCollateralAddress ++ byteVector.write mnb.pubKeyPatriotnode ++
    int32LE.write mnb.protocolVersion)

def getStrMessage : String :=
  k.addrToString mnb.addr ++ toString mnb.sigTime ++ (k.getID mnb.pubKeyCollateralAddress).toHex ++
    (k.getID mnb.pubKeyPatriotnode).toHex ++ toString mnb.protocolVersion

/-- The signature verifies under the key of the collateral. `CheckSignature` of the source prepares the message in
this way but verifies nothing, and it is not called. -/
def signedByCollateral : Bool :=
  let strMessage := if mnb.nMessVersion = MESS_VER_HASH then (mnb.getSignatureHash k).toHex else mnb.getStrMessage k
  k.verifyHash (k.getMessageHash strMessage) (k.getID mnb.pubKeyCollateralAddress) mnb.vchSig

end CPatriotnodeBroadcast

structure CPatriotnode extends CPatriotnodeBroadcast where
  fCollateralSpent : Bool := false
deriving DecidableEq

inductive CPatriotnode.State where
  | PATRIOTNODE_PRE_ENABLED | PATRIOTNODE_ENABLED | PATRIOTNODE_EXPIRED | PATRIOTNODE_REMOVE | PATRIOTNODE_VIN_SPENT
deriving DecidableEq

/-- What the handling of a message reads besides the manager. -/
structure ManEnv where
  fLiteMode : Bool := false
  isBlockchainSynced : Bool := true
  legacyPNObsolete : Bool := false
  /-- `GetAdjustedTime()` -/
  adjustedTime : Int64 := 0
  /-- `GetBestHeight()` -/
  bestHeight : Int := 0
  activeProtocol : Int := 0
  getHashAtHeight : Int → uint256 := fun _ => 0
  getTransaction : uint256 → Option CTransaction := fun _ => none
  /-- `pcoinsTip->AccessCoin`; none if spent -/
  accessCoin : COutPoint → Option Coin := fun _ => none
  /-- the time of the block of the active chain at a height -/
  blockTime : Int → Int64 := fun _ => 0
  hasPNByCollateral : COutPoint → Bool := fun _ => false

section Times

variable (p : CChainParams)

def patriotnodeMinPingSeconds : Int64 := if p.isRegTestNet then 90 else 10 * 60
def patriotnodeBroadcastSeconds : Int64 := if p.isRegTestNet then 25 else 5 * 60
def patriotnodeExpirationSeconds : Int64 := if p.isRegTestNet then 12 * 60 else 120 * 60
def patriotnodeRemovalSeconds : Int64 := if p.isRegTestNet then 13 * 60 else 130 * 60

end Times

namespace ManEnv

variable (p : CChainParams) (e : ManEnv)

def listening : Bool := !e.fLiteMode && e.isBlockchainSynced && !e.legacyPNObsolete

def getMaxTimeWindow (chainHeight : Int) : Int64 :=
  e.adjustedTime + if p.networkUpgradeActive chainHeight .UPGRADE_V5_3 then 60 * 2 else 60 * 60

def isWithinDepth (nHash : uint256) (depth : Int) : Bool :=
  if nHash = 0 then false
  else if depth < 0 ∨ CACHED_BLOCK_HASHES ≤ depth then false
  else
    let nStopHeight := max 0 (e.bestHeight - depth)
    (List.range (e.bestHeight - nStopHeight + 1).toNat).any fun i => e.getHashAtHeight (e.bestHeight - i) == nHash

end ManEnv

namespace CPatriotnode

variable (p : CChainParams) (e : ManEnv) (mn : CPatriotnode)

/-- `IsPingedWithin`; the time -1 stands for the present. -/
def isPingedWithin (seconds now : Int64) : Bool :=
  let now := if now = -1 then e.adjustedTime else now
  if mn.lastPing.isNull then false else decide (now - mn.lastPing.sigTime < seconds)

def isBroadcastedWithin (seconds : Int64) : Bool := e.adjustedTime - mn.sigTime < seconds

def getActiveState : State :=
  if mn.fCollateralSpent then .PATRIOTNODE_VIN_SPENT
  else if !mn.isPingedWithin e (patriotnodeRemovalSeconds p) (-1) then .PATRIOTNODE_REMOVE
  else if !mn.isPingedWithin e (patriotnodeExpirationSeconds p) (-1) then .PATRIOTNODE_EXPIRED
  else if mn.lastPing.sigTime - mn.sigTime < patriotnodeMinPingSeconds p then .PATRIOTNODE_PRE_ENABLED
  else .PATRIOTNODE_ENABLED

def isEnabled : Bool := mn.getActiveState p e = .PATRIOTNODE_ENABLED

def isAvailableState : Bool :=
  mn.getActiveState p e = .PATRIOTNODE_ENABLED ∨ mn.getActiveState p e = .PATRIOTNODE_PRE_ENABLED

end CPatriotnode

/-- `CalculateScore` of the node with the collateral `prevout`. -/
def calculateScore (k : NodeCrypto) (prevout : COutPoint) (hash : uint256) : Nat :=
  let hash2 := (k.hashWriter ((blob 32).write hash)).toArith
  let aux := (prevout.hash.toArith + prevout.n.toNat) % 2 ^ 256
  let hash3 := (k.hashWriter ((blob 32).write hash ++ Codec.leBytes 32 aux)).toArith
  if hash2 < hash3 then hash3 - hash2 else hash2 - hash3

/-- `IsInputAssociatedWithPubkey`: some output of the transaction has the amount and pays the key. -/
def CPatriotnodeBroadcast.isInputAssociatedWithPubkey (k : NodeCrypto) (p : CChainParams) (e : ManEnv)
    (mnb : CPatriotnodeBroadcast) : Bool :=
  match e.getTransaction mnb.vin.prevout.hash with
  | none => false
  | some txVin => txVin.vout.any fun out => out.nValue = p.nPNCollateralAmt ∧
      out.scriptPubKey = getScriptForKey (k.getID mnb.pubKeyCollateralAddress)

/-! ## The manager -/

structure CPatriotnodeMan where
  mapPatriotnodes : FinMap COutPoint CPatriotnode := ∅
  mapSeenPatriotnodeBroadcast : FinMap uint256 CPatriotnodeBroadcast := ∅
  mapSeenPatriotnodePing : FinMap uint256 CPatriotnodePing := ∅

inductive BroadcastOutcome where
  | seen | addrV2 | mismatched
  /-- the broadcast was turned down with a ban score -/
  | refused (nDoS : Int)
  /-- the node is there and enabled -/
  | known
  /-- `CheckInputsAndAdd` passed but `Add` did not take the node -/
  | notAdded
  | added
deriving DecidableEq

/-- The ban score that `ProcessPNBroadcast` returns. -/
def BroadcastOutcome.score : BroadcastOutcome → Int
  | addrV2 => 33
  | mismatched => 33
  | refused nDoS => nDoS
  | _ => 0

namespace CPatriotnodeMan

variable (k : NodeCrypto) (p : CChainParams) (e : ManEnv) (s : CPatriotnodeMan)

def countEnabled : Nat :=
  s.mapPatriotnodes.vals.countP fun mn => !(decide (mn.protocolVersion < e.activeProtocol) || !mn.isEnabled p e)

/-- The nodes that `CheckAndRemove` drops. -/
def removes (mn : CPatriotnode) : Bool :=
  mn.getActiveState p e = .PATRIOTNODE_REMOVE ∨ mn.getActiveState p e = .PATRIOTNODE_VIN_SPENT ∨
    mn.protocolVersion < e.activeProtocol ∨
    (p.networkUpgradeActive e.bestHeight .UPGRADE_V5_3 = true ∧ mn.nMessVersion ≠ MESS_VER_HASH)

def checkAndRemove (now : Int64) : CPatriotnodeMan :=
  if e.legacyPNObsolete then {}
  else
    { mapPatriotnodes := s.mapPatriotnodes.filter fun _ mn => !removes p e mn
      mapSeenPatriotnodeBroadcast := s.mapSeenPatriotnodeBroadcast.filter fun _ mnb =>
        !(s.mapPatriotnodes.vals.any fun mn => removes p e mn && mn.vin == mnb.vin) &&
          !decide (mnb.lastPing.sigTime < now - patriotnodeRemovalSeconds p * 2)
      mapSeenPatriotnodePing := s.mapSeenPatriotnodePing.filter fun _ ping =>
        !decide (ping.sigTime < now - patriotnodeRemovalSeconds p * 2) }

variable (collateralOut : COutPoint)

def find : Option CPatriotnode := s.mapPatriotnodes[collateralOut]?

def remove : CPatriotnodeMan :=
  { s with mapPatriotnodes := s.mapPatriotnodes.erase collateralOut }

def setNode (mn : CPatriotnode) : CPatriotnodeMan :=
  { s with mapPatriotnodes := s.mapPatriotnodes.insert collateralOut mn }

def seen (mnb : CPatriotnodeBroadcast) : Bool := (s.mapSeenPatriotnodeBroadcast[mnb.getHash k]?).isSome

/-- A ping takes effect: it is recorded for the node, as seen, and in the broadcast of the node if that was seen. -/
def recordPing (pmn : CPatriotnode) (ping : CPatriotnodePing) : CPatriotnodeMan where
  mapPatriotnodes := s.mapPatriotnodes.insert ping.vin.prevout { pmn with lastPing := ping }
  mapSeenPatriotnodePing := s.mapSeenPatriotnodePing.emplace (ping.getHash k) ping
  mapSeenPatriotnodeBroadcast :=
    match s.mapSeenPatriotnodeBroadcast[pmn.toCPatriotnodeBroadcast.getHash k]? with
    | none => s.mapSeenPatriotnodeBroadcast
    | some mnb =>
      s.mapSeenPatriotnodeBroadcast.insert (pmn.toCPatriotnodeBroadcast.getHash k) { mnb with lastPing := ping }

/-- `CPatriotnodePing::CheckAndUpdate`; returns also `nDos`. -/
def pingCheckAndUpdate (ping : CPatriotnodePing) (nDos nChainHeight : Int) (fRequireAvailable fCheckSigTimeOnly : Bool) :
    Bool × Int × CPatriotnodeMan :=
  if e.getMaxTimeWindow p nChainHeight < ping.sigTime then (false, 30, s)
  else if e.isWithinDepth ping.blockHash (2 * PNPING_DEPTH) = false then (false, 33, s)
  else match s.find ping.vin.prevout with
    | none => (fCheckSigTimeOnly, nDos, s)
    | some pmn =>
      let isSignatureValid := ping.checkSignature k (k.getID pmn.pubKeyPatriotnode)
      if fCheckSigTimeOnly then (if isSignatureValid then (true, nDos, s) else (false, 33, s))
      else if pmn.protocolVersion < e.activeProtocol then (false, nDos, s)
      else if fRequireAvailable && !pmn.isAvailableState p e then (false, 20, s)
      -- too early
      else if pmn.isPingedWithin e (patriotnodeMinPingSeconds p - 60) ping.sigTime then (false, nDos, s)
      else if isSignatureValid = false then (false, 33, s)
      else (({ pmn with lastPing := ping } : CPatriotnode).isEnabled p e, nDos, s.recordPing k pmn ping)

/-- `CPatriotnode::UpdateFromNewBroadcast` of the node of the broadcast's collateral. -/
def updateFromNewBroadcast (pmn : CPatriotnode) (mnb : CPatriotnodeBroadcast) (chainHeight : Int) : CPatriotnodeMan :=
  if pmn.sigTime < mnb.sigTime then
    let o := mnb.vin.prevout
    -- everything but the ping and the flag is taken over
    let s := s.setNode o { pmn with toCPatriotnodeBroadcast := { mnb with vin := pmn.vin, lastPing := pmn.lastPing } }
    let (accepted, _, s) :=
      if mnb.lastPing.isNull then (true, 0, s) else s.pingCheckAndUpdate k p e mnb.lastPing 0 chainHeight false false
    match accepted, s.find o with
    | true, some mn => { s.setNode o { mn with lastPing := mnb.lastPing } with
        mapSeenPatriotnodePing := s.mapSeenPatriotnodePing.emplace (mnb.lastPing.getHash k) mnb.lastPing }
    | _, _ => s
  else s

variable (mnb : CPatriotnodeBroadcast) (nChainHeight : Int)

/-- The checks with which `CPatriotnodeBroadcast::CheckAndUpdate` starts, with the ban score of the first that
fails. -/
def screen : Option Int :=
  if e.getMaxTimeWindow p nChainHeight < mnb.sigTime then some 1
  else if mnb.protocolVersion < e.activeProtocol then some 0
  else if mnb.vin.scriptSig ≠ [] then some 0
  else if p.networkID = .MAIN ∧ mnb.addr.getPort ≠ mainnetDefaultPort then some 0
  else if p.networkID ≠ .MAIN ∧ mnb.addr.getPort = mainnetDefaultPort then some 0
  else if mnb.lastPing.isNull then some 0
  else match s.pingCheckAndUpdate k p e mnb.lastPing 0 nChainHeight false true with
    | (false, nDos, _) => some nDos
    | (true, _, _) => none

/-- An enabled node takes over a newer broadcast with its key, unless its last one is recent. -/
def takesOver (pmn : CPatriotnode) (mnb : CPatriotnodeBroadcast) : Bool :=
  pmn.isEnabled p e && pmn.pubKeyCollateralAddress == mnb.pubKeyCollateralAddress &&
    !pmn.isBroadcastedWithin e (patriotnodeBroadcastSeconds p)

/-- `CPatriotnodeBroadcast::CheckAndUpdate`: the ban score if it fails, or the state after the update of the node that
is already there. -/
def checkAndUpdate : Except Int CPatriotnodeMan :=
  match s.screen k p e mnb nChainHeight with
  | some nDos => .error nDos
  | none =>
    match s.find mnb.vin.prevout with
    | none => .ok s
    | some pmn =>
      if mnb.sigTime ≤ pmn.sigTime then .error 0
      else if takesOver p e pmn mnb then .ok (s.updateFromNewBroadcast k p e pmn mnb nChainHeight)
      else .ok s

def add (mn : CPatriotnode) : Bool × CPatriotnodeMan :=
  if e.legacyPNObsolete then (false, s)
  else if e.hasPNByCollateral mn.vin.prevout then (false, s)
  else if mn.isAvailableState p e = false then (false, s)
  else if (s.find mn.vin.prevout).isSome then (false, s)
  else (true, s.setNode mn.vin.prevout mn)

/-- The end of `CheckInputsAndAdd`: the collateral is unspent, deep enough and older than the broadcast. -/
def addWithInputs : BroadcastOutcome × CPatriotnodeMan :=
  match e.accessCoin mnb.vin.prevout with
  | none => (.refused 0, s)
  | some collateralUtxo =>
    let utxoHeight : Int := collateralUtxo.nHeight
    if nChainHeight - utxoHeight + 1 < p.patriotnodeCollateralMinConf then
      -- the broadcast may be checked again later
      (.refused 0, { s with mapSeenPatriotnodeBroadcast := s.mapSeenPatriotnodeBroadcast.erase (mnb.getHash k) })
    else if mnb.sigTime < e.blockTime (utxoHeight + p.patriotnodeCollateralMinConf - 1) then (.refused 0, s)
    else match s.add p e { toCPatriotnodeBroadcast := mnb } with
      | (true, s) => (.added, s)
      | (false, s) => (.notAdded, s)

def checkInputsAndAdd : BroadcastOutcome × CPatriotnodeMan :=
  if mnb.lastPing.isNull then (.refused 0, s)
  else match s.pingCheckAndUpdate k p e mnb.lastPing 0 nChainHeight false true with
    | (false, nDoS, _) => (.refused nDoS, s)
    | (true, _, _) =>
      match s.find mnb.vin.prevout with
      | none => s.addWithInputs k p e mnb nChainHeight
      | some pmn =>
        if pmn.isEnabled p e then (.known, s)
        else (s.remove pmn.vin.prevout).addWithInputs k p e mnb nChainHeight

def processPNBroadcast (mnb : CPatriotnodeBroadcast) : BroadcastOutcome × CPatriotnodeMan :=
  if s.seen k mnb then (.seen, s)
  else if mnb.addr.isAddrV1Compatible = false ∧ p.networkUpgradeActive e.bestHeight .UPGRADE_V5_3 = false then
    (.addrV2, s)
  else match s.checkAndUpdate k p e mnb e.bestHeight with
    | .error nDoS => (.refused nDoS, s)
    | .ok s =>
      if mnb.isInputAssociatedWithPubkey k p e = false then (.mismatched, s)
      else
        let s := { s with
          mapSeenPatriotnodeBroadcast := s.mapSeenPatriotnodeBroadcast.emplace (mnb.getHash k) mnb }
        s.checkInputsAndAdd k p e mnb e.bestHeight

def processPNPing (mnp : CPatriotnodePing) : Int × CPatriotnodeMan :=
  if (s.mapSeenPatriotnodePing[mnp.getHash k]?).isSome then (0, s)
  else match s.pingCheckAndUpdate k p e mnp 0 e.bestHeight true false with
    | (true, _, s) => (0, s)
    | (false, nDoS, s) => (nDoS, s)

end CPatriotnodeMan

inductive ManMessage where
  | PNBROADCAST (mnb : CPatriotnodeBroadcast)
  | PNBROADCAST2 (mnb : CPatriotnodeBroadcast)
  | PNPING (mnp : CPatriotnodePing)
deriving DecidableEq

def ManMessage.broadcast? : ManMessage → Option CPatriotnodeBroadcast
  | PNBROADCAST mnb => some mnb
  | PNBROADCAST2 mnb => some mnb
  | PNPING _ => none

namespace CPatriotnodeMan

variable (k : NodeCrypto) (p : CChainParams)

/-- `ProcessMessageInner`: the manager after a message. -/
def processMessage (e : ManEnv) (s : CPatriotnodeMan) (m : ManMessage) : CPatriotnodeMan :=
  if e.listening = false then s
  else match m with
    | .PNBROADCAST mnb => (s.processPNBroadcast k p e mnb).2
    | .PNBROADCAST2 mnb =>
      if p.networkUpgradeActive e.bestHeight .UPGRADE_V5_3 = false then s
      else if mnb.addr.isAddrV1Compatible then s
      else (s.processPNBroadcast k p e mnb).2
    | .PNPING mnp => (s.processPNPing k p e mnp).2

def run (s : CPatriotnodeMan) (ms : List (ManEnv × ManMessage)) : CPatriotnodeMan :=
  ms.foldl (fun s m => s.processMessage k p m.1 m.2) s

end CPatriotnodeMan

def Sample.nodeCrypto : NodeCrypto where
  toMessageCrypto := messageCrypto
  getID bs := BitVec.ofNat 160 (Codec.ofLE bs)
  addrToString _ := ""
  vinToString _ := ""

end TrumpCoin
