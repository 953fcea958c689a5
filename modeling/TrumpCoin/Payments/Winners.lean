import TrumpCoin.Payments.BlockPayee

/-!
# Votes for the payee of a block

`CPatriotnodePayments` of `patriotnode-payments.cpp`: the ten nodes with the best rank for a height vote for its payee
with `PNWINNER` messages. A vote is stored under its hash and counted for its height; of each node the height it voted
for last is remembered. The payee functions read the same votes: they are part of `PayeeState`.

The rank of a node, the number of enabled nodes and the height of the chain are part of the environment of a message.
Requests to peers, relaying and the bookkeeping of the sync are left out, and so is `ProcessBlock`, with which a node
casts its own vote.
-/

namespace TrumpCoin

open Lib

/-! ## Messages -/

def PNPAYMENTS_SIGNATURES_TOTAL : Int := 10

structure WinnerEnv (D : Type) [Digest D] extends SigningNodes D where
  /-- `pfrom->nVersion` -/
  nVersion : Int
  activeProtocol : Int
  /-- `mnodeman.GetBestHeight()` -/
  bestHeight : Int
  countEnabled : Int
  getPatriotnodeRank : CTxIn → Int → Int

def hexStr (bs : Bytes) : String := String.join (bs.map fun b => b.toBitVec.toHex)

namespace CPatriotnodePaymentWinner

variable {D : Type} [Digest D] (k : MessageCrypto) (p : CChainParams) (winner : CPatriotnodePaymentWinner)

def getHash : uint256 :=
  k.hashWriter (byteVector.write winner.payee ++ int32LE.write winner.nBlockHeight ++
    COutPoint.codec.write winner.vinPatriotnode.prevout)

def getStrMessage : String :=
  winner.vinPatriotnode.prevout.toStringShort ++ toString winner.nBlockHeight ++ hexStr winner.payee

def checkSignature (keyID : CKeyID) : Bool :=
  winner.toCSignedMessage.checkSignature k (winner.getHash k) winner.getStrMessage keyID

def isValid (e : WinnerEnv D) (chainHeight : Int) : Bool :=
  let n := e.getPatriotnodeRank winner.vinPatriotnode (winner.nBlockHeight - 100)
  let guard := p.networkUpgradeActive chainHeight .UPGRADE_V5_3
  if (guard && decide (n < 1)) || decide (PNPAYMENTS_SIGNATURES_TOTAL < n) then false
  else if guard && !CScript.isPayToPublicKeyHash winner.payee then false
  else true

/-- The signature verifies for the node that the message names. -/
def signed (nodes : SigningNodes D) : Bool :=
  match nodes.keyOf CDeterministicPNState.keyIDOperator winner.vinPatriotnode.prevout with
  | some keyID => winner.checkSignature k keyID
  | none => false

end CPatriotnodePaymentWinner

def CPatriotnodeBlockPayees.addPayee (payeeIn : CScript) (nIncrement : Int) :
    List CPatriotnodePayee → List CPatriotnodePayee
  | [] => [⟨payeeIn, nIncrement⟩]
  | payee :: vecPayments =>
    if payee.scriptPubKey = payeeIn then { payee with nVotes := payee.nVotes + nIncrement } :: vecPayments
    else payee :: addPayee payeeIn nIncrement vecPayments

/-! ## The votes of a node -/

inductive WinnerOutcome where
  | obsoletePeer | alreadySeen | outOfRange | oldVersion | invalid | alreadyVoted | unknownNode | badSignature
  | notAdded | added
deriving DecidableEq

/-- What happens to the votes: a message, the clean-up, or a restart, for which the votes are written to disk and read
back but not the last vote of each node. -/
inductive PaymentsEvent (D : Type) [Digest D] where
  | PNWINNER (e : WinnerEnv D) (winner : CPatriotnodePaymentWinner)
  | cleanPaymentList (mnCount nHeight : Int)
  | reload

namespace CPatriotnodePayments

variable {D : Type} [Digest D] (k : MessageCrypto) (p : CChainParams) (s : CPatriotnodePayments)

def canVote (outPatriotnode : COutPoint) (nBlockHeight : Int) : Bool × CPatriotnodePayments :=
  if s.mapPatriotnodesLastVote[outPatriotnode]? = some nBlockHeight then (false, s)
  else (true, { s with mapPatriotnodesLastVote := s.mapPatriotnodesLastVote.insert outPatriotnode nBlockHeight })

def addWinningPatriotnode (e : WinnerEnv D) (winnerIn : CPatriotnodePaymentWinner) : Bool × CPatriotnodePayments :=
  if e.bestHeight + 1 < winnerIn.nBlockHeight - 100 then (false, s)
  else if (s.mapPatriotnodePayeeVotes[winnerIn.getHash k]?).isSome then (false, s)
  else
    (true, { s with
      mapPatriotnodePayeeVotes := s.mapPatriotnodePayeeVotes.insert (winnerIn.getHash k) winnerIn
      mapPatriotnodeBlocks := s.mapPatriotnodeBlocks.insert winnerIn.nBlockHeight
        (CPatriotnodeBlockPayees.addPayee winnerIn.payee 1
          ((s.mapPatriotnodeBlocks[winnerIn.nBlockHeight]?).getD [])) })

/-- The checks of a message before `CanVote`, with the outcome of the first that fails. -/
def screen (e : WinnerEnv D) (winner : CPatriotnodePaymentWinner) : Option WinnerOutcome :=
  let nHeight := e.bestHeight
  -- the difference is a double, cut off
  let nFirstBlock := (4 * nHeight - 5 * e.countEnabled).tdiv 4
  if e.nVersion < e.activeProtocol then some .obsoletePeer
  else if (s.mapPatriotnodePayeeVotes[winner.getHash k]?).isSome then some .alreadySeen
  else if winner.nBlockHeight < nFirstBlock ∨ nHeight + 20 < winner.nBlockHeight then some .outOfRange
  else if winner.nMessVersion ≠ MESS_VER_HASH then some .oldVersion
  else if winner.isValid p e nHeight = false then some .invalid
  else none

/-- The part of `ProcessMessagePatriotnodePayments` for `PNWINNER`. -/
def processWinner (e : WinnerEnv D) (winner : CPatriotnodePaymentWinner) : WinnerOutcome × CPatriotnodePayments :=
  match s.screen k p e winner with
  | some outcome => (outcome, s)
  | none =>
    match s.canVote winner.vinPatriotnode.prevout winner.nBlockHeight with
    | (false, s) => (.alreadyVoted, s)
    | (true, s) =>
      match e.keyOf CDeterministicPNState.keyIDOperator winner.vinPatriotnode.prevout with
      | none => (.unknownNode, s)
      | some mnKeyID =>
        if winner.checkSignature k mnKeyID = false then (.badSignature, s)
        else
          match s.addWinningPatriotnode k e winner with
          | (true, s) => (.added, s)
          | (false, s) => (.notAdded, s)

/-- The votes that `CleanPaymentList` removes. -/
def outdated (mnCount nHeight : Int) (winner : CPatriotnodePaymentWinner) : Bool :=
  let nLimit := max ((5 * mnCount).tdiv 4) 1000
  decide (nLimit < nHeight - winner.nBlockHeight)

def cleanPaymentList (mnCount nHeight : Int) : CPatriotnodePayments :=
  { s with
    mapPatriotnodePayeeVotes := s.mapPatriotnodePayeeVotes.filter fun _ winner => !outdated mnCount nHeight winner
    mapPatriotnodeBlocks := (s.mapPatriotnodePayeeVotes.vals.filter (outdated mnCount nHeight)).foldl
      (fun blocks winner => blocks.erase winner.nBlockHeight) s.mapPatriotnodeBlocks }

def handle : PaymentsEvent D → Option WinnerOutcome × CPatriotnodePayments
  | .PNWINNER e winner => ((s.processWinner k p e winner).1, (s.processWinner k p e winner).2)
  | .cleanPaymentList mnCount nHeight => (none, s.cleanPaymentList mnCount nHeight)
  | .reload => (none, { s with mapPatriotnodesLastVote := ∅ })

def run (s : CPatriotnodePayments) (events : List (PaymentsEvent D)) : CPatriotnodePayments :=
  events.foldl (fun s event => (s.handle k p event).2) s

def outcomes (s : CPatriotnodePayments) : List (PaymentsEvent D) → List (PaymentsEvent D × Option WinnerOutcome)
  | [] => []
  | event :: events => (event, (s.handle k p event).1) :: outcomes (s.handle k p event).2 events

end CPatriotnodePayments

end TrumpCoin
