import TrumpCoin.Evo.Payload
import TrumpCoin.Lib.Best
import TrumpCoin.Lib.OwnerIndex

/-!
# The deterministic patriotnode list

`CDeterministicPNState`, `CDeterministicPN` and `CDeterministicPNList` of `evo/deterministicmns.{h,cpp}` with
their lookups and updates. The three immutable maps of a list are finite maps. Their iteration order is not
specified by the code: `MapOrder` stands for any order, and every loop over a list takes one.

The digests of `::SerializeHash` are values of an arbitrary ordered type `D`: no function into 256 bits is
injective, and the results that need collision freedom say so.
-/

namespace TrumpCoin

open Lib

/-! ## Unique properties -/

/-- An ordered type of digests with the hash of serialized bytes. -/
class Digest (D : Type) extends Ord D where
  serializeHash : Bytes → D
  [trans : Std.TransOrd D]
  [lawful : Std.LawfulEqOrd D]

attribute [instance] Digest.trans Digest.lawful

instance {D : Type} [Digest D] : DecidableEq D := fun _ _ => decidable_of_iff _ Std.compare_eq_iff_eq

abbrev CollisionFree (D : Type) [Digest D] : Prop := Function.Injective (Digest.serializeHash : Bytes → D)

instance : Digest Bytes where
  serializeHash := id

/-- A value that no two patriotnodes may share. -/
inductive UniqueProperty where
  | outpoint (o : COutPoint)
  | service (a : CService)
  | keyID (k : CKeyID)
deriving DecidableEq

namespace UniqueProperty

def nullValue : UniqueProperty → UniqueProperty
  | outpoint _ => .outpoint COutPoint.null
  | service _ => .service CService.null
  | keyID _ => .keyID 0

def IsNull (v : UniqueProperty) : Prop := v = v.nullValue

instance (v : UniqueProperty) : Decidable v.IsNull := inferInstanceAs (Decidable (v = v.nullValue))

def bytes : UniqueProperty → Bytes
  | outpoint o => COutPoint.codec.write o
  | service a => CService.codec.write a
  | keyID k => TrumpCoin.keyID.write k

def hash (D : Type) [Digest D] (v : UniqueProperty) : D := Digest.serializeHash v.bytes

end UniqueProperty

/-! ## States and nodes -/

structure CDeterministicPNState where
  nRegisteredHeight : Int := -1
  nLastPaidHeight : Int := 0
  nPoSePenalty : Int := 0
  nPoSeRevivedHeight : Int := -1
  nPoSeBanHeight : Int := -1
  nRevocationReason : BitVec 16 := REASON_NOT_SPECIFIED
  confirmedHash : uint256 := 0
  confirmedHashWithProRegTxHash : uint256 := 0
  keyIDOwner : CKeyID := 0
  keyIDOperator : CKeyID := 0
  keyIDVoting : CKeyID := 0
  addr : CService := {}
  scriptPayout : CScript := []
  scriptOperatorPayout : CScript := []
deriving DecidableEq

namespace CDeterministicPNState

def ofProReg (pl : ProRegPL) : CDeterministicPNState where
  keyIDOwner := pl.keyIDOwner
  keyIDOperator := pl.keyIDOperator
  keyIDVoting := pl.keyIDVoting
  addr := pl.addr
  scriptPayout := pl.scriptPayout
  scriptOperatorPayout := pl.scriptOperatorPayout

def resetOperatorFields (s : CDeterministicPNState) : CDeterministicPNState :=
  { s with
    keyIDOperator := 0
    addr := CService.null
    scriptOperatorPayout := []
    nRevocationReason := REASON_NOT_SPECIFIED }

def banIfNotBanned (height : Int) (s : CDeterministicPNState) : CDeterministicPNState :=
  if s.nPoSeBanHeight = -1 then { s with nPoSeBanHeight := height } else s

/-- `UpdateConfirmedHash`; `sha256` is one pass of the hash over its argument. -/
def updateConfirmedHash (sha256 : Bytes → uint256) (proTxHash confirmedHash : uint256)
    (s : CDeterministicPNState) : CDeterministicPNState :=
  { s with
    confirmedHash := confirmedHash
    confirmedHashWithProRegTxHash := sha256 (hash256.write proTxHash ++ hash256.write confirmedHash) }

end CDeterministicPNState

structure CDeterministicPN where
  internalId : Nat
  proTxHash : uint256
  collateralOutpoint : COutPoint
  nOperatorReward : BitVec 16
  pdmnState : CDeterministicPNState
deriving DecidableEq

namespace CDeterministicPN

def getInternalId (dmn : CDeterministicPN) : Result Nat := do
  require (.assertFailure "GetInternalId") (dmn.internalId ≠ 2 ^ 64 - 1)
  return dmn.internalId

/-- `!IsPNPoSeBanned`. -/
def isPNValid (dmn : CDeterministicPN) : Bool := dmn.pdmnState.nPoSeBanHeight = -1

end CDeterministicPN

/-! ## The list -/

abbrev MnMap := FinMap uint256 CDeterministicPN
abbrev MnInternalIdMap := FinMap Nat uint256
abbrev MnUniquePropertyMap (D : Type) [Digest D] := OwnerIndex D uint256

structure MapOrder where
  iterate : MnMap → List CDeterministicPN
  perm : ∀ m, (iterate m).Perm m.vals

def MapOrder.byHash : MapOrder := ⟨FinMap.vals, fun _ => .refl _⟩

structure CDeterministicPNList (D : Type) [Digest D] where
  blockHash : uint256 := 0
  nHeight : Int := -1
  nTotalRegisteredCount : Nat := 0
  mnMap : MnMap := ∅
  mnInternalIdMap : MnInternalIdMap := ∅
  mnUniquePropertyMap : MnUniquePropertyMap D := ∅

section PropertyMap

variable {D : Type} [Digest D]

def addUniqueProperty (dmn : CDeterministicPN) (v : UniqueProperty) (m : MnUniquePropertyMap D) :
    Result (MnUniquePropertyMap D) := do
  require (.assertFailure "AddUniqueProperty: v != nullValue") (¬v.IsNull)
  let hash := v.hash D
  let oldEntry := m[hash]?
  require (.assertFailure "AddUniqueProperty: !oldEntry || oldEntry->first == dmn->proTxHash")
    (∀ e ∈ oldEntry, e.1 = dmn.proTxHash)
  return m.insert hash (dmn.proTxHash, match oldEntry with | some e => e.2 + 1 | none => 1)

def deleteUniqueProperty (dmn : CDeterministicPN) (oldValue : UniqueProperty) (m : MnUniquePropertyMap D) :
    Result (MnUniquePropertyMap D) := do
  require (.assertFailure "DeleteUniqueProperty: oldValue != nullValue") (¬oldValue.IsNull)
  let oldHash := oldValue.hash D
  match m[oldHash]? with
  | none => .error (.assertFailure "DeleteUniqueProperty: p && p->first == dmn->proTxHash")
  | some p =>
    require (.assertFailure "DeleteUniqueProperty: p && p->first == dmn->proTxHash") (p.1 = dmn.proTxHash)
    return if p.2 = 1 then m.erase oldHash else m.insert oldHash (dmn.proTxHash, p.2 - 1)

def updateUniqueProperty (dmn : CDeterministicPN) (oldValue newValue : UniqueProperty)
    (m : MnUniquePropertyMap D) : Result (MnUniquePropertyMap D) :=
  if oldValue = newValue then return m
  else do
    let m ← (if oldValue.IsNull then pure m else deleteUniqueProperty dmn oldValue m)
    if newValue.IsNull then return m else addUniqueProperty dmn newValue m

end PropertyMap

namespace CDeterministicPNList

variable {D : Type} [Digest D] (l : CDeterministicPNList D)

variable (proTxHash : uint256)

def getPN : Option CDeterministicPN := l.mnMap[proTxHash]?

def hasPN : Bool := (l.getPN proTxHash).isSome

def hasUniqueProperty (v : UniqueProperty) : Bool := (l.mnUniquePropertyMap[v.hash D]?).isSome

def getUniquePropertyPN (v : UniqueProperty) : Option CDeterministicPN :=
  match l.mnUniquePropertyMap[v.hash D]? with
  | none => none
  | some p => l.getPN p.1

def getPNByCollateral (o : COutPoint) : Option CDeterministicPN := l.getUniquePropertyPN (.outpoint o)

def getPNByInternalId (id : Nat) : Option CDeterministicPN :=
  match l.mnInternalIdMap[id]? with
  | none => none
  | some proTxHash => l.getPN proTxHash

/-- `HasUniqueProperty(v) && GetUniquePropertyPN(v)->proTxHash != proTxHash`. -/
def usedByOther (v : UniqueProperty) (proTxHash : uint256) : Result Bool :=
  if l.hasUniqueProperty v then
    match l.getUniquePropertyPN v with
    | none => .error (.nullDeref "GetUniquePropertyPN")
    | some other => return other.proTxHash ≠ proTxHash
  else return false

/-- `ForEachPN(onlyValid, ..)`: the nodes in the order they are visited. -/
def forEachPN (order : MapOrder) (onlyValid : Bool) : List CDeterministicPN :=
  (order.iterate l.mnMap).filter fun dmn => !onlyValid || dmn.isPNValid

/-! ### Updates -/

def addPN (dmn : CDeterministicPN) (fBumpTotalCount : Bool) : Result (CDeterministicPNList D) := do
  let s := dmn.pdmnState
  require (.exception "AddPN: can't add a duplicate patriotnode with the same proTxHash")
    (l.mnMap[dmn.proTxHash]? = none)
  let id ← dmn.getInternalId
  require (.exception "AddPN: can't add a duplicate patriotnode with the same internalId")
    (l.mnInternalIdMap[id]? = none)
  require (.exception "AddPN: can't add a patriotnode with a duplicate address")
    (l.hasUniqueProperty (.service s.addr) = false)
  require (.exception "AddPN: can't add a patriotnode with a duplicate key")
    (l.hasUniqueProperty (.keyID s.keyIDOwner) = false ∧ l.hasUniqueProperty (.keyID s.keyIDOperator) = false)
  let m := l.mnUniquePropertyMap
  let m ← addUniqueProperty dmn (.outpoint dmn.collateralOutpoint) m
  let m ← (if s.addr = CService.null then pure m else addUniqueProperty dmn (.service s.addr) m)
  let m ← addUniqueProperty dmn (.keyID s.keyIDOwner) m
  let m ← addUniqueProperty dmn (.keyID s.keyIDOperator) m
  return { l with
    mnMap := l.mnMap.insert dmn.proTxHash dmn
    mnInternalIdMap := l.mnInternalIdMap.insert id dmn.proTxHash
    mnUniquePropertyMap := m
    -- the maximum is taken in 64 bits and stored in 32
    nTotalRegisteredCount :=
      if fBumpTotalCount then max (id + 1) l.nTotalRegisteredCount % 2 ^ 32 else l.nTotalRegisteredCount }

def updatePN (oldDmn : CDeterministicPN) (pdmnState : CDeterministicPNState) :
    Result (CDeterministicPNList D) := do
  let oldState := oldDmn.pdmnState
  let taken ← l.usedByOther (.service oldState.addr) oldDmn.proTxHash
  require (.exception "UpdatePN: can't update a patriotnode with a duplicate address") (taken = false)
  let dmn := { oldDmn with pdmnState := pdmnState }
  let m := l.mnUniquePropertyMap
  let m ← updateUniqueProperty dmn (.service oldState.addr) (.service pdmnState.addr) m
  let m ← updateUniqueProperty dmn (.keyID oldState.keyIDOwner) (.keyID pdmnState.keyIDOwner) m
  let m ← updateUniqueProperty dmn (.keyID oldState.keyIDOperator) (.keyID pdmnState.keyIDOperator) m
  return { l with mnMap := l.mnMap.insert oldDmn.proTxHash dmn, mnUniquePropertyMap := m }

def updatePNByHash (pdmnState : CDeterministicPNState) : Result (CDeterministicPNList D) :=
  match l.mnMap[proTxHash]? with
  | none => .error (.exception "UpdatePN: Can't find a patriotnode with proTxHash")
  | some oldDmn => l.updatePN oldDmn pdmnState

def removePN : Result (CDeterministicPNList D) :=
  match l.getPN proTxHash with
  | none => .error (.exception "RemovePN: Can't find a patriotnode with proTxHash")
  | some dmn => do
    let s := dmn.pdmnState
    let m := l.mnUniquePropertyMap
    let m ← deleteUniqueProperty dmn (.outpoint dmn.collateralOutpoint) m
    let m ← (if s.addr = CService.null then pure m else deleteUniqueProperty dmn (.service s.addr) m)
    let m ← deleteUniqueProperty dmn (.keyID s.keyIDOwner) m
    let m ← deleteUniqueProperty dmn (.keyID s.keyIDOperator) m
    let id ← dmn.getInternalId
    return { l with
      mnMap := l.mnMap.erase proTxHash
      mnInternalIdMap := l.mnInternalIdMap.erase id
      mnUniquePropertyMap := m }

def poSeDecrease : Result (CDeterministicPNList D) :=
  match l.getPN proTxHash with
  | none => .error (.exception "PoSeDecrease: Can't find a patriotnode with proTxHash")
  | some dmn => do
    require (.assertFailure "PoSeDecrease") (0 < dmn.pdmnState.nPoSePenalty ∧ dmn.pdmnState.nPoSeBanHeight = -1)
    l.updatePNByHash proTxHash { dmn.pdmnState with nPoSePenalty := dmn.pdmnState.nPoSePenalty - 1 }

def decreasePoSePenalties (order : MapOrder) : Result (CDeterministicPNList D) :=
  let toDecrease := ((l.forEachPN order true).filter fun dmn =>
    decide (0 < dmn.pdmnState.nPoSePenalty ∧ dmn.pdmnState.nPoSeBanHeight = -1)).map CDeterministicPN.proTxHash
  toDecrease.foldlM (fun l proTxHash => l.poSeDecrease proTxHash) l

end CDeterministicPNList

/-! ## The next payee -/

def compareByLastPaidGetHeight (dmn : CDeterministicPN) : Int :=
  let s := dmn.pdmnState
  if s.nPoSeRevivedHeight ≠ -1 ∧ s.nLastPaidHeight < s.nPoSeRevivedHeight then s.nPoSeRevivedHeight
  else if s.nLastPaidHeight = 0 then s.nRegisteredHeight
  else s.nLastPaidHeight

/-- `CompareByLastPaid(a, b)`: `a` is paid before `b`. -/
def compareByLastPaid (a b : CDeterministicPN) : Bool :=
  let ah := compareByLastPaidGetHeight a
  let bh := compareByLastPaidGetHeight b
  if ah = bh then a.proTxHash < b.proTxHash else ah < bh

/-- `GetPNPayee`: a pass over the valid nodes that keeps the best one so far. -/
def CDeterministicPNList.getPNPayee {D : Type} [Digest D] (l : CDeterministicPNList D) (order : MapOrder) :
    Option CDeterministicPN :=
  best compareByLastPaid (l.forEachPN order true)

end TrumpCoin
