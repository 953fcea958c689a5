import TrumpCoin.Consensus

/-!
# Provider transaction payloads

The four payloads of `evo/providertx.h`, their wire formats, and `GetTxPayload` of `evo/specialtx.h`. A
payload is written field by field; its signature is the last field and is left out of the serialization
that is hashed (`SER_GETHASH`).
-/

namespace TrumpCoin

open Lib

structure ProRegPL where
  nVersion : BitVec 16 := 1
  nType : BitVec 16 := 0
  nMode : BitVec 16 := 0
  collateralOutpoint : COutPoint := {}
  addr : CService := {}
  keyIDOwner : CKeyID
  keyIDOperator : CKeyID
  keyIDVoting : CKeyID
  scriptPayout : CScript
  nOperatorReward : BitVec 16 := 0
  scriptOperatorPayout : CScript := []
  inputsHash : uint256
  vchSig : Bytes := []
deriving DecidableEq

structure ProUpServPL where
  nVersion : BitVec 16 := 1
  proTxHash : uint256
  addr : CService
  scriptOperatorPayout : CScript := []
  inputsHash : uint256
  vchSig : Bytes := []
deriving DecidableEq

structure ProUpRegPL where
  nVersion : BitVec 16 := 1
  proTxHash : uint256
  nMode : BitVec 16 := 0
  keyIDOperator : CKeyID
  keyIDVoting : CKeyID
  scriptPayout : CScript
  inputsHash : uint256
  vchSig : Bytes := []
deriving DecidableEq

structure ProUpRevPL where
  nVersion : BitVec 16 := 1
  proTxHash : uint256
  nReason : BitVec 16 := 0
  inputsHash : uint256
  vchSig : Bytes := []
deriving DecidableEq

/-- `CURRENT_VERSION` of all four payloads. -/
def CURRENT_VERSION : BitVec 16 := 1

def REASON_NOT_SPECIFIED : BitVec 16 := 0
def REASON_LAST : BitVec 16 := 3

/-! ## Wire formats -/

def u16 : Codec (BitVec 16) := uintLE 2

def hash256 : Codec uint256 := blob 32

def keyID : Codec CKeyID := blob 20

namespace ProRegPL

def codec : Codec ProRegPL :=
  (u16.pair <| u16.pair <| u16.pair <| COutPoint.codec.pair <| CService.codec.pair <| keyID.pair <| keyID.pair <|
    keyID.pair <| byteVector.pair <| u16.pair <| byteVector.pair <| hash256.pair byteVector).iso
    (fun (v, t, m, c, a, o, p, w, s, r, q, i, g) => ⟨v, t, m, c, a, o, p, w, s, r, q, i, g⟩)
    (fun pl => (pl.nVersion, pl.nType, pl.nMode, pl.collateralOutpoint, pl.addr, pl.keyIDOwner, pl.keyIDOperator,
      pl.keyIDVoting, pl.scriptPayout, pl.nOperatorReward, pl.scriptOperatorPayout, pl.inputsHash, pl.vchSig))
    (fun _ => rfl) (fun _ => rfl)

theorem scripts_of_valid {pl : ProRegPL} (h : codec.valid pl) :
    byteVector.valid pl.scriptPayout ∧ byteVector.valid pl.scriptOperatorPayout :=
  ⟨h.2.2.2.2.2.2.2.2.1, h.2.2.2.2.2.2.2.2.2.2.1⟩

end ProRegPL

namespace ProUpServPL

def codec : Codec ProUpServPL :=
  (u16.pair <| hash256.pair <| CService.codec.pair <| byteVector.pair <| hash256.pair byteVector).iso
    (fun (v, h, a, s, i, g) => ⟨v, h, a, s, i, g⟩)
    (fun pl => (pl.nVersion, pl.proTxHash, pl.addr, pl.scriptOperatorPayout, pl.inputsHash, pl.vchSig))
    (fun _ => rfl) (fun _ => rfl)

theorem script_of_valid {pl : ProUpServPL} (h : codec.valid pl) : byteVector.valid pl.scriptOperatorPayout :=
  h.2.2.2.1

def forHash (pl : ProUpServPL) : Bytes :=
  u16.write pl.nVersion ++ hash256.write pl.proTxHash ++ CService.codec.write pl.addr ++
    byteVector.write pl.scriptOperatorPayout ++ hash256.write pl.inputsHash

end ProUpServPL

namespace ProUpRegPL

def codec : Codec ProUpRegPL :=
  (u16.pair <| hash256.pair <| u16.pair <| keyID.pair <| keyID.pair <| byteVector.pair <|
    hash256.pair byteVector).iso
    (fun (v, h, m, o, w, s, i, g) => ⟨v, h, m, o, w, s, i, g⟩)
    (fun pl => (pl.nVersion, pl.proTxHash, pl.nMode, pl.keyIDOperator, pl.keyIDVoting, pl.scriptPayout,
      pl.inputsHash, pl.vchSig))
    (fun _ => rfl) (fun _ => rfl)

theorem script_of_valid {pl : ProUpRegPL} (h : codec.valid pl) : byteVector.valid pl.scriptPayout :=
  h.2.2.2.2.2.1

def forHash (pl : ProUpRegPL) : Bytes :=
  u16.write pl.nVersion ++ hash256.write pl.proTxHash ++ u16.write pl.nMode ++ keyID.write pl.keyIDOperator ++
    keyID.write pl.keyIDVoting ++ byteVector.write pl.scriptPayout ++ hash256.write pl.inputsHash

end ProUpRegPL

namespace ProUpRevPL

def codec : Codec ProUpRevPL :=
  (u16.pair <| hash256.pair <| u16.pair <| hash256.pair byteVector).iso
    (fun (v, h, r, i, g) => ⟨v, h, r, i, g⟩)
    (fun pl => (pl.nVersion, pl.proTxHash, pl.nReason, pl.inputsHash, pl.vchSig))
    (fun _ => rfl) (fun _ => rfl)

def forHash (pl : ProUpRevPL) : Bytes :=
  u16.write pl.nVersion ++ hash256.write pl.proTxHash ++ u16.write pl.nReason ++ hash256.write pl.inputsHash

end ProUpRevPL

/-! ## Reading a payload -/

/-- `GetTxPayload`: the payload is non-empty and is exactly one serialized object. -/
def getTxPayload {α : Type} (c : Codec α) (tx : CTransaction) : Option α :=
  match tx.extraPayload with
  | none => none
  | some payload =>
    if payload.isEmpty then none
    else match c.read payload with
      | some (obj, []) => some obj
      | _ => none

theorem valid_of_getTxPayload {α : Type} {c : Codec α} {tx : CTransaction} {obj : α}
    (h : getTxPayload c tx = some obj) : c.valid obj := by
  unfold getTxPayload at h
  split at h
  · cases h
  · split at h
    · cases h
    · split at h
      · rename_i hread
        cases h
        exact c.read_valid _ _ _ hread
      · cases h

def setTxPayload {α : Type} (c : Codec α) (obj : α) (tx : CTransaction) : CTransaction :=
  { tx with extraPayload := some (c.write obj) }

theorem getTxPayload_setTxPayload {α : Type} {c : Codec α} {obj : α} (tx : CTransaction) (h : c.valid obj)
    (hne : c.write obj ≠ []) : getTxPayload c (setTxPayload c obj tx) = some obj := by
  simp [getTxPayload, setTxPayload, c.read_write_nil h, hne]

end TrumpCoin
