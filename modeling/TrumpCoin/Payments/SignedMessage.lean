import TrumpCoin.Evo.PNList

/-!
# Signed network messages

`CSignedMessage` of `messagesigner.h` and the two lists in which the key of a node is looked up. A message is signed
over its hash or, in the old format, over a text.
-/

namespace TrumpCoin

open Lib

/-- The hash functions and the recovery of keys that signed messages use. -/
structure MessageCrypto where
  /-- `CHashWriter::GetHash` of the written bytes -/
  hashWriter : Bytes → uint256
  getMessageHash : String → uint256
  /-- `CHashSigner::VerifyHash`: the key recovered from the signature has the given id -/
  verifyHash : uint256 → CKeyID → Bytes → Bool

def MESS_VER_STRMESS : Int := 0
def MESS_VER_HASH : Int := 1

structure CSignedMessage where
  vchSig : Bytes := []
  nMessVersion : Int := MESS_VER_HASH
deriving DecidableEq

/-- `CheckSignature`, for the hash and the text that the message signs. -/
def CSignedMessage.checkSignature (k : MessageCrypto) (m : CSignedMessage) (signatureHash : uint256)
    (strMessage : String) (keyID : CKeyID) : Bool :=
  if m.nMessVersion = MESS_VER_HASH then k.verifyHash signatureHash keyID m.vchSig
  else k.verifyHash (k.getMessageHash strMessage) keyID m.vchSig

def COutPoint.toStringShort (o : COutPoint) : String := o.hash.toHex ++ "-" ++ toString o.n.toNat

def CTxIn.serialize (vin : CTxIn) : Bytes :=
  COutPoint.codec.write vin.prevout ++ byteVector.write vin.scriptSig ++ (uintLE 4).write vin.nSequence

structure LegacyNode where
  /-- `pubKeyPatriotnode.GetID()` -/
  keyID : CKeyID
  isEnabled : Bool
deriving DecidableEq

structure SigningNodes (D : Type) [Digest D] where
  /-- `deterministicPNManager->GetListAtChainTip()` -/
  mnList : CDeterministicPNList D := {}
  find : COutPoint → Option LegacyNode := fun _ => none

/-- The key with which a node signs: that of a deterministic node, or else of a legacy node. -/
def SigningNodes.keyOf {D : Type} [Digest D] (nodes : SigningNodes D) (signingKey : CDeterministicPNState → CKeyID)
    (o : COutPoint) : Option CKeyID :=
  match nodes.mnList.getPNByCollateral o with
  | some dmn => some (signingKey dmn.pdmnState)
  | none => (nodes.find o).map LegacyNode.keyID

namespace Sample

/-- Hashes that tell short messages apart; the only good signature is the byte 1. -/
def messageCrypto : MessageCrypto where
  hashWriter bs := BitVec.ofNat 256 (Codec.ofLE bs)
  getMessageHash _ := 0
  verifyHash _ _ vchSig := vchSig == [1]

end Sample

end TrumpCoin
