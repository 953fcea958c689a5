import TrumpCoin.Lib.FinMap
import TrumpCoin.Serialize

/-!
# Scripts, transactions and blocks

The data types of `uint256.h`, `netaddress.h`, `script/`, `primitives/` and `chain.h` that the modelled
code reads, with the source's predicates on them. A blob such as `uint256` is the bit vector of its bytes
read most significant byte first, so that the order of `memcmp` is the numeric order. A transaction and a
block carry the hash `GetHash` returns for them; nothing here computes it. An amount (`CAmount`) is an `Int`.
-/

namespace TrumpCoin

open Lib

abbrev uint256 := BitVec 256
abbrev CKeyID := BitVec 160
abbrev CScriptID := BitVec 160

instance : Std.TransOrd uint256 := inferInstanceAs (Std.TransOrd (BitVec 256))

/-- `UintToArith256`: the bytes, least significant first. -/
def uint256.toArith (h : uint256) : Nat := Codec.ofLE ((blob 32).write h)

/-- `arith_uint256::GetCompact` of a number without sign. -/
def getCompact (x : Nat) : BitVec 32 :=
  let nSize := ((if x = 0 then 0 else x.log2 + 1) + 7) / 8
  let nCompact :=
    (if nSize ≤ 3 then (x % 2 ^ 64) <<< (8 * (3 - nSize)) else (x >>> (8 * (nSize - 3))) % 2 ^ 64) % 2 ^ 32
  let r := if nCompact &&& 0x00800000 ≠ 0 then (nCompact >>> 8, nSize + 1) else (nCompact, nSize)
  BitVec.ofNat 32 (r.1 ||| r.2 <<< 24)

/-! ## Network addresses -/

/-- An IP address and a port, as the version-1 address format carries them. -/
structure CService where
  ip : BitVec 128 := 0
  port : BitVec 16 := 0
deriving DecidableEq

namespace CService

def null : CService := {}

variable (a : CService)

def getByte (i : Nat) : Nat := (a.ip >>> (8 * (15 - i))).toNat % 256

def hasPrefix (bs : List Nat) : Bool := (List.range bs.length).map a.getByte == bs

def IPV4_IN_IPV6_PREFIX : List Nat := [0x00, 0x00, 0x00, 0x00, 0x00, 0x00, 0x00, 0x00, 0x00, 0x00, 0xFF, 0xFF]
def TORV2_IN_IPV6_PREFIX : List Nat := [0xFD, 0x87, 0xD8, 0x7E, 0xEB, 0x43]
def INTERNAL_IN_IPV6_PREFIX : List Nat := [0xFD, 0x6B, 0x88, 0xC0, 0x87, 0x24]

/-- The network `SetLegacyIPv6` assigns to the sixteen bytes. -/
inductive Network where
  | NET_IPV4 | NET_IPV6 | NET_ONION | NET_INTERNAL
deriving DecidableEq

def net : Network :=
  if a.hasPrefix IPV4_IN_IPV6_PREFIX then .NET_IPV4
  else if a.hasPrefix TORV2_IN_IPV6_PREFIX then .NET_ONION
  else if a.hasPrefix INTERNAL_IN_IPV6_PREFIX then .NET_INTERNAL
  else .NET_IPV6

def isIPv4 : Bool := a.net = .NET_IPV4
def isIPv6 : Bool := a.net = .NET_IPV6
def isInternal : Bool := a.net = .NET_INTERNAL

def v4 (i : Nat) : Nat := a.getByte (12 + i)

def isRFC1918 : Bool :=
  a.isIPv4 && (a.v4 0 == 10 || a.v4 0 == 192 && a.v4 1 == 168 ||
    a.v4 0 == 172 && decide (16 ≤ a.v4 1) && decide (a.v4 1 ≤ 31))
def isRFC2544 : Bool := a.isIPv4 && a.v4 0 == 198 && (a.v4 1 == 18 || a.v4 1 == 19)
def isRFC3927 : Bool := a.isIPv4 && a.v4 0 == 169 && a.v4 1 == 254
def isRFC6598 : Bool :=
  a.isIPv4 && a.v4 0 == 100 && decide (64 ≤ a.v4 1) && decide (a.v4 1 ≤ 127)
def isRFC5737 : Bool :=
  a.isIPv4 && (a.v4 0 == 192 && a.v4 1 == 0 && a.v4 2 == 2 || a.v4 0 == 198 && a.v4 1 == 51 && a.v4 2 == 100 ||
    a.v4 0 == 203 && a.v4 1 == 0 && a.v4 2 == 113)
def isRFC3849 : Bool := a.isIPv6 && a.hasPrefix [0x20, 0x01, 0x0D, 0xB8]
def isRFC4862 : Bool :=
  a.isIPv6 && a.hasPrefix [0xFE, 0x80, 0x00, 0x00, 0x00, 0x00, 0x00, 0x00]
def isRFC4193 : Bool := a.isIPv6 && a.getByte 0 / 2 == 0xFC / 2
def isRFC4843 : Bool := a.isIPv6 && a.hasPrefix [0x20, 0x01, 0x00] && a.getByte 3 / 16 == 1
def isRFC7343 : Bool := a.isIPv6 && a.hasPrefix [0x20, 0x01, 0x00] && a.getByte 3 / 16 == 2
def isLocal : Bool := a.isIPv4 && (a.v4 0 == 127 || a.v4 0 == 0) || a.isIPv6 && a.ip == 1

def isValid : Bool :=
  if a.isIPv6 && a.hasPrefix (IPV4_IN_IPV6_PREFIX.drop 3) then false
  else if a.isIPv6 && a.ip == 0 then false
  else if a.isRFC3849 then false
  else if a.isInternal then false
  else !(a.isIPv4 && (a.ip.toNat % 2 ^ 32 == 0 || a.ip.toNat % 2 ^ 32 == 0xffffffff))

/-- `IsRFC4193() && !IsTor()` is `IsRFC4193()` here: an onion address is not an IPv6 one. -/
def isRoutable : Bool :=
  a.isValid && !(a.isRFC1918 || a.isRFC2544 || a.isRFC3927 || a.isRFC4862 || a.isRFC6598 || a.isRFC5737 ||
    a.isRFC4193 || a.isRFC4843 || a.isRFC7343 || a.isLocal || a.isInternal)

/-- Wire format: the sixteen address bytes, then the port in network order. -/
def codec : Codec CService :=
  ((blob 16).pair (blob 2)).iso (fun x => { ip := x.1, port := x.2 }) (fun a => (a.ip, a.port))
    (fun _ => rfl) (fun _ => rfl)

end CService

/-! ## Scripts -/

abbrev CScript := Bytes

def OP_IF : UInt8 := 0x63
def OP_ELSE : UInt8 := 0x67
def OP_ENDIF : UInt8 := 0x68
def OP_RETURN : UInt8 := 0x6a
def OP_DUP : UInt8 := 0x76
def OP_ROT : UInt8 := 0x7b
def OP_EQUAL : UInt8 := 0x87
def OP_EQUALVERIFY : UInt8 := 0x88
def OP_HASH160 : UInt8 := 0xa9
def OP_CHECKSIG : UInt8 := 0xac
def OP_ZEROCOINMINT : UInt8 := 0xc1
def OP_ZEROCOINSPEND : UInt8 := 0xc2
def OP_ZEROCOINPUBLICSPEND : UInt8 := 0xc3
def OP_CHECKCOLDSTAKEVERIFY_LOF : UInt8 := 0xd1
def OP_CHECKCOLDSTAKEVERIFY : UInt8 := 0xd2

def MAX_SCRIPT_SIZE : Nat := 10000

namespace CScript

variable (s : CScript)

def has (i : Nat) (op : UInt8) : Bool := s[i]? == some op

def hashAt (i : Nat) : BitVec 160 :=
  BitVec.ofNat 160 (Codec.ofLE ((s.drop i).take 20).reverse)

def isPayToPublicKeyHash : Bool :=
  s.length == 25 && has s 0 OP_DUP && has s 1 OP_HASH160 && has s 2 0x14 && has s 23 OP_EQUALVERIFY &&
    has s 24 OP_CHECKSIG

def isPayToScriptHash : Bool :=
  s.length == 23 && has s 0 OP_HASH160 && has s 1 0x14 && has s 22 OP_EQUAL

def isPayToColdStaking : Bool :=
  s.length == 51 && has s 0 OP_DUP && has s 1 OP_HASH160 && has s 2 OP_ROT && has s 3 OP_IF &&
    (has s 4 OP_CHECKCOLDSTAKEVERIFY || has s 4 OP_CHECKCOLDSTAKEVERIFY_LOF) && has s 5 0x14 &&
    has s 26 OP_ELSE && has s 27 0x14 && has s 48 OP_ENDIF && has s 49 OP_EQUALVERIFY && has s 50 OP_CHECKSIG

def isPayToColdStakingLOF : Bool := isPayToColdStaking s && has s 4 OP_CHECKCOLDSTAKEVERIFY_LOF

def isZerocoinMint : Bool := has s 0 OP_ZEROCOINMINT
def isZerocoinSpend : Bool := has s 0 OP_ZEROCOINSPEND
def isZerocoinPublicSpend : Bool := has s 0 OP_ZEROCOINPUBLICSPEND

def isUnspendable : Bool := has s 0 OP_RETURN || decide (MAX_SCRIPT_SIZE < s.length)

/-- `CPubKey::GetLen`: the length of a public key with a given first byte. -/
def pubKeyLen (chHeader : UInt8) : Nat :=
  if chHeader = 2 ∨ chHeader = 3 then 33 else if chHeader = 4 ∨ chHeader = 6 ∨ chHeader = 7 then 65 else 0

/-- `MatchPayToPubkey`: the key of a script that is one push of a key of `n` bytes and `OP_CHECKSIG`. -/
def matchPayToPubkey : Option Bytes :=
  let key := (s.drop 1).dropLast
  let pushes n := s.length == n + 2 && has s 0 (UInt8.ofNat n) && s.getLast? == some OP_CHECKSIG
  if pushes 65 || pushes 33 then
    if key.head?.map pubKeyLen = some key.length then some key else none
  else none

end CScript

/-- `CTxDestination` of an address that was extracted. -/
inductive CTxDestination where
  | keyID (id : CKeyID)
  | scriptID (id : CScriptID)
deriving DecidableEq

/-- `ExtractDestination` with `fColdStake = false`: the owner of a script that `Solver` resolves to one
address. Null data, multisig and non-standard scripts have none. `hash160` is `CPubKey::GetID`. -/
def extractDestination (hash160 : Bytes → CKeyID) (s : CScript) : Option CTxDestination :=
  if CScript.isPayToScriptHash s then some (.scriptID (CScript.hashAt s 2))
  else match CScript.matchPayToPubkey s with
    | some key => some (.keyID (hash160 key))
    | none =>
      if CScript.isPayToPublicKeyHash s then some (.keyID (CScript.hashAt s 3))
      else if CScript.isPayToColdStaking s then some (.keyID (CScript.hashAt s 28))
      else none

/-! ## Transactions -/

structure COutPoint where
  hash : uint256 := 0
  n : BitVec 32 := 0xffffffff
deriving DecidableEq

namespace COutPoint

def null : COutPoint := {}

def isNull (o : COutPoint) : Bool := o = null

/-- `operator<`: by hash, then by index. -/
instance : Ord COutPoint := ⟨compareLex (compareOn hash) (compareOn n)⟩

instance : Std.TransOrd COutPoint :=
  inferInstanceAs (Std.TransCmp (compareLex (compareOn hash) (compareOn n)))

instance : Std.LawfulEqOrd COutPoint where
  eq_of_compare {a b} h := by
    obtain ⟨h1, h2⟩ := Ordering.then_eq_eq.mp (show (compare a.hash b.hash).then (compare a.n b.n) = .eq from h)
    cases a; cases b
    rw [Std.compare_eq_iff_eq] at h1 h2
    simp_all

def codec : Codec COutPoint :=
  ((blob 32).pair (uintLE 4)).iso (fun x => { hash := x.1, n := x.2 }) (fun o => (o.hash, o.n))
    (fun _ => rfl) (fun _ => rfl)

end COutPoint

/-- `nRounds` is memory only and left out. -/
structure CTxOut where
  nValue : Int
  scriptPubKey : CScript
deriving DecidableEq

def CTxOut.isEmpty (o : CTxOut) : Bool := o.nValue == 0 && o.scriptPubKey.isEmpty

/-- An unspent output with the transaction kind and height that created it. -/
structure Coin where
  out : CTxOut
  fCoinBase : Bool
  fCoinStake : Bool
  nHeight : Nat
deriving DecidableEq

structure CTxIn where
  prevout : COutPoint := {}
  scriptSig : CScript := []
  nSequence : BitVec 32 := 0xffffffff
deriving DecidableEq

def CTxIn.isZerocoinSpend (i : CTxIn) : Bool := i.prevout.hash == 0 && CScript.isZerocoinSpend i.scriptSig
def CTxIn.isZerocoinPublicSpend (i : CTxIn) : Bool := CScript.isZerocoinPublicSpend i.scriptSig

/-- The parts of a shielded spend the node's bookkeeping reads. -/
structure SpendDescription where
  anchor : uint256
  nullifier : uint256
deriving DecidableEq

/-- The note commitment of a shielded output. -/
structure OutputDescription where
  cmu : uint256
deriving DecidableEq

structure SaplingTxData where
  valueBalance : Int := 0
  vShieldedSpend : List SpendDescription := []
  vShieldedOutput : List OutputDescription := []
  bindingSig : Bytes := []
deriving DecidableEq

def SaplingTxData.hasBindingSig (d : SaplingTxData) : Bool := d.bindingSig.any (· != 0)

namespace TxType

def NORMAL : Int16 := 0
def PROREG : Int16 := 1
def PROUPSERV : Int16 := 2
def PROUPREG : Int16 := 3
def PROUPREV : Int16 := 4

end TxType

/-- `hash` is the cached value of `ComputeHash`. -/
structure CTransaction where
  nVersion : Int16 := 1
  nType : Int16 := TxType.NORMAL
  vin : List CTxIn := []
  vout : List CTxOut := []
  nLockTime : BitVec 32 := 0
  sapData : Option SaplingTxData := some {}
  extraPayload : Option Bytes := none
  hash : uint256
deriving DecidableEq

namespace CTransaction

variable (tx : CTransaction)

def getHash : uint256 := tx.hash

def hasSaplingData : Bool :=
  match tx.sapData with
  | none => false
  | some d => !d.vShieldedOutput.isEmpty || !d.vShieldedSpend.isEmpty || d.valueBalance != 0 || d.hasBindingSig

def isSaplingVersion : Bool := decide (3 ≤ tx.nVersion)

def isShieldedTx : Bool := tx.isSaplingVersion && tx.hasSaplingData

def hasExtraPayload : Bool :=
  match tx.extraPayload with
  | none => false
  | some p => !p.isEmpty

def isNormalType : Bool := tx.nType == TxType.NORMAL

def isCoinBase : Bool :=
  match tx.vin with
  | [i] => i.prevout.isNull && !CScript.isZerocoinSpend i.scriptSig
  | _ => false

def isCoinStake : Bool :=
  match tx.vin with
  | [] => false
  | i :: _ =>
    (!i.prevout.isNull || i.isZerocoinSpend) && decide (2 ≤ tx.vout.length) && tx.vout.head?.any CTxOut.isEmpty

def hasZerocoinSpendInputs : Bool := tx.vin.any fun i => i.isZerocoinSpend || i.isZerocoinPublicSpend

def hasZerocoinMintOutputs : Bool := tx.vout.any fun o => CScript.isZerocoinMint o.scriptPubKey

def containsZerocoins : Bool := tx.hasZerocoinSpendInputs || tx.hasZerocoinMintOutputs

end CTransaction

/-! ## Blocks and the block index -/

structure CBlock where
  hash : uint256
  nTime : Nat := 0
  hashFinalSaplingRoot : uint256 := 0
  vtx : List CTransaction
deriving DecidableEq

namespace CBlock

def getHash (b : CBlock) : uint256 := b.hash

def isProofOfStake (b : CBlock) : Bool := (b.vtx[1]?).any CTransaction.isCoinStake

def isProofOfWork (b : CBlock) : Bool := !b.isProofOfStake

end CBlock

/-- An entry of the block tree: its block's hash and the entry it builds on. -/
inductive CBlockIndex where
  | genesis (hash : uint256)
  | child (pprev : CBlockIndex) (hash : uint256)
deriving DecidableEq

namespace CBlockIndex

def getBlockHash : CBlockIndex → uint256
  | genesis h => h
  | child _ h => h

def nHeight : CBlockIndex → Nat
  | genesis _ => 0
  | child p _ => p.nHeight + 1

@[simp] theorem nHeight_child (p : CBlockIndex) (h : uint256) : (child p h).nHeight = p.nHeight + 1 := rfl

@[simp] theorem getBlockHash_child (p : CBlockIndex) (h : uint256) : (child p h).getBlockHash = h := rfl

end CBlockIndex

end TrumpCoin
