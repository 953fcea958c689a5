import TrumpCoin.Chainstate.ConnectBlock

/-!
# The byte format of transactions

`SerializeTransaction` and `UnserializeTransaction` of `primitives/transaction.h`, over the formats of `serialize.h`.
Here a transaction has all the fields that are written; `toCTransaction` keeps those the other modules read. `nRounds`
of an output is memory only.

* `canonical_encoding_iff`: which transactions are read back, and which bytes are written again;
* `nonempty_tx_iff`: which accepted transactions have inputs and outputs.
-/

namespace TrumpCoin

open Lib

namespace Wire

/-! ## Transactions with all their fields -/

structure SpendDescription where
  cv : uint256
  anchor : uint256
  nullifier : uint256
  rk : uint256
  zkproof : BitVec (8 * 192)
  spendAuthSig : BitVec (8 * 64)

structure OutputDescription where
  cv : uint256
  cmu : uint256
  ephemeralKey : uint256
  encCiphertext : BitVec (8 * 580)
  outCiphertext : BitVec (8 * 80)
  zkproof : BitVec (8 * 192)

structure SaplingTxData where
  valueBalance : BitVec (8 * 8) := 0
  vShieldedSpend : List SpendDescription := []
  vShieldedOutput : List OutputDescription := []
  bindingSig : BitVec (8 * 64) := 0

structure TxOut where
  nValue : BitVec (8 * 8)
  scriptPubKey : CScript

structure Header where
  nVersion : BitVec (8 * 2)
  nType : BitVec (8 * 2)
  vin : List CTxIn := []
  vout : List TxOut := []
  nLockTime : BitVec (8 * 4) := 0

/-- The defaults are those of a new `CMutableTransaction`. -/
structure Transaction extends Header where
  sapData : Option SaplingTxData := some {}
  extraPayload : Option Bytes := none

def Header.isSaplingVersion (h : Header) : Bool := 3 ≤ h.nVersion.toInt

def Header.hasPayloadField (h : Header) : Bool := h.isSaplingVersion && h.nType != 0

/-! ## The formats -/

def SpendDescription.codec : Codec SpendDescription :=
  ((blob 32).pair ((blob 32).pair ((blob 32).pair ((blob 32).pair ((blob 192).pair (blob 64)))))).iso
    (fun x => ⟨x.1, x.2.1, x.2.2.1, x.2.2.2.1, x.2.2.2.2.1, x.2.2.2.2.2⟩)
    (fun d => (d.cv, d.anchor, d.nullifier, d.rk, d.zkproof, d.spendAuthSig)) (fun _ => rfl) (fun _ => rfl)

def OutputDescription.codec : Codec OutputDescription :=
  ((blob 32).pair ((blob 32).pair ((blob 32).pair ((blob 580).pair ((blob 80).pair (blob 192)))))).iso
    (fun x => ⟨x.1, x.2.1, x.2.2.1, x.2.2.2.1, x.2.2.2.2.1, x.2.2.2.2.2⟩)
    (fun d => (d.cv, d.cmu, d.ephemeralKey, d.encCiphertext, d.outCiphertext, d.zkproof)) (fun _ => rfl) (fun _ => rfl)

def SaplingTxData.codec : Codec SaplingTxData :=
  ((uintLE 8).pair ((vector SpendDescription.codec).pair ((vector OutputDescription.codec).pair (blob 64)))).iso
    (fun x => ⟨x.1, x.2.1, x.2.2.1, x.2.2.2⟩)
    (fun d => (d.valueBalance, d.vShieldedSpend, d.vShieldedOutput, d.bindingSig)) (fun _ => rfl) (fun _ => rfl)

def txInCodec : Codec CTxIn :=
  (COutPoint.codec.pair (byteVector.pair (uintLE 4))).iso (fun x => ⟨x.1, x.2.1, x.2.2⟩)
    (fun i => (i.prevout, i.scriptSig, i.nSequence)) (fun _ => rfl) (fun _ => rfl)

def TxOut.codec : Codec TxOut :=
  ((uintLE 8).pair byteVector).iso (fun x => ⟨x.1, x.2⟩) (fun o => (o.nValue, o.scriptPubKey)) (fun _ => rfl)
    (fun _ => rfl)

def Header.codec : Codec Header :=
  ((uintLE 2).pair ((uintLE 2).pair ((vector txInCodec).pair ((vector TxOut.codec).pair (uintLE 4))))).iso
    (fun x => ⟨x.1, x.2.1, x.2.2.1, x.2.2.2.1, x.2.2.2.2⟩)
    (fun h => (h.nVersion, h.nType, h.vin, h.vout, h.nLockTime)) (fun _ => rfl) (fun _ => rfl)

/-- The fields in their order. The optional ones keep their defaults if they are not read. -/
def fieldsCodec : Codec (Header × Option SaplingTxData × Option Bytes) :=
  Header.codec.dep fun h =>
    (Codec.optional h.isSaplingVersion (some {}) SaplingTxData.codec.option).pair
      (Codec.optional h.hasPayloadField none byteVector.option)

/-- `SerializeTransaction` and `UnserializeTransaction`. -/
def Transaction.codec : Codec Transaction :=
  fieldsCodec.iso (fun x => ⟨x.1, x.2.1, x.2.2⟩) (fun tx => (tx.toHeader, tx.sapData, tx.extraPayload)) (fun _ => rfl)
    (fun _ => rfl)

def Transaction.serialize (tx : Transaction) : Bytes := codec.write tx

def unserialize (b : Bytes) : Option (Transaction × Bytes) := Transaction.codec.read b

/-! ## Canonical encodings -/

theorem canonical_header : Header.codec.Canonical := by
  have hprevout : COutPoint.codec.Canonical := ((canonical_blob 32).pair (canonical_uintLE 4)).iso
  have hin : txInCodec.Canonical := (hprevout.pair (canonical_byteVector.pair (canonical_uintLE 4))).iso
  have hout : TxOut.codec.Canonical := ((canonical_uintLE 8).pair canonical_byteVector).iso
  exact ((canonical_uintLE 2).pair ((canonical_uintLE 2).pair ((canonical_vector hin).pair
    ((canonical_vector hout).pair (canonical_uintLE 4))))).iso

theorem canonical_saplingTxData : SaplingTxData.codec.Canonical := by
  have h := canonical_blob 32
  have hspend : SpendDescription.codec.Canonical :=
    (h.pair (h.pair (h.pair (h.pair ((canonical_blob 192).pair (canonical_blob 64)))))).iso
  have hout : OutputDescription.codec.Canonical :=
    (h.pair (h.pair (h.pair ((canonical_blob 580).pair ((canonical_blob 80).pair (canonical_blob 192)))))).iso
  exact ((canonical_uintLE 8).pair ((canonical_vector hspend).pair ((canonical_vector hout).pair
    (canonical_blob 64)))).iso

/-- The bytes before the optional fields. -/
def discriminants (b : Bytes) : List UInt8 :=
  match Header.codec.read b with
  | none => []
  | some (h, r) =>
    (if h.isSaplingVersion then r.take 1 else []) ++
      if h.hasPayloadField then ((SaplingTxData.codec.option.read r).elim [] fun x => x.2.take 1) else []

structure Transaction.Encodable (tx : Transaction) : Prop where
  vin : tx.vin.length ≤ MAX_SIZE ∧ ∀ txin ∈ tx.vin, txin.scriptSig.length ≤ MAX_SIZE
  vout : tx.vout.length ≤ MAX_SIZE ∧ ∀ txout ∈ tx.vout, txout.scriptPubKey.length ≤ MAX_SIZE
  sapData : if tx.isSaplingVersion then ∀ d, tx.sapData = some d →
      d.vShieldedSpend.length ≤ MAX_SIZE ∧ d.vShieldedOutput.length ≤ MAX_SIZE
    else tx.sapData = some {}
  extraPayload : if tx.hasPayloadField then ∀ p, tx.extraPayload = some p → p.length ≤ MAX_SIZE
    else tx.extraPayload = none

theorem Header.valid_iff (h : Header) : codec.valid h ↔
    (h.vin.length ≤ MAX_SIZE ∧ ∀ txin ∈ h.vin, txin.scriptSig.length ≤ MAX_SIZE) ∧
      h.vout.length ≤ MAX_SIZE ∧ ∀ txout ∈ h.vout, txout.scriptPubKey.length ≤ MAX_SIZE := by
  constructor
  · rintro ⟨-, -, ⟨hlen, hin⟩, ⟨hlen', hout⟩, -⟩
    exact ⟨⟨hlen, fun i hi => (hin i hi).2.1.1⟩, hlen', fun o ho => (hout o ho).2.1⟩
  · rintro ⟨⟨hlen, hin⟩, hlen', hout⟩
    exact ⟨trivial, trivial, ⟨hlen, fun i hi => ⟨⟨trivial, trivial⟩, ⟨hin i hi, fun _ _ => trivial⟩, trivial⟩⟩,
      ⟨hlen', fun o ho => ⟨trivial, hout o ho, fun _ _ => trivial⟩⟩, trivial⟩

theorem SaplingTxData.valid_iff (d : SaplingTxData) : codec.valid d ↔
    d.vShieldedSpend.length ≤ MAX_SIZE ∧ d.vShieldedOutput.length ≤ MAX_SIZE := by
  constructor
  · rintro ⟨-, hspend, hout, -⟩
    exact ⟨hspend.1, hout.1⟩
  · rintro ⟨hspend, hout⟩
    exact ⟨trivial, ⟨hspend, fun _ _ => ⟨trivial, trivial, trivial, trivial, trivial, trivial⟩⟩,
      ⟨hout, fun _ _ => ⟨trivial, trivial, trivial, trivial, trivial, trivial⟩⟩, trivial⟩

theorem Transaction.valid_iff (tx : Transaction) : codec.valid tx ↔ tx.Encodable := by
  have hvalid : codec.valid tx ↔ Header.codec.valid tx.toHeader ∧
      (if tx.isSaplingVersion then ∀ d, tx.sapData = some d → SaplingTxData.codec.valid d else tx.sapData = some {}) ∧
        if tx.hasPayloadField then ∀ p, tx.extraPayload = some p → byteVector.valid p else tx.extraPayload = none :=
    Iff.rfl
  have hpayload : ∀ p, byteVector.valid p ↔ p.length ≤ MAX_SIZE := fun p =>
    ⟨fun h => h.1, fun h => ⟨h, fun _ _ => trivial⟩⟩
  rw [hvalid, Header.valid_iff]
  simp only [SaplingTxData.valid_iff, hpayload]
  exact ⟨fun h => ⟨h.1.1, h.1.2, h.2.1, h.2.2⟩, fun h => ⟨⟨h.vin, h.vout⟩, h.sapData, h.extraPayload⟩⟩

variable {b rest : Bytes} {tx : Transaction}

theorem fields_of_unserialize (h : unserialize b = some (tx, rest)) :
    ∃ r₁ r₂, Header.codec.read b = some (tx.toHeader, r₁) ∧
      (Codec.optional tx.isSaplingVersion (some {}) SaplingTxData.codec.option).read r₁ = some (tx.sapData, r₂) ∧
      (Codec.optional tx.hasPayloadField none byteVector.option).read r₂ = some (tx.extraPayload, rest) := by
  have hfields : fieldsCodec.read b = some ((tx.toHeader, tx.sapData, tx.extraPayload), rest) := by
    have hiso := Codec.read_iso h
    exact hiso
  obtain ⟨r₁, hheader, hbody⟩ := Codec.read_dep hfields
  obtain ⟨r₂, hsap, hpayload⟩ := Codec.read_dep hbody
  exact ⟨r₁, r₂, hheader, hsap, hpayload⟩

theorem reserialize_iff (h : unserialize b = some (tx, rest)) :
    tx.serialize ++ rest = b ↔ ∀ d ∈ discriminants b, d ≤ 1 := by
  obtain ⟨r₁, r₂, hheader, hsap, hpayload⟩ := fields_of_unserialize h
  have hwrite : tx.serialize = Header.codec.write tx.toHeader ++
      ((if tx.isSaplingVersion then SaplingTxData.codec.option.write tx.sapData else []) ++
        if tx.hasPayloadField then byteVector.option.write tx.extraPayload else []) := rfl
  have hdisc : discriminants b = (if tx.isSaplingVersion then r₁.take 1 else []) ++
      if tx.hasPayloadField then ((SaplingTxData.codec.option.read r₁).elim [] fun x => x.2.take 1) else [] := by
    rw [discriminants, hheader]
  rw [hwrite, hdisc, ← canonical_header _ _ _ hheader, List.append_assoc, List.append_cancel_left_eq]
  cases hversion : tx.isSaplingVersion with
  | false =>
    have htype : tx.hasPayloadField = false := by rw [Header.hasPayloadField, hversion, Bool.false_and]
    rw [hversion] at hsap
    rw [htype] at hpayload ⊢
    obtain ⟨-, rfl⟩ := Prod.mk.inj (Option.some.inj hsap)
    obtain ⟨-, rfl⟩ := Prod.mk.inj (Option.some.inj hpayload)
    simp
  | true =>
    rw [hversion] at hsap
    obtain ⟨d₁, rfl, -, hd₁⟩ := Codec.read_option canonical_saplingTxData hsap
    cases htype : tx.hasPayloadField with
    | false =>
      rw [htype] at hpayload
      obtain ⟨-, rfl⟩ := Prod.mk.inj (Option.some.inj hpayload)
      simp [Codec.write_option, hd₁]
    | true =>
      rw [htype] at hpayload
      obtain ⟨d₂, rfl, -, hd₂⟩ := Codec.read_option canonical_byteVector hpayload
      have hread : SaplingTxData.codec.option.read _ = some (tx.sapData, _) := hsap
      simp [Codec.write_option, hd₁, hd₂, hread]

/-- **Canonical transaction encoding.** A transaction is read back if and only if its vectors fit and it has no data that
its version and type do not write. Bytes that are read are written again if and only if the discriminants of the optional
fields are zero or one. Two transactions that are read back have different bytes. -/
theorem canonical_encoding_iff (tx : Transaction) (b : Bytes) :
    (unserialize tx.serialize = some (tx, []) ↔ tx.Encodable) ∧
    (∀ (rest : Bytes) (tx' : Transaction), unserialize b = some (tx', rest) →
      (tx'.serialize ++ rest = b ↔ ∀ d ∈ discriminants b, d ≤ 1)) ∧
    ∀ tx' : Transaction, tx.Encodable → tx'.Encodable → tx.serialize = tx'.serialize → tx = tx' := by
  refine ⟨?_, fun rest tx' h => reserialize_iff h, fun tx' h h' heq => ?_⟩
  · rw [← tx.valid_iff]
    exact ⟨fun h => Transaction.codec.read_valid _ _ _ h, fun h => Transaction.codec.read_write_nil h⟩
  · exact Transaction.codec.write_injective (tx.valid_iff.mpr h) (tx'.valid_iff.mpr h') heq

/-- The empty transaction of version 3 with default Sapling data, after a given discriminant. -/
def emptySapling (d : UInt8) : Bytes := [3, 0, 0, 0, 0, 0, 0, 0, 0, 0, d] ++ List.replicate 74 0

/-- Bytes with the discriminant 2 are read, and written with the discriminant 1. -/
theorem second_encoding : (unserialize (emptySapling 2)).map (fun x => (x.1.serialize, x.2)) =
    some (emptySapling 1, []) ∧ emptySapling 1 ≠ emptySapling 2 := by
  decide +kernel

/-! ## Transactions without inputs or outputs -/

/-- The fields that the other modules read. -/
def SaplingTxData.toSaplingTxData (d : SaplingTxData) : TrumpCoin.SaplingTxData where
  valueBalance := d.valueBalance.toInt
  vShieldedSpend := d.vShieldedSpend.map fun spend => ⟨spend.anchor, spend.nullifier⟩
  vShieldedOutput := d.vShieldedOutput.map fun out => ⟨out.cmu⟩
  bindingSig := (blob 64).write d.bindingSig

/-- The transaction as the other modules see it; `serializeHash` is the double hash of the bytes. -/
def Transaction.toCTransaction (serializeHash : Bytes → uint256) (tx : Transaction) : CTransaction where
  nVersion := Int16.ofBitVec tx.nVersion
  nType := Int16.ofBitVec tx.nType
  vin := tx.vin
  vout := tx.vout.map fun txout => ⟨txout.nValue.toInt, txout.scriptPubKey⟩
  nLockTime := tx.nLockTime
  sapData := tx.sapData.map SaplingTxData.toSaplingTxData
  extraPayload := tx.extraPayload
  hash := serializeHash tx.serialize

structure Transaction.Nonempty (tx : Transaction) : Prop where
  inputs : tx.vin ≠ [] ∨ ∃ d, tx.sapData = some d ∧ d.vShieldedSpend ≠ []
  outputs : tx.vout ≠ [] ∨ ∃ d, tx.sapData = some d ∧ d.vShieldedOutput ≠ []

theorem sapData_eq_none_iff (h : unserialize b = some (tx, rest)) :
    tx.sapData = none ↔ (discriminants b).head? = some 0 := by
  obtain ⟨r₁, r₂, hheader, hsap, -⟩ := fields_of_unserialize h
  rw [discriminants, hheader]
  cases hversion : tx.isSaplingVersion with
  | false =>
    rw [hversion] at hsap
    obtain ⟨hdefault, -⟩ := Prod.mk.inj (Option.some.inj hsap)
    have htype : tx.hasPayloadField = false := by rw [Header.hasPayloadField, hversion, Bool.false_and]
    simp [← hdefault, hversion, htype]
  | true =>
    rw [hversion] at hsap
    obtain ⟨d, rfl, hd, -⟩ := Codec.read_option canonical_saplingTxData hsap
    simp [hversion, hd]

variable {p : CChainParams} {V : NodeChecks} {serializeHash : Bytes → uint256} {fColdStakingActive : Bool}

/-- **Non-empty transactions.** A transaction that was read and passes `CheckTransaction` has inputs and outputs if and
only if its bytes do not say that there are no Sapling data, or it has transparent inputs and outputs. -/
theorem nonempty_tx_iff {b rest : Bytes} {tx : Transaction} (hread : unserialize b = some (tx, rest))
    (hok : checkTransaction p V (tx.toCTransaction serializeHash) fColdStakingActive = .ok ()) :
    tx.Nonempty ↔ (discriminants b).head? ≠ some 0 ∨ tx.vin ≠ [] ∧ tx.vout ≠ [] := by
  rw [ne_eq, ← sapData_eq_none_iff hread]
  simp only [checkTransaction, bind_eq_ok, invalidUnless, require_eq_ok] at hok
  obtain ⟨_, hvin, _, hvout, -⟩ := hok
  constructor
  · rintro ⟨hin, hout⟩
    by_cases hnone : tx.sapData = none
    · rw [hnone] at hin hout
      exact .inr ⟨hin.resolve_right (by simp), hout.resolve_right (by simp)⟩
    · exact .inl hnone
  · rintro (hsome | ⟨hin, hout⟩)
    · obtain ⟨d, hd⟩ := Option.ne_none_iff_exists'.mp hsome
      simp only [Transaction.toCTransaction, hd, Option.map_some, Option.any_some, SaplingTxData.toSaplingTxData,
        List.isEmpty_map, List.map_eq_nil_iff, List.isEmpty_iff, not_and_or] at hvin hvout
      exact ⟨hvin.imp_right fun hne => ⟨d, hd, hne⟩, hvout.imp_right fun hne => ⟨d, hd, hne⟩⟩
    · exact ⟨.inl hin, .inl hout⟩

def shieldedData : SaplingTxData :=
  { valueBalance := 1, vShieldedSpend := [⟨1, 2, 3, 4, 5, 6⟩], vShieldedOutput := [⟨7, 8, 9, 10, 11, 12⟩] }

/-- A shielded spend for a shielded and a transparent output. -/
def unshielding : Transaction where
  nVersion := 3
  nType := 0
  vout := [⟨1, []⟩]
  sapData := some shieldedData

theorem nonempty_tx_iff_unshielding : unshielding.Nonempty ↔
    (discriminants unshielding.serialize).head? ≠ some 0 ∨ unshielding.vin ≠ [] ∧ unshielding.vout ≠ [] :=
  @nonempty_tx_iff CMainParams Sample.checks (fun _ => 0) true _ [] unshielding
    (Transaction.codec.read_write_nil (unshielding.valid_iff.mpr
      ⟨by decide, by decide, fun d hd => by cases hd; decide, rfl⟩)) (by decide +kernel)

/-- Eleven bytes of a transaction of version 3 without Sapling data, inputs and outputs that is accepted. -/
theorem empty_tx_accepted : ∃ tx, unserialize [3, 0, 0, 0, 0, 0, 0, 0, 0, 0, 0] = some (tx, []) ∧
    checkTransaction CMainParams Sample.checks (tx.toCTransaction fun _ => 0) true = .ok () ∧ ¬tx.Nonempty := by
  refine ⟨⟨⟨3, 0, [], [], 0⟩, none, none⟩, by rfl, by decide +kernel, fun h => ?_⟩
  obtain hin | ⟨d, hd, -⟩ := h.inputs
  · exact hin rfl
  · cases hd

end Wire

end TrumpCoin
