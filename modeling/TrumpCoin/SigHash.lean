import TrumpCoin.TxFormat

/-!
# Signature hashes of Sapling transactions

`SignatureHash` of `script/interpreter.cpp` for the signature version `SIGVERSION_SAPLING`, with the cache of
`PrecomputedTransactionData`. BLAKE2b with its personalization is a parameter.

* `signatureHash_cached`: the cache does not change the hash;
* `sighash_commits`: what a hash of the type `SIGHASH_ALL` commits to, if BLAKE2b has no collision.
-/

namespace TrumpCoin.Wire

open Lib

def SIGHASH_ALL : BitVec (8 * 4) := 1
def SIGHASH_NONE : BitVec (8 * 4) := 2
def SIGHASH_SINGLE : BitVec (8 * 4) := 3
def SIGHASH_ANYONECANPAY : BitVec (8 * 4) := 0x80

def NOT_AN_INPUT : Nat := 2 ^ 32 - 1

/-! ## What is hashed -/

/-- Any number of bytes after their compact size; `byteVector` writes the same, and reads up to `MAX_SIZE` of them. -/
def script : Codec CScript :=
  Codec.vector
    { write := writeCompactSize
      read := fun bs => (readCompactSizeForm bs).filter fun r => r.1 < 2 ^ 64
      valid := fun n => n < 2 ^ 64
      read_write := fun n h rest => by rw [readCompactSizeForm_write h, Option.filter_some_pos (by simpa using h)]
      read_valid := fun bs n rest h => by simpa using (Option.filter_eq_some_iff.mp h).2 }
    Codec.byte

def txOut : Codec TxOut :=
  ((uintLE 8).pair script).iso (fun x => ⟨x.1, x.2⟩) (fun o => (o.nValue, o.scriptPubKey)) (fun _ => rfl) (fun _ => rfl)

/-- What is signed of a spend: all but `spendAuthSig`. -/
def SpendDescription.signed (d : SpendDescription) : uint256 × uint256 × uint256 × uint256 × BitVec (8 * 192) :=
  (d.cv, d.anchor, d.nullifier, d.rk, d.zkproof)

def signedSpend : Codec (uint256 × uint256 × uint256 × uint256 × BitVec (8 * 192)) :=
  (blob 32).pair ((blob 32).pair ((blob 32).pair ((blob 32).pair (blob 192))))

/-- The fields before the extra payload. The Sapling fields and those of the input are not always there. -/
abbrev SignedFields : Type := BitVec (8 * 2) × BitVec (8 * 2) × uint256 × uint256 × uint256 ×
  (uint256 × uint256 × BitVec (8 * 8)) × (COutPoint × CScript × BitVec (8 * 8) × BitVec (8 * 4))

def signedFields (hasSapData isInput : Bool) : Codec SignedFields :=
  (uintLE 2).pair ((uintLE 2).pair ((blob 32).pair ((blob 32).pair ((blob 32).pair
    ((Codec.optional hasSapData (0, 0, 0) ((blob 32).pair ((blob 32).pair (uintLE 8)))).pair
      (Codec.optional isInput ({}, [], 0, 0) (COutPoint.codec.pair (script.pair ((uintLE 8).pair (uintLE 4))))))))))

/-- The parts of a transaction that are hashed on their own: the fields of `PrecomputedTransactionData`. -/
inductive HashedPart where
  | hashPrevouts | hashSequence | hashOutputs | hashShieldedSpends | hashShieldedOutputs

def HashedPart.personalization : HashedPart → String
  | hashPrevouts => "PIVXPrevoutHash"
  | hashSequence => "PIVXSequencHash"
  | hashOutputs => "PIVXOutputsHash"
  | hashShieldedSpends => "PIVXSSpendsHash"
  | hashShieldedOutputs => "PIVXSOutputHash"

abbrev PrecomputedTransactionData : Type := HashedPart → uint256

namespace Transaction

variable (tx : Transaction)

def spends : List SpendDescription := tx.sapData.elim [] SaplingTxData.vShieldedSpend

def outputs : List OutputDescription := tx.sapData.elim [] SaplingTxData.vShieldedOutput

def valueBalance : BitVec (8 * 8) := tx.sapData.elim 0 SaplingTxData.valueBalance

def hasSapData : Bool := ¬(tx.spends = [] ∧ tx.outputs = [])

/-- The extra payload of a special transaction (`IsSpecialTx`). -/
def specialPayload : Option Bytes := tx.extraPayload.filter fun p => tx.hasPayloadField && !p.isEmpty

def signedInput (nIn : Nat) : Option CTxIn := if nIn = NOT_AN_INPUT then none else tx.vin[nIn]?

/-- What `GetPrevoutHash`, `GetSequenceHash`, `GetOutputsHash`, `GetShieldedSpendsHash` and `GetShieldedOutputsHash`
write. -/
def partBytes : HashedPart → Bytes
  | .hashPrevouts => (tx.vin.map CTxIn.prevout).flatMap COutPoint.codec.write
  | .hashSequence => (tx.vin.map CTxIn.nSequence).flatMap (uintLE 4).write
  | .hashOutputs => tx.vout.flatMap txOut.write
  | .hashShieldedSpends => (tx.spends.map SpendDescription.signed).flatMap signedSpend.write
  | .hashShieldedOutputs => tx.outputs.flatMap OutputDescription.codec.write

/-! ## The hash -/

section Hash

variable (blake2b : String → Bytes → uint256)

def partHash (part : HashedPart) : uint256 := blake2b part.personalization (tx.partBytes part)

def precomputed : PrecomputedTransactionData
  | .hashShieldedSpends => if tx.sapData.isSome then tx.partHash blake2b .hashShieldedSpends else 0
  | .hashShieldedOutputs => if tx.sapData.isSome then tx.partHash blake2b .hashShieldedOutputs else 0
  | part => tx.partHash blake2b part

variable (scriptCode : CScript) (nIn : Nat) (nHashType : BitVec (8 * 4)) (amount : BitVec (8 * 8))

/-- What is written before the extra payload; `hashes` is the cache, or computes the hashes. -/
def signedParts (hashes : PrecomputedTransactionData) : SignedFields :=
  let anyoneCanPay := nHashType &&& SIGHASH_ANYONECANPAY ≠ 0
  let all := nHashType &&& 0x1f ≠ SIGHASH_SINGLE ∧ nHashType &&& 0x1f ≠ SIGHASH_NONE
  let one := if nHashType &&& 0x1f = SIGHASH_SINGLE then tx.vout[nIn]? else none
  (tx.nVersion, tx.nType,
    if anyoneCanPay then 0 else hashes .hashPrevouts,
    if ¬anyoneCanPay ∧ all then hashes .hashSequence else 0,
    if all then hashes .hashOutputs
    else one.elim 0 fun txout => blake2b HashedPart.hashOutputs.personalization (txOut.write txout),
    if tx.hasSapData then
      (if tx.spends = [] then 0 else hashes .hashShieldedSpends,
        if tx.outputs = [] then 0 else hashes .hashShieldedOutputs, tx.valueBalance)
    else (0, 0, 0),
    (tx.signedInput nIn).elim ({}, [], 0, 0) fun txin => (txin.prevout, scriptCode, amount, txin.nSequence))

/-- The extra payload of a special transaction, the lock time and the hash type. -/
def signedTail : Bytes :=
  (tx.specialPayload.elim [] script.write) ++ ((uintLE 4).write tx.nLockTime ++ (uintLE 4).write nHashType)

def preimage (hashes : PrecomputedTransactionData) : Bytes :=
  (signedFields tx.hasSapData (tx.signedInput nIn).isSome).write
    (tx.signedParts blake2b scriptCode nIn nHashType amount hashes) ++ tx.signedTail nHashType

/-- `SignatureHash` with `SIGVERSION_SAPLING`; the personalization ends with the bytes of branch 0. -/
def signatureHash (cache : Option PrecomputedTransactionData) : uint256 :=
  if tx.vin.length ≤ nIn ∧ nIn ≠ NOT_AN_INPUT then 1
  else blake2b "TrumpCoinSig"
    (tx.preimage blake2b scriptCode nIn nHashType amount (cache.getD (tx.partHash blake2b)))

theorem signatureHash_cached : tx.signatureHash blake2b scriptCode nIn nHashType amount (tx.precomputed blake2b) =
    tx.signatureHash blake2b scriptCode nIn nHashType amount none := by
  have hspends : tx.spends ≠ [] → tx.sapData.isSome = true := by
    unfold spends
    cases tx.sapData <;> simp
  have houtputs : tx.outputs ≠ [] → tx.sapData.isSome = true := by
    unfold outputs
    cases tx.sapData <;> simp
  have hparts : tx.signedParts blake2b scriptCode nIn nHashType amount (tx.precomputed blake2b) =
      tx.signedParts blake2b scriptCode nIn nHashType amount (tx.partHash blake2b) := by
    unfold signedParts precomputed
    by_cases hs : tx.spends = [] <;> by_cases ho : tx.outputs = [] <;> simp [hs, ho, hspends, houtputs]
  rw [signatureHash, signatureHash, preimage, preimage, Option.getD_some, Option.getD_none, hparts]

end Hash

/-! ## The bytes determine the fields -/

/-- The byte vectors have a length that a machine can address. -/
structure Sized : Prop where
  vout : ∀ txout ∈ tx.vout, txout.scriptPubKey.length < 2 ^ 64
  extraPayload : ∀ p, tx.extraPayload = some p → p.length < 2 ^ 64

end Transaction

theorem proper_blob {n : Nat} (h : 0 < n) : (blob n).Proper :=
  fun x => List.ne_nil_of_length_pos (by rwa [length_write_blob])

theorem proper_uintLE {n : Nat} (h : 0 < n) : (uintLE n).Proper :=
  fun x => List.ne_nil_of_length_pos (by rwa [length_write_uintLE])

theorem script_valid {s : CScript} (h : s.length < 2 ^ 64) : script.valid s := ⟨h, fun _ _ => trivial⟩

theorem proper_script : script.Proper := by
  intro s
  refine List.append_ne_nil_of_left_ne_nil ?_ _
  show writeCompactSize s.length ≠ []
  unfold writeCompactSize
  split_ifs <;> exact List.cons_ne_nil _ _

namespace Transaction

variable {tx tx' : Transaction}

theorem prevouts_inj (h : tx.partBytes .hashPrevouts = tx'.partBytes .hashPrevouts) :
    tx.vin.map CTxIn.prevout = tx'.vin.map CTxIn.prevout :=
  COutPoint.codec.flatMap_inj (proper_blob (by decide)).pair.iso (fun _ _ => ⟨trivial, trivial⟩) (fun _ _ => ⟨trivial, trivial⟩) h

theorem sequences_inj (h : tx.partBytes .hashSequence = tx'.partBytes .hashSequence) :
    tx.vin.map CTxIn.nSequence = tx'.vin.map CTxIn.nSequence :=
  (uintLE 4).flatMap_inj (proper_uintLE (by decide)) (fun _ _ => trivial) (fun _ _ => trivial) h

theorem vout_inj (hsize : tx.Sized) (hsize' : tx'.Sized) (h : tx.partBytes .hashOutputs = tx'.partBytes .hashOutputs) :
    tx.vout = tx'.vout :=
  txOut.flatMap_inj (proper_uintLE (by decide)).pair.iso (fun o ho => ⟨trivial, script_valid (hsize.vout o ho)⟩)
    (fun o ho => ⟨trivial, script_valid (hsize'.vout o ho)⟩) h

theorem spends_inj (h : tx.partBytes .hashShieldedSpends = tx'.partBytes .hashShieldedSpends) :
    tx.spends.map SpendDescription.signed = tx'.spends.map SpendDescription.signed :=
  signedSpend.flatMap_inj (proper_blob (by decide)).pair (fun _ _ => ⟨trivial, trivial, trivial, trivial, trivial⟩)
    (fun _ _ => ⟨trivial, trivial, trivial, trivial, trivial⟩) h

theorem outputs_inj (h : tx.partBytes .hashShieldedOutputs = tx'.partBytes .hashShieldedOutputs) :
    tx.outputs = tx'.outputs :=
  OutputDescription.codec.flatMap_inj (proper_blob (by decide)).pair.iso
    (fun _ _ => ⟨trivial, trivial, trivial, trivial, trivial, trivial⟩)
    (fun _ _ => ⟨trivial, trivial, trivial, trivial, trivial, trivial⟩) h

variable {blake2b : String → Bytes → uint256} {scriptCode scriptCode' : CScript} {nIn : Nat} {nHashType : BitVec (8 * 4)}
  {amount amount' : BitVec (8 * 8)}

theorem signedParts_valid (hscript : scriptCode.length < 2 ^ 64) (hashes : PrecomputedTransactionData) :
    (signedFields tx.hasSapData (tx.signedInput nIn).isSome).valid
      (tx.signedParts blake2b scriptCode nIn nHashType amount hashes) := by
  refine ⟨trivial, trivial, trivial, trivial, trivial, ?_, ?_⟩
  · unfold signedParts
    cases tx.hasSapData with
    | true => exact ⟨trivial, trivial, trivial⟩
    | false => rfl
  · unfold signedParts
    cases tx.signedInput nIn with
    | some txin => exact ⟨⟨trivial, trivial⟩, script_valid hscript, trivial, trivial⟩
    | none => rfl

theorem signedTail_inj (hsize : tx.Sized) (hsize' : tx'.Sized) (h : tx.signedTail nHashType = tx'.signedTail nHashType) :
    tx.specialPayload = tx'.specialPayload ∧ tx.nLockTime = tx'.nLockTime := by
  have hvalid : ∀ {tx : Transaction}, tx.Sized → ∀ p, tx.specialPayload = some p → script.valid p := fun hsize p hp =>
    script_valid (hsize.extraPayload p (Option.filter_eq_some_iff.mp hp).1)
  -- the last eight bytes are the lock time and the hash type
  obtain ⟨hpayload, hlast⟩ := List.append_inj' h (by simp only [List.length_append, length_write_uintLE])
  refine ⟨?_, ((uintLE 4).append_inj trivial trivial hlast).1⟩
  cases hp : tx.specialPayload with
  | none =>
    cases hp' : tx'.specialPayload with
    | none => rfl
    | some p =>
      rw [hp, hp'] at hpayload
      exact absurd hpayload.symm (proper_script p)
  | some p =>
    cases hp' : tx'.specialPayload with
    | none =>
      rw [hp, hp'] at hpayload
      exact absurd hpayload (proper_script p)
    | some p' =>
      rw [hp, hp'] at hpayload
      rw [script.write_injective (hvalid hsize p hp) (hvalid hsize' p' hp') hpayload]

theorem not_hasSapData (hno : tx.hasSapData = false) : tx.spends = [] ∧ tx.outputs = [] := by
  simpa [hasSapData] using hno

theorem valueBalance_eq_zero {p : CChainParams} {V : NodeChecks} {serializeHash : Bytes → uint256} {f : Bool}
    (hok : checkTransaction p V (tx.toCTransaction serializeHash) f = .ok ()) (hno : tx.hasSapData = false) :
    tx.valueBalance = 0 := by
  simp only [checkTransaction, bind_eq_ok, invalidUnless, require_eq_ok] at hok
  obtain ⟨_, -, _, -, _, -, _, -, v, hsap, -⟩ := hok
  simp only [checkSaplingTransaction, bind_eq_ok, toCTransaction] at hsap
  obtain ⟨_, -, hsap⟩ := hsap
  cases hd : tx.sapData with
  | none => rw [valueBalance, hd, Option.elim]
  | some d =>
    have hempty : d.vShieldedSpend = [] ∧ d.vShieldedOutput = [] := by
      simpa [Transaction.spends, outputs, hd] using not_hasSapData hno
    rw [valueBalance, hd, Option.elim]
    by_contra hne
    have hint : d.valueBalance.toInt ≠ 0 := fun h0 => hne (BitVec.eq_of_toInt_eq h0)
    simp [hd, CTransaction.hasSaplingData, SaplingTxData.toSaplingTxData, hint, bind_eq_ok, invalidUnless,
      hempty] at hsap

/-! ## What is signed -/

/-- BLAKE2b has no collision among these inputs, and maps none of them to zero. -/
structure Ideal (blake2b : String → Bytes → uint256) (queries : List (String × Bytes)) : Prop where
  injective : ∀ q ∈ queries, ∀ q' ∈ queries, blake2b q.1 q.2 = blake2b q'.1 q'.2 → q = q'
  nonzero : ∀ q ∈ queries, blake2b q.1 q.2 ≠ 0

variable (tx blake2b scriptCode nIn amount) in
/-- All that is hashed for a signature of the type `SIGHASH_ALL`. -/
def queries : List (String × Bytes) :=
  ("TrumpCoinSig", tx.preimage blake2b scriptCode nIn SIGHASH_ALL amount (tx.partHash blake2b)) ::
    [.hashPrevouts, .hashSequence, .hashOutputs, .hashShieldedSpends, .hashShieldedOutputs].map fun part =>
      (part.personalization, tx.partBytes part)

/-- What a signature of the type `SIGHASH_ALL` fixes of the transaction. -/
structure SameSigned (tx tx' : Transaction) : Prop where
  nVersion : tx.nVersion = tx'.nVersion
  nType : tx.nType = tx'.nType
  prevouts : tx.vin.map CTxIn.prevout = tx'.vin.map CTxIn.prevout
  sequences : tx.vin.map CTxIn.nSequence = tx'.vin.map CTxIn.nSequence
  vout : tx.vout = tx'.vout
  spends : tx.spends.map SpendDescription.signed = tx'.spends.map SpendDescription.signed
  outputs : tx.outputs = tx'.outputs
  valueBalance : tx.valueBalance = tx'.valueBalance
  payload : tx.specialPayload = tx'.specialPayload
  nLockTime : tx.nLockTime = tx'.nLockTime

section Commits

variable (hin : nIn = NOT_AN_INPUT ∨ nIn < tx.vin.length ∧ nIn < tx'.vin.length)
  (hideal : Ideal blake2b (tx.queries blake2b scriptCode nIn amount ++ tx'.queries blake2b scriptCode' nIn amount'))

include hideal in
theorem Ideal.part (part : HashedPart) : tx.partHash blake2b part ≠ 0 ∧ tx'.partHash blake2b part ≠ 0 ∧
    (tx.partHash blake2b part = tx'.partHash blake2b part → tx.partBytes part = tx'.partBytes part) := by
  have hmem : ∀ (tx : Transaction) scriptCode amount,
      (part.personalization, tx.partBytes part) ∈ tx.queries blake2b scriptCode nIn amount := by
    intro tx scriptCode amount
    refine List.mem_cons_of_mem _ (List.mem_map.mpr ⟨part, ?_, rfl⟩)
    cases part <;> simp
  have hl := List.mem_append_left (tx'.queries blake2b scriptCode' nIn amount') (hmem tx scriptCode amount)
  have hr := List.mem_append_right (tx.queries blake2b scriptCode nIn amount) (hmem tx' scriptCode' amount')
  exact ⟨hideal.nonzero _ hl, hideal.nonzero _ hr, fun h => congrArg Prod.snd (hideal.injective _ hl _ hr h)⟩

include hin in
theorem signedInput_isSome : (tx.signedInput nIn).isSome = (tx'.signedInput nIn).isSome := by
  unfold signedInput
  obtain rfl | ⟨hlt, hlt'⟩ := hin
  · rfl
  · split
    · rfl
    · rw [List.getElem?_eq_getElem hlt, List.getElem?_eq_getElem hlt']
      rfl

include hin hideal in
theorem parts_eq_of_sighash (hscript : scriptCode.length < 2 ^ 64) (hscript' : scriptCode'.length < 2 ^ 64)
    (hsap : tx.hasSapData = tx'.hasSapData)
    (heq : tx.signatureHash blake2b scriptCode nIn SIGHASH_ALL amount none =
      tx'.signatureHash blake2b scriptCode' nIn SIGHASH_ALL amount' none) :
    tx.signedParts blake2b scriptCode nIn SIGHASH_ALL amount (tx.partHash blake2b) =
      tx'.signedParts blake2b scriptCode' nIn SIGHASH_ALL amount' (tx'.partHash blake2b) ∧
    tx.signedTail SIGHASH_ALL = tx'.signedTail SIGHASH_ALL := by
  rw [signatureHash, signatureHash, if_neg (by omega), if_neg (by omega)] at heq
  have hpre := congrArg Prod.snd (hideal.injective _ (List.mem_append_left _ List.mem_cons_self) _
    (List.mem_append_right _ List.mem_cons_self) heq)
  have hvalid := @signedParts_valid tx blake2b scriptCode nIn SIGHASH_ALL amount hscript (tx.partHash blake2b)
  unfold preimage at hpre
  rw [hsap, signedInput_isSome hin] at hpre hvalid
  exact Codec.append_inj _ hvalid (signedParts_valid hscript' _) hpre

end Commits

/-- Two lists are empty, or their hashes agree. -/
theorem nil_or_hash_eq {α : Type} {l l' : List α} {h h' : uint256} (h0 : h ≠ 0) (h0' : h' ≠ 0)
    (heq : (if l = [] then 0 else h) = if l' = [] then 0 else h') : l = [] ∧ l' = [] ∨ h = h' := by
  split at heq <;> split at heq
  · exact .inl ⟨‹_›, ‹_›⟩
  · exact absurd heq.symm h0'
  · exact absurd heq h0
  · exact .inr heq

/-- **Signature hashes.** Two accepted transactions, both with shielded spends or outputs or both without, that have the
same hash of the type `SIGHASH_ALL` for an input agree in all that is signed. The cache does not change a hash. -/
theorem sighash_commits {p : CChainParams} {V : NodeChecks} {serializeHash : Bytes → uint256} {f : Bool}
    (hok : checkTransaction p V (tx.toCTransaction serializeHash) f = .ok ())
    (hok' : checkTransaction p V (tx'.toCTransaction serializeHash) f = .ok ())
    (hsize : tx.Sized) (hsize' : tx'.Sized) (hscript : scriptCode.length < 2 ^ 64) (hscript' : scriptCode'.length < 2 ^ 64)
    (hsap : tx.hasSapData = tx'.hasSapData)
    (hin : nIn = NOT_AN_INPUT ∨ nIn < tx.vin.length ∧ nIn < tx'.vin.length)
    (hideal : Ideal blake2b (tx.queries blake2b scriptCode nIn amount ++ tx'.queries blake2b scriptCode' nIn amount'))
    (heq : tx.signatureHash blake2b scriptCode nIn SIGHASH_ALL amount none =
      tx'.signatureHash blake2b scriptCode' nIn SIGHASH_ALL amount' none) :
    tx.SameSigned tx' ∧ (nIn ≠ NOT_AN_INPUT → scriptCode = scriptCode' ∧ amount = amount') ∧
      ∀ t, tx.signatureHash blake2b scriptCode nIn t amount (tx.precomputed blake2b) =
        tx.signatureHash blake2b scriptCode nIn t amount none := by
  obtain ⟨hparts, htail⟩ := parts_eq_of_sighash hin hideal hscript hscript' hsap heq
  simp only [signedParts, Prod.mk.injEq] at hparts
  obtain ⟨hversion, htype, hprevouts, hsequences, hvouts, hsapling, hinput⟩ := hparts
  obtain ⟨hpayload, hlock⟩ := signedTail_inj hsize hsize' htail
  have hshielded : tx.spends.map SpendDescription.signed = tx'.spends.map SpendDescription.signed ∧
      tx.outputs = tx'.outputs ∧ tx.valueBalance = tx'.valueBalance := by
    cases hdata : tx.hasSapData with
    | false =>
      have hdata' := hsap.symm.trans hdata
      obtain ⟨hs, ho⟩ := not_hasSapData hdata
      obtain ⟨hs', ho'⟩ := not_hasSapData hdata'
      rw [hs, ho, hs', ho', valueBalance_eq_zero hok hdata, valueBalance_eq_zero hok' hdata']
      exact ⟨rfl, rfl, rfl⟩
    | true =>
      rw [← hsap, hdata, if_pos rfl, if_pos rfl] at hsapling
      simp only [Prod.mk.injEq] at hsapling
      obtain ⟨hspends, houtputs, hbalance⟩ := hsapling
      refine ⟨?_, ?_, hbalance⟩
      · obtain ⟨h0, h0', hinj⟩ := hideal.part .hashShieldedSpends
        obtain ⟨hnil, hnil'⟩ | hhash := nil_or_hash_eq h0 h0' hspends
        · rw [hnil, hnil']
        · exact spends_inj (hinj hhash)
      · obtain ⟨h0, h0', hinj⟩ := hideal.part .hashShieldedOutputs
        obtain ⟨hnil, hnil'⟩ | hhash := nil_or_hash_eq h0 h0' houtputs
        · rw [hnil, hnil']
        · exact outputs_inj (hinj hhash)
  refine ⟨⟨hversion, htype, prevouts_inj ((hideal.part _).2.2 hprevouts), sequences_inj ((hideal.part _).2.2 hsequences),
    vout_inj hsize hsize' ((hideal.part _).2.2 hvouts), hshielded.1, hshielded.2.1, hshielded.2.2, hpayload, hlock⟩,
    fun hne => ?_, fun t => signatureHash_cached tx blake2b scriptCode nIn t amount⟩
  obtain ⟨hlt, hlt'⟩ := hin.resolve_left hne
  simp only [signedInput, if_neg hne, List.getElem?_eq_getElem hlt, List.getElem?_eq_getElem hlt', Option.elim,
    Prod.mk.injEq] at hinput
  exact ⟨hinput.2.1, hinput.2.2.1⟩

/-- A transparent input besides the shielded spend. -/
def mixed : Transaction := { unshielding with vin := [{ prevout := { hash := 1, n := 0 } }] }

/-- The same transaction with another `scriptSig` and another binding signature. -/
theorem sighash_commits_scriptSig :
    let tx' := { mixed with
      vin := mixed.vin.map fun txin => { txin with scriptSig := [1] }
      sapData := some { shieldedData with bindingSig := 1 } }
    mixed.SameSigned tx' := by
  intro tx'
  -- told apart by the number of bytes and the letters of the personalization
  let blake2b (s : String) (b : Bytes) : uint256 := BitVec.ofNat 256 (1 + b.length + 1000 * (s.toList.map Char.toNat).sum)
  have h := @sighash_commits mixed tx' blake2b [] [] 0 0 0 CMainParams Sample.checks (fun _ => 0) true
    (by decide +kernel) (by decide +kernel) ⟨by decide, fun p hp => by cases hp⟩ ⟨by decide, fun p hp => by cases hp⟩
    (by decide) (by decide) (by decide +kernel) (.inr ⟨Nat.one_pos, Nat.one_pos⟩) ⟨by decide +kernel, by decide +kernel⟩
    (by decide +kernel)
  exact h.1

/-- No payload and an empty one are not told apart. -/
theorem empty_payload_unsigned : let tx (extraPayload : Option Bytes) : Transaction :=
      { mixed with nType := 1, extraPayload := extraPayload }
    checkTransaction CMainParams Sample.checks ((tx none).toCTransaction fun _ => 0) true = .ok () ∧
      checkTransaction CMainParams Sample.checks ((tx (some [])).toCTransaction fun _ => 0) true = .ok () ∧
      (∀ blake2b scriptCode nIn amount, (tx none).signatureHash blake2b scriptCode nIn SIGHASH_ALL amount none =
        (tx (some [])).signatureHash blake2b scriptCode nIn SIGHASH_ALL amount none) ∧
      (tx none).extraPayload ≠ (tx (some [])).extraPayload := by
  refine ⟨by decide +kernel, by decide +kernel, fun _ _ _ _ => rfl, by decide⟩

end Transaction

end TrumpCoin.Wire
