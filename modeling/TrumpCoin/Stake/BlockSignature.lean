import Mathlib.Logic.Equiv.Basic
import TrumpCoin.Script.Templates

/-!
# Block signatures

`CheckBlockSignature` (`blocksignature.cpp`) takes the key of a staker from fixed positions of the coinstake's first
`scriptSig`: what follows the first push (P2PKH) or the first two pushes (P2CS), up to the end. The script machine runs
the same bytes as a program, which need not consist of pushes.

* `key_of_checkBlockSignature`: the signature verifies under the bytes at that position;
* `block_signature_binds_iff`: when they are a key of the staked output.
-/

namespace TrumpCoin

open Lib

structure SignedBlock extends CBlock where
  vchBlockSig : Bytes

/-- What follows the push that starts at position `start`: nothing if the push is all there is. -/
def skipPush (scriptSig : CScript) (start : Nat) : Option Nat :=
  (scriptSig[start]?).bind fun b =>
    let next := start + 1 + b.toNat
    if scriptSig.length - 1 ≤ next then none else some next

/-- The position after the signature, and for P2CS also after the flag. -/
def keyPosition (scriptPubKey scriptSig : CScript) : Option Nat :=
  if CScript.isPayToPublicKeyHash scriptPubKey then skipPush scriptSig 0
  else if CScript.isPayToColdStaking scriptPubKey then (skipPush scriptSig 0).bind (skipPush scriptSig)
  else none

/-- The key bytes of a coinstake input, for the kind of its second output. The first byte at the position is taken for
the code of a push. -/
def stakerKey (scriptPubKey scriptSig : CScript) : Option Bytes :=
  (keyPosition scriptPubKey scriptSig).map fun start => scriptSig.drop (start + 1)

/-- The key `CheckBlockSignature` uses. `zerocoinKey` is the key of a zerocoin spend. -/
def blockKey (zerocoinKey : CTxIn → Bytes) (txin : CTxIn) (txout : CTxOut) : Option Bytes :=
  if txin.isZerocoinSpend then some (zerocoinKey txin)
  else match CScript.matchPayToPubkey txout.scriptPubKey with
    | some key => some key
    | none =>
      -- the input is for a P2PK, and the output does not have the key
      if CScript.isPayToPublicKeyHash txout.scriptPubKey ∧ txin.scriptSig.length = 73 then none
      else stakerKey txout.scriptPubKey txin.scriptSig

def checkBlockSignature (k : ScriptCrypto) (zerocoinKey : CTxIn → Bytes) (block : SignedBlock) : Bool :=
  if block.isProofOfWork then block.vchBlockSig.isEmpty
  else !block.vchBlockSig.isEmpty && ((block.vtx[1]?).any fun tx =>
    match tx.vin[0]?, tx.vout[1]? with
    | some txin, some txout =>
      (blockKey zerocoinKey txin txout).any fun key =>
        isValidPubKey key && k.verify key block.getHash block.vchBlockSig
    | _, _ => false)

/-! ## The key that is used -/

def SameKind (s s' : CScript) : Prop :=
  CScript.isPayToPublicKeyHash s = true ∧ CScript.isPayToPublicKeyHash s' = true ∨
    CScript.isPayToColdStaking s = true ∧ CScript.isPayToColdStaking s' = true

/-- The key belongs to the output: to its key hash, or to one of the two of a P2CS script. -/
def KeyOf (k : ScriptCrypto) (s : CScript) (key : Bytes) : Prop :=
  CScript.isPayToPublicKeyHash s = true ∧ k.hash160 key = CScript.keyHash s ∨
    CScript.isPayToColdStaking s = true ∧
      (k.hash160 key = CScript.stakerHash s ∨ k.hash160 key = CScript.ownerHash s)

variable {s : CScript}

theorem length_of_p2pkh (h : CScript.isPayToPublicKeyHash s = true) : s.length = 25 := by
  obtain ⟨hshape, hlen⟩ := CScript.p2pkh_eq h
  rw [hshape]
  simp [hlen]

theorem length_of_p2cs (h : CScript.isPayToColdStaking s = true) : s.length = 51 := by
  obtain ⟨op, -, hshape, hstaker, howner⟩ := CScript.p2cs_eq h
  rw [hshape]
  simp [hstaker, howner]

theorem not_p2pkh_of_p2cs (h : CScript.isPayToColdStaking s = true) : CScript.isPayToPublicKeyHash s = false := by
  cases hp : CScript.isPayToPublicKeyHash s with
  | false => rfl
  | true => exact absurd (length_of_p2pkh hp) (by rw [length_of_p2cs h]; decide)

theorem matchPayToPubkey_of_length (h67 : s.length ≠ 67) (h35 : s.length ≠ 35) :
    CScript.matchPayToPubkey s = none := by
  rw [CScript.matchPayToPubkey]
  simp [h67, h35]

theorem keyPosition_of_sameKind {s s' : CScript} (h : SameKind s s') (scriptSig : CScript) :
    keyPosition s' scriptSig = keyPosition s scriptSig := by
  rcases h with ⟨hs, hs'⟩ | ⟨hs, hs'⟩
  · rw [keyPosition, keyPosition, if_pos hs, if_pos hs']
  · simp only [keyPosition, hs, hs', not_p2pkh_of_p2cs hs, not_p2pkh_of_p2cs hs']

/-- The code of a zerocoin spend is not an instruction. -/
theorem verifyScript_not_zerocoinSpend {c : TransactionSignatureChecker} {flags : ScriptFlags} {txin : CTxIn}
    (h : verifyScript c flags txin.scriptSig s = .ok ()) : txin.isZerocoinSpend = false := by
  cases hz : txin.isZerocoinSpend with
  | false => rfl
  | true =>
    exfalso
    rw [CTxIn.isZerocoinSpend, Bool.and_eq_true, CScript.isZerocoinSpend] at hz
    have hdrop := CScript.drop_of_has hz.2
    obtain ⟨_, -, h⟩ := bind_eq_ok.mp h
    obtain ⟨stack, hsig, -⟩ := bind_eq_ok.mp h
    have hlen : txin.scriptSig.length = (txin.scriptSig.drop 1).length + 1 := congrArg List.length hdrop
    obtain ⟨st, hat, -⟩ := evalLoop_of_evalScript hdrop hlen hsig
    obtain ⟨st₁, st₂, -, hexec, -⟩ := hat.exec .invalid (by decide +kernel) ⟨by decide, .inl rfl⟩
    cases hexec

section Signature

variable {k : ScriptCrypto} {zerocoinKey : CTxIn → Bytes} {block : SignedBlock} {tx : CTransaction} {txin : CTxIn}
  {txout : CTxOut} {c : TransactionSignatureChecker} {flags : ScriptFlags} {s : CScript}

theorem key_of_checkBlockSignature (hpos : block.isProofOfStake = true) (htx : block.vtx[1]? = some tx)
    (hin : tx.vin[0]? = some txin) (hout : tx.vout[1]? = some txout) (hkind : SameKind s txout.scriptPubKey)
    (hspend : verifyScript c flags txin.scriptSig s = .ok ())
    (hsig : checkBlockSignature k zerocoinKey block = true) :
    ∃ key, stakerKey s txin.scriptSig = some key ∧ k.verify key block.getHash block.vchBlockSig = true := by
  have hpow : block.isProofOfWork = false := by rw [CBlock.isProofOfWork, hpos]; rfl
  simp only [checkBlockSignature, hpow, htx, hin, hout, Option.any_some, Bool.false_eq_true, if_false,
    Bool.and_eq_true] at hsig
  obtain ⟨key, hkey, hverify⟩ : ∃ key, blockKey zerocoinKey txin txout = some key ∧
      (isValidPubKey key && k.verify key block.getHash block.vchBlockSig) = true := by
    cases hkey : blockKey zerocoinKey txin txout with
    | none => rw [hkey] at hsig; cases hsig.2
    | some key => rw [hkey] at hsig; exact ⟨key, rfl, hsig.2⟩
  have hmatch : CScript.matchPayToPubkey txout.scriptPubKey = none := by
    rcases hkind with ⟨-, h⟩ | ⟨-, h⟩
    · exact matchPayToPubkey_of_length (by rw [length_of_p2pkh h]; decide) (by rw [length_of_p2pkh h]; decide)
    · exact matchPayToPubkey_of_length (by rw [length_of_p2cs h]; decide) (by rw [length_of_p2cs h]; decide)
  rw [blockKey, verifyScript_not_zerocoinSpend hspend, if_neg (by decide), hmatch] at hkey
  dsimp only at hkey
  split at hkey
  · cases hkey
  · rw [stakerKey, keyPosition_of_sameKind hkind] at hkey
    rw [Bool.and_eq_true] at hverify
    exact ⟨key, hkey, hverify.2⟩

variable (c flags) in
/-- Running the `scriptSig` leaves the key on top of the stack. -/
def LeavesKey (scriptSig : CScript) (key : Bytes) : Prop :=
  ∃ rest, evalScript c flags [] scriptSig = .ok (key :: rest)

variable (c flags) in
/-- The key belongs to the branch of a P2CS script that the run of the `scriptSig` does not select. -/
def KeyOfOtherBranch (scriptSig s : CScript) (key : Bytes) : Prop :=
  CScript.isPayToColdStaking s = true ∧ ∃ pk sel rest, evalScript c flags [] scriptSig = .ok (pk :: sel :: rest) ∧
    c.crypto.hash160 key = if castToBool sel = true then CScript.ownerHash s else CScript.stakerHash s

variable {scriptSig : CScript}

theorem evalScripts_of_verifyScript (h : verifyScript c flags scriptSig s = .ok ()) :
    ∃ stack out, evalScript c flags [] scriptSig = .ok stack ∧ evalScript c flags stack s = .ok out := by
  obtain ⟨_, -, h⟩ := bind_eq_ok.mp h
  obtain ⟨stack, hstack, h⟩ := bind_eq_ok.mp h
  obtain ⟨out, hout, -⟩ := bind_eq_ok.mp h
  exact ⟨stack, out, hstack, hout⟩

theorem keyOf_p2pkh_iff (hinj : Function.Injective c.crypto.hash160) (hs : CScript.isPayToPublicKeyHash s = true)
    (h : verifyScript c flags scriptSig s = .ok ()) (key : Bytes) :
    c.crypto.hash160 key = CScript.keyHash s ↔ LeavesKey c flags scriptSig key := by
  obtain ⟨stack, out, hstack, hout⟩ := evalScripts_of_verifyScript h
  obtain ⟨pk, rest, rfl, hpk⟩ := evalScript_p2pkh hs hout
  constructor
  · intro hkey
    rw [hinj (hkey.trans hpk.symm)]
    exact ⟨rest, hstack⟩
  · rintro ⟨rest', hrest'⟩
    rw [hstack, Except.ok.injEq, List.cons.injEq] at hrest'
    rw [← hrest'.1, hpk]

theorem keyOf_p2cs_iff (hinj : Function.Injective c.crypto.hash160) (hs : CScript.isPayToColdStaking s = true)
    (h : verifyScript c flags scriptSig s = .ok ()) (key : Bytes) :
    (c.crypto.hash160 key = CScript.stakerHash s ∨ c.crypto.hash160 key = CScript.ownerHash s) ↔
      LeavesKey c flags scriptSig key ∨ KeyOfOtherBranch c flags scriptSig s key := by
  obtain ⟨stack, out, hstack, hout⟩ := evalScripts_of_verifyScript h
  obtain ⟨pk, sel, rest, rfl, hbranch⟩ := evalScript_p2cs hs hout
  have hleaves : LeavesKey c flags scriptSig key ↔ pk = key := by
    rw [LeavesKey, hstack]
    simp
  have hother : KeyOfOtherBranch c flags scriptSig s key ↔ c.crypto.hash160 key =
      if castToBool sel = true then CScript.ownerHash s else CScript.stakerHash s := by
    rw [KeyOfOtherBranch, hstack, and_iff_right hs]
    simp
  rw [hleaves, hother]
  unfold BranchTaken at hbranch
  cases hsel : castToBool sel with
  | true =>
    rw [hsel, if_pos rfl] at hbranch
    rw [if_pos rfl, ← hbranch.1, hinj.eq_iff, eq_comm]
  | false =>
    rw [hsel, if_neg (by decide)] at hbranch
    rw [if_neg (by decide), or_comm, ← hbranch, hinj.eq_iff, eq_comm]

end Signature

/-- The signature of an accepted proof-of-stake block verifies under some bytes of its `scriptSig`; they are a key of
the staked output exactly if running the `scriptSig` leaves them on top of the stack or they are the key of the branch
of a P2CS script that was not taken. -/
theorem block_signature_binds_iff {k : ScriptCrypto} (hinj : Function.Injective k.hash160)
    (zerocoinKey : CTxIn → Bytes) (block : SignedBlock) {tx : CTransaction} {txin : CTxIn} {txout : CTxOut}
    (c : TransactionSignatureChecker) (flags : ScriptFlags) (s : CScript) (hk : c.crypto = k)
    (hpos : block.isProofOfStake = true) (htx : block.vtx[1]? = some tx) (hin : tx.vin[0]? = some txin)
    (hout : tx.vout[1]? = some txout) (hkind : SameKind s txout.scriptPubKey)
    (hspend : verifyScript c flags txin.scriptSig s = .ok ())
    (hsig : checkBlockSignature k zerocoinKey block = true) :
    ∃ key, stakerKey s txin.scriptSig = some key ∧ k.verify key block.getHash block.vchBlockSig = true ∧
      (KeyOf k s key ↔ LeavesKey c flags txin.scriptSig key ∨ KeyOfOtherBranch c flags txin.scriptSig s key) := by
  subst hk
  obtain ⟨key, hkey, hverify⟩ := key_of_checkBlockSignature hpos htx hin hout hkind hspend hsig
  refine ⟨key, hkey, hverify, ?_⟩
  unfold KeyOf
  rcases hkind with ⟨hs, -⟩ | ⟨hs, -⟩
  · have hcs : CScript.isPayToColdStaking s = false := by
      cases hcs : CScript.isPayToColdStaking s with
      | false => rfl
      | true => exact absurd hs (by rw [not_p2pkh_of_p2cs hcs]; decide)
    simp only [KeyOfOtherBranch, hs, hcs, Bool.false_eq_true, false_and, or_false, true_and]
    exact keyOf_p2pkh_iff hinj hs hspend key
  · simp only [hs, not_p2pkh_of_p2cs hs, Bool.false_eq_true, false_and, false_or, true_and]
    exact keyOf_p2cs_iff hinj hs hspend key

namespace Sample

def ownKey : Bytes := 0x02 :: List.replicate 32 0x11

def otherKey : Bytes := 0x03 :: 0xa1 :: 0xa2 :: 0xa3 :: 0x1b :: (List.replicate 27 0x55 ++ [0x6d])

def ownKeyHash : Bytes := List.replicate 20 0x22

/-- A signature of 71 bytes in the strict encoding. -/
def derSig : Bytes :=
  [0x30, 0x45, 0x02, 0x21, 0x00] ++ List.replicate 32 0x81 ++ [0x02, 0x20] ++ List.replicate 32 0x11

/-- Each key signs with its own signature. The hash exchanges `ownKey` and `ownKeyHash`. -/
def scriptCrypto : ScriptCrypto where
  ripemd160 := Equiv.swap ownKey ownKeyHash
  sha1 := id
  sha256 := id
  verify key _ sig := decide (key = ownKey ∧ sig = derSig) || decide (key = otherKey ∧ sig = [0x07])
  checkLowS _ := true

theorem hash160_injective : Function.Injective scriptCrypto.hash160 := (Equiv.swap ownKey ownKeyHash).injective

def stakedScript : CScript := OP_DUP :: OP_HASH160 :: 0x14 :: (ownKeyHash ++ [OP_EQUALVERIFY, OP_CHECKSIG])

def ownScriptSig : CScript := CScript.pushing (derSig ++ [1]) ++ CScript.pushing ownKey

/-- The same signature and key, between a first byte that leads past them and the other key. -/
def alteredScriptSig : CScript := 0x74 :: 0x75 :: (List.replicate 9 0x61 ++ ownScriptSig ++ otherKey)

def stakingTx (scriptSig : CScript) : CTransaction :=
  { vin := [{ prevout := { hash := 5, n := 0 }, scriptSig := scriptSig }]
    vout := [⟨0, []⟩, ⟨100, stakedScript⟩]
    hash := 6 }

def stakingBlock (scriptSig : CScript) (vchBlockSig : Bytes) : SignedBlock :=
  { hash := 7, vtx := [{ hash := 4 }, stakingTx scriptSig], vchBlockSig := vchBlockSig }

def stakingChecker (scriptSig : CScript) : TransactionSignatureChecker :=
  { crypto := scriptCrypto, txTo := stakingTx scriptSig, nIn := 0, amount := 90, signatureHash := fun _ _ => 0 }

end Sample

open Sample

theorem block_signature_binds_own : ∃ key, stakerKey stakedScript ownScriptSig = some key ∧
    KeyOf scriptCrypto stakedScript key := by
  obtain ⟨key, hkey, -, hiff⟩ := block_signature_binds_iff hash160_injective (fun _ => [])
    (stakingBlock ownScriptSig derSig) (stakingChecker ownScriptSig)
    (consensusFlags true) stakedScript rfl (by decide +kernel) rfl rfl rfl (.inl (by decide +kernel))
    (by decide +kernel) (by decide +kernel)
  refine ⟨key, hkey, hiff.mpr (.inl ⟨[derSig ++ [1]], ?_⟩)⟩
  obtain rfl : ownKey = key := Option.some.inj ((by decide +kernel :
    some ownKey = stakerKey stakedScript ownScriptSig).trans hkey)
  decide +kernel

/-- With the altered `scriptSig` the coin is spent all the same, and the block is signed with the other key. -/
theorem block_signature_of_other_key :
    checkBlockSignature scriptCrypto (fun _ => []) (stakingBlock alteredScriptSig [0x07]) = true ∧
    verifyScript (stakingChecker alteredScriptSig) (consensusFlags true) alteredScriptSig
      stakedScript = .ok () ∧
    stakerKey stakedScript alteredScriptSig = some otherKey ∧
    ¬KeyOf scriptCrypto stakedScript otherKey := by
  refine ⟨by decide +kernel, by decide +kernel, by decide +kernel, ?_⟩
  rintro (⟨-, h⟩ | ⟨h, -⟩)
  · exact absurd h (by decide +kernel)
  · exact absurd h (by decide +kernel)

end TrumpCoin
