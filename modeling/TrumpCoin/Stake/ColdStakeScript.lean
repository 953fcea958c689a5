import TrumpCoin.Stake.ColdStake

/-!
# Spending a P2CS output

What `VerifyScript` establishes for an output with a P2CS script, whatever the `scriptSig` is: it may be any program, and
only the stack it leaves matters. The element below the key selects the branch.

* `coldStake_outputs`: the outputs of the transaction in the staker's branch;
* `p2cs_spent_by`: an accepted input was signed by the owner, or by the staker in a coinstake that pays back.
-/

namespace TrumpCoin

open Lib TransactionSignatureChecker

variable {c : TransactionSignatureChecker} {flags : ScriptFlags} {s : CScript}

theorem checkColdStake_one_input {fAllow : Bool} {stack : List Bytes}
    (h : c.checkColdStake flags fAllow s stack = .ok ()) : c.txTo.vin.length = 1 := by
  unfold checkColdStake at h
  split at h
  · simp only [bind_eq_ok, require_eq_ok] at h
    obtain ⟨_, -, _, -, _, -, _, -, _, hvin, -⟩ := h
    exact hvin
  · cases h

/-- The outputs after the first pay the script, up to a last one that may be free, and those that do have the amount,
unless their sum is too small for 64 bits. -/
structure PaysScript (fAllow : Bool) (s : CScript) (amount : Int) (tx : CTransaction) : Prop where
  same : ∀ i out, 1 ≤ i → tx.vout[i]? = some out →
    out.scriptPubKey = s ∨ fAllow = true ∧ i + 1 = tx.vout.length ∧ 3 ≤ tx.vout.length
  amount : amount ≤ (((tx.vout.drop 1).filter fun out => out.scriptPubKey = s).map CTxOut.nValue).sum ∨
    (((tx.vout.drop 1).filter fun out => out.scriptPubKey = s).map CTxOut.nValue).sum < -2 ^ 63

theorem coldStake_outputs {fAllow : Bool} {amount : Int} {tx : CTransaction} {outs free : List CTxOut}
    (h : PaysBack fAllow s tx outs free) (hamount : amount ≤ (Int64.ofInt (outs.map CTxOut.nValue).sum).toInt) :
    PaysScript fAllow s amount tx := by
  have hpos : 0 < outs.length := List.length_pos_iff.mpr h.some_own
  constructor
  · intro i out hi hget
    obtain ⟨i, rfl⟩ : ∃ k, i = k + 1 := ⟨i - 1, by omega⟩
    rw [h.vout, List.getElem?_cons_succ] at hget
    rw [h.vout]
    rcases Nat.lt_or_ge i outs.length with hlt | hge
    · rw [List.getElem?_append_left hlt] at hget
      exact .inl (h.own out (List.mem_of_getElem? hget))
    · rw [List.getElem?_append_right hge] at hget
      rcases h.last with rfl | ⟨o, rfl, -, hallow⟩
      · cases hget
      · have hlast : i - outs.length = 0 := by
          obtain ⟨hlt, -⟩ := List.getElem?_eq_some_iff.mp hget
          rw [List.length_singleton] at hlt
          omega
        refine .inr ⟨hallow, ?_, ?_⟩
        · simp only [List.length_cons, List.length_append, List.length_nil]
          omega
        · simp only [List.length_cons, List.length_append, List.length_nil]
          omega
  · have hown : outs.filter (fun out => out.scriptPubKey = s) = outs :=
      List.filter_eq_self.mpr fun out hout => decide_eq_true (h.own out hout)
    have hfree : free.filter (fun out => out.scriptPubKey = s) = [] := by
      rcases h.last with rfl | ⟨o, rfl, hne, -⟩
      · rfl
      · rw [List.filter_cons_of_neg (by simpa using hne), List.filter_nil]
    rw [h.vout, List.drop_one, List.tail_cons, List.filter_append, hown, hfree, List.append_nil]
    exact or_iff_not_imp_right.mpr fun hsum => hamount.trans (toInt_ofInt_le (Int.not_lt.mp hsum))

variable (c s) in
/-- The owner's key through the `ELSE` branch. -/
def OwnerSpend (pk sel : Bytes) : Prop :=
  castToBool sel = false ∧ c.crypto.hash160 pk = CScript.ownerHash s

variable (c s) in
/-- The staker's key, in a coinstake with one input that pays the script. -/
def StakerPaysBack (pk sel : Bytes) : Prop :=
  castToBool sel = true ∧ c.crypto.hash160 pk = CScript.stakerHash s ∧ c.txTo.isCoinStake = true ∧
    c.txTo.vin.length = 1 ∧ PaysScript (CScript.isPayToColdStakingLOF s) s c.amount c.txTo

/-- **P2CS.** If `VerifyScript` accepts an input for a P2CS output, the `scriptSig` left a signature, a selecting element
and a key; the signature is valid for the key and the script, and the key is the owner's and the `ELSE` branch was
taken, or it is the staker's and the transaction is a coinstake that pays back to the script. The value paid back is
exact unless the sum of the outputs is below `-2 ^ 63`, which no output of a checked transaction allows. -/
theorem p2cs_spent_by (c : TransactionSignatureChecker) (flags : ScriptFlags) (scriptSig s : CScript)
    (hs : CScript.isPayToColdStaking s = true) (h : verifyScript c flags scriptSig s = .ok ()) :
    ∃ pk sel sig rest, evalScript c flags [] scriptSig = .ok (pk :: sel :: sig :: rest) ∧
      c.checkSig sig pk (s.findAndDelete (CScript.pushing sig)) = true ∧
      (OwnerSpend c s pk sel ∨ StakerPaysBack c s pk sel) := by
  obtain ⟨_, -, h⟩ := bind_eq_ok.mp h
  obtain ⟨stack, hsig, h⟩ := bind_eq_ok.mp h
  obtain ⟨out, hout, h⟩ := bind_eq_ok.mp h
  obtain ⟨_, htrue, -⟩ := bind_eq_ok.mp h
  obtain ⟨pk, sel, sig, rest, rfl, hbranch, rfl⟩ := evalScript_p2cs_sig hs hout
  refine ⟨pk, sel, sig, rest, hsig, ?_, ?_⟩
  · -- the top of the stack is the result of the signature check
    rw [requireTrue, require_eq_ok, List.head?_cons, Option.any_some] at htrue
    cases hvalid : c.checkSig sig pk (s.findAndDelete (CScript.pushing sig)) with
    | true => rfl
    | false =>
      rw [hvalid] at htrue
      exact absurd htrue (by decide)
  · unfold BranchTaken at hbranch
    cases hsel : castToBool sel with
    | false =>
      rw [hsel, if_neg Bool.false_ne_true] at hbranch
      exact .inl ⟨hsel, hbranch⟩
    | true =>
      rw [hsel, if_pos rfl] at hbranch
      obtain ⟨hhash, hcheck⟩ := hbranch
      obtain ⟨hstake, outs, free, hback, hamount⟩ := checkColdStake_eq_ok hcheck
      have hlof : CScript.isPayToColdStakingLOF s = CScript.has s 4 OP_CHECKCOLDSTAKEVERIFY_LOF := by
        rw [CScript.isPayToColdStakingLOF, hs, Bool.true_and]
      refine .inr ⟨hsel, hhash, hstake, checkColdStake_one_input hcheck, ?_⟩
      rw [hlof]
      exact coldStake_outputs hback hamount

open Sample

theorem p2cs_spent_by_staker : CScript.isPayToColdStaking coldScript = true ∧
    ∃ pk sel sig rest, evalScript (coldStakeChecker (p2pkh 0x54)) (consensusFlags true) []
        stakerScriptSig = .ok (pk :: sel :: sig :: rest) ∧
      (coldStakeChecker (p2pkh 0x54)).checkSig sig pk
        (coldScript.findAndDelete (CScript.pushing sig)) = true ∧
      (OwnerSpend (coldStakeChecker (p2pkh 0x54)) coldScript pk sel ∨
        StakerPaysBack (coldStakeChecker (p2pkh 0x54)) coldScript pk sel) := by
  have hs : CScript.isPayToColdStaking coldScript = true := by decide +kernel
  exact ⟨hs, p2cs_spent_by _ (consensusFlags true) stakerScriptSig _ hs (by decide +kernel)⟩

/-- Two outputs of the least value there is sum to nothing: the staker's branch accepts them for a coin of value 0. -/
theorem p2cs_sum_wraps :
    let tx : CTransaction := { coldStakeTx [] with vout := [⟨0, []⟩, ⟨-2 ^ 63, coldScript⟩, ⟨-2 ^ 63, coldScript⟩] }
    let c : TransactionSignatureChecker := { coldStakeChecker [] with txTo := tx, amount := 0 }
    verifyScript c (consensusFlags true) stakerScriptSig coldScript = .ok () ∧
      evalScript c (consensusFlags true) [] stakerScriptSig = .ok [ownKey, [1], derSig ++ [1]] ∧
      castToBool [1] = true ∧
      ¬c.amount ≤ (((tx.vout.drop 1).filter fun out => out.scriptPubKey = coldScript).map CTxOut.nValue).sum :=
  ⟨by decide +kernel, by decide +kernel, by decide, by decide +kernel⟩

end TrumpCoin
