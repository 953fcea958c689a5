import TrumpCoin.Stake.ColdStakeScript

/-!
# Scripts under more and fewer flags

`AcceptToMemoryPool` checks the scripts of a transaction with more flags than the block that will hold it.

* `verifyScript_of_within`: what passes with more flags passes with fewer (`ScriptFlags.Within`).
-/

namespace TrumpCoin

open Lib

/-- Every flag of `f` is one of `f'`; where `f` discourages undefined instructions, both or neither define the lock. -/
structure ScriptFlags.Within (f f' : ScriptFlags) : Prop where
  p2sh : f.fP2SH → f'.fP2SH
  strictEnc : f.fStrictEnc → f'.fStrictEnc
  derSig : f.fDerSig → f'.fDerSig
  lowS : f.fLowS → f'.fLowS
  nullDummy : f.fNullDummy → f'.fNullDummy
  sigPushOnly : f.fSigPushOnly → f'.fSigPushOnly
  minimalData : f.fMinimalData → f'.fMinimalData
  discourage : f.fDiscourageUpgradableNops → f'.fDiscourageUpgradableNops
  lockTime : f.fCheckLockTimeVerify → f'.fCheckLockTimeVerify
  known : f.fDiscourageUpgradableNops → f'.fCheckLockTimeVerify → f.fCheckLockTimeVerify

namespace ScriptFlags.Within

variable {f f' : ScriptFlags} (hf : f.Within f') {c : TransactionSignatureChecker} {st : ScriptState} {script pc : CScript}
include hf

theorem read (n : Nat) (vch : Bytes) :
    Eased (CScriptNum.read f'.fMinimalData n vch) (CScriptNum.read f.fMinimalData n vch) := by
  have hminimal := hf.minimalData
  exact .ite_error id (.ite_error (by simp_all) (.refl _))

theorem encodings (k : ScriptCrypto) (sig key : Bytes) {x y : ScriptResult α} (h : Eased x y) :
    Eased (do checkSignatureEncoding k f' sig; checkPubKeyEncoding f' key; x)
      (do checkSignatureEncoding k f sig; checkPubKeyEncoding f key; y) := by
  obtain ⟨-, hstrict, hder, hlow, -⟩ := hf
  refine .bind (.ite (.refl _) (.ite_error ?_ (.ite_error ?_ (.ite_error ?_ (.refl _))))) fun _ =>
    .bind (.ite_error ?_ (.refl _)) fun _ => h
  all_goals simp only [Bool.and_eq_true, Bool.or_eq_true]
  · exact And.imp_left (.imp (.imp hder hlow) hstrict)
  · exact And.imp_left hlow
  all_goals exact And.imp_left hstrict

theorem sigs (code : CScript) (keys sigs : List Bytes) :
    Eased (checkSigs c f' code sigs keys) (checkSigs c f code sigs keys) := by
  induction keys generalizing sigs with
  | nil => cases sigs <;> exact .refl _
  | cons key keys ih =>
    cases sigs with
    | nil => exact .refl _
    | cons sig sigs => exact hf.encodings _ _ _ (.ite (.refl _) (ih _))

theorem multiSig : Eased (checkMultiSig c f' st) (checkMultiSig c f st) := by
  unfold checkMultiSig
  split
  · exact .error
  · refine (hf.read _ _).bind fun n => .bind (.refl _) fun _ => .bind (.refl _) fun _ => ?_
    split
    · exact .error
    · refine (hf.read _ _).bind fun m => .bind (.refl _) fun _ => ?_
      dsimp only
      split
      · exact .error
      · exact (hf.sigs _ _ _).bind fun _ => .bind (.require fun h hn => h ⟨hf.nullDummy hn.1, hn.2⟩) fun _ => .refl _

theorem sigOp : Eased (checkSigOp c f' st) (checkSigOp c f st) := by
  unfold checkSigOp
  split
  · exact hf.encodings _ _ _ (.refl _)
  · exact .error

theorem coldStake (b : Bool) : Eased (c.checkColdStake f' b script st.stack) (c.checkColdStake f b script st.stack) := by
  unfold TransactionSignatureChecker.checkColdStake
  split
  · exact hf.encodings _ _ _ (.refl _)
  · exact .error

theorem cltv (b : Bool) :
    Eased (execOp c f' script pc b st .checkLockTimeVerify) (execOp c f script pc b st .checkLockTimeVerify) := by
  simp only [execOp]
  by_cases hlax : f.fCheckLockTimeVerify
  · simp only [hlax, hf.lockTime hlax, Bool.not_true, Bool.false_eq_true, if_false]
    split
    · exact .error
    · exact (hf.read _ _).bind fun _ => .refl _
  · simp only [hlax, Bool.not_false, if_true]
    by_cases hs : f'.fCheckLockTimeVerify
    · -- the checks that `f` leaves out do not change the state
      simp only [hs, Bool.not_true, Bool.false_eq_true, if_false, if_neg fun hd => hlax (hf.known hd hs)]
      split
      · exact .error
      · exact .skip fun _ => .skip fun _ => .skip fun _ => .refl _
    · simp only [hs, Bool.not_false, if_true]
      exact .ite_error hf.discourage (.refl _)

theorem exec (b : Bool) (op : OpCode) : Eased (execOp c f' script pc b st op) (execOp c f script pc b st op) := by
  cases op
  case upgradableNop => exact .ite_error hf.discourage (.refl _)
  case checkLockTimeVerify => exact hf.cltv b
  case pick | roll | unary | binary | numEqualVerify | within =>
    dsimp only [execOp]
    split
    all_goals repeat first | exact .error | refine (hf.read _ _).bind fun _ => ?_ | exact .refl _
  case checkSig | checkSigVerify => exact hf.sigOp.bind fun _ => .refl _
  case checkMultiSig | checkMultiSigVerify => exact hf.multiSig.bind fun _ => .refl _
  case checkColdStakeVerify => exact (hf.coldStake _).bind fun _ => .refl _
  all_goals exact .refl _

theorem loop (fuel : Nat) : Eased (evalLoop c f' script fuel st pc) (evalLoop c f script fuel st pc) := by
  induction fuel generalizing st pc with
  | zero => cases pc <;> exact .refl _
  | succ fuel ih =>
    cases pc with
    | nil => exact .refl _
    | cons b pc =>
      unfold evalLoop
      split
      · exact .error
      · refine .bind (.bind (.refl _) fun _ => .bind (.refl _) fun _ => .bind (.refl _) fun _ => .bind ?_ fun _ => .refl _)
          fun st => ih
        exact .ite (.ite_error (by simp_all [hf.minimalData]) (.refl _)) (.ite (hf.exec _ _) (.refl _))

theorem eval (stack : List Bytes) : Eased (evalScript c f' stack script) (evalScript c f stack script) :=
  .bind (.refl _) fun _ => (hf.loop _).bind fun _ => .refl _

end ScriptFlags.Within

/-- **Flags only add checks**: a script that is accepted with more flags is accepted with fewer. -/
theorem verifyScript_of_within {f f' : ScriptFlags} (hf : f.Within f') (c : TransactionSignatureChecker)
    (scriptSig scriptPubKey : CScript) (h : verifyScript c f' scriptSig scriptPubKey = .ok ()) :
    verifyScript c f scriptSig scriptPubKey = .ok () := by
  refine Eased.bind (.require fun h hn => h ⟨hf.sigPushOnly hn.1, hn.2⟩) (fun _ => ?_) () h
  refine (hf.eval _).bind fun s => (hf.eval _).bind fun _ => .bind (.refl _) fun _ => ?_
  by_cases hp : f.fP2SH
  · rw [hp, hf.p2sh hp]
    refine .ite (.bind (.refl _) fun _ => ?_) (.refl _)
    cases s
    · exact .error
    · exact (hf.eval _).bind fun _ => .refl _
  · simp only [hp, Bool.false_and]
    exact fun _ _ => rfl

/-- The flags with which `AcceptToMemoryPool` checks a transaction. -/
def standardFlags (fCLTVIsActivated : Bool) : ScriptFlags :=
  { consensusFlags fCLTVIsActivated with
    fStrictEnc := true, fMinimalData := true, fNullDummy := true, fDiscourageUpgradableNops := true, fLowS := true }

theorem consensusFlags_within (b : Bool) : (consensusFlags b).Within (standardFlags b) := by
  constructor <;> cases b <;> decide

open Sample in
theorem coldScript_accepted :
    verifyScript (coldStakeChecker (p2pkh 0x54)) (consensusFlags true) stakerScriptSig coldScript = .ok () :=
  verifyScript_of_within (consensusFlags_within true) _ _ _ (by decide +kernel)

end TrumpCoin
