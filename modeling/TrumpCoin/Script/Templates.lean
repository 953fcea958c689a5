import TrumpCoin.Script.Interpreter

/-!
# Running the standard scripts

What a successful run of a P2PKH or P2CS script tells about the stack it started on.

* `evalScript_p2pkh`, `evalScript_p2cs`: the top of the stack has the key hash of the script or of the branch taken;
* `evalScript_p2cs_sig`: and the script leaves whether the key has signed the transaction with the script itself.
-/

namespace TrumpCoin

open Lib

namespace CScript

/-! ## The shape of the scripts -/

variable {s : CScript}

theorem drop_of_has {i : Nat} {op : UInt8} (h : has s i op = true) : s.drop i = op :: s.drop (i + 1) := by
  have hget : s[i]? = some op := by simpa [has] using h
  obtain ⟨hlt, hop⟩ := List.getElem?_eq_some_iff.mp hget
  rw [List.drop_eq_getElem_cons hlt, hop]

def pushAt (s : CScript) (i : Nat) : Bytes := (s.drop (i + 1)).take 20

theorem drop_pushAt (s : CScript) (i : Nat) : s.drop (i + 1) = pushAt s i ++ s.drop (i + 21) := by
  have h := List.take_append_drop 20 (s.drop (i + 1))
  rw [List.drop_drop] at h
  exact h.symm

theorem length_pushAt {i : Nat} (h : i + 21 ≤ s.length) : (pushAt s i).length = 20 := by
  rw [pushAt, List.length_take, List.length_drop]
  omega

def keyHash (s : CScript) : Bytes := pushAt s 2

def stakerHash (s : CScript) : Bytes := pushAt s 5

def ownerHash (s : CScript) : Bytes := pushAt s 27

theorem p2pkh_eq (h : isPayToPublicKeyHash s = true) :
    s = OP_DUP :: OP_HASH160 :: 0x14 :: (keyHash s ++ [OP_EQUALVERIFY, OP_CHECKSIG]) ∧ (keyHash s).length = 20 := by
  simp only [isPayToPublicKeyHash, Bool.and_eq_true, beq_iff_eq] at h
  obtain ⟨⟨⟨⟨⟨hlen, h0⟩, h1⟩, h2⟩, h23⟩, h24⟩ := h
  have hend : s.drop 25 = [] := List.drop_eq_nil_of_le (by omega)
  refine ⟨?_, length_pushAt (by omega)⟩
  calc s = s.drop 0 := rfl
    _ = _ := by
      rw [drop_of_has h0, drop_of_has h1, drop_of_has h2, drop_pushAt s 2, drop_of_has h23, drop_of_has h24, hend]
      rfl

theorem p2cs_eq (h : isPayToColdStaking s = true) :
    ∃ op, (op = OP_CHECKCOLDSTAKEVERIFY ∨ op = OP_CHECKCOLDSTAKEVERIFY_LOF) ∧
      s = OP_DUP :: OP_HASH160 :: OP_ROT :: OP_IF :: op :: 0x14 :: (stakerHash s ++ OP_ELSE :: 0x14 ::
        (ownerHash s ++ [OP_ENDIF, OP_EQUALVERIFY, OP_CHECKSIG])) ∧
      (stakerHash s).length = 20 ∧ (ownerHash s).length = 20 := by
  simp only [isPayToColdStaking, Bool.and_eq_true, Bool.or_eq_true, beq_iff_eq] at h
  obtain ⟨⟨⟨⟨⟨⟨⟨⟨⟨⟨⟨hlen, h0⟩, h1⟩, h2⟩, h3⟩, h4⟩, h5⟩, h26⟩, h27⟩, h48⟩, h49⟩, h50⟩ := h
  obtain ⟨op, hop, h4⟩ : ∃ op, (op = OP_CHECKCOLDSTAKEVERIFY ∨ op = OP_CHECKCOLDSTAKEVERIFY_LOF) ∧
      has s 4 op = true := by
    rcases h4 with h4 | h4
    · exact ⟨_, .inl rfl, h4⟩
    · exact ⟨_, .inr rfl, h4⟩
  have hend : s.drop 51 = [] := List.drop_eq_nil_of_le (by omega)
  refine ⟨op, hop, ?_, length_pushAt (by omega), length_pushAt (by omega)⟩
  calc s = s.drop 0 := rfl
    _ = _ := by
      rw [drop_of_has h0, drop_of_has h1, drop_of_has h2, drop_of_has h3, drop_of_has h4, drop_of_has h5,
        drop_pushAt s 5, drop_of_has h26, drop_of_has h27, drop_pushAt s 27, drop_of_has h48, drop_of_has h49,
        drop_of_has h50, hend]
      rfl

theorem getOp_of_lt {op : UInt8} (h : OP_PUSHDATA4 < op) (pc : CScript) : getOp (op :: pc) = some (op, [], pc) := by
  rw [getOp, if_neg (by exact UInt8.not_le.mpr h)]

theorem getOp_push20 {d : Bytes} (h : d.length = 20) (pc : CScript) :
    getOp (0x14 :: (d ++ pc)) = some (0x14, d, pc) := by
  rw [getOp, if_pos (by decide), readPushSize, if_pos (by decide), Option.bind_some]
  have hsize : (0x14 : UInt8).toNat = d.length := h.symm
  rw [hsize, if_neg (by rw [List.length_append]; omega), List.take_left, List.drop_left]

end CScript

/-! ## Single instructions -/

/-- The stack and the conditionals of a state. -/
def ScriptState.At (st : ScriptState) (stack : List Bytes) (vfExec : List Bool) : Prop :=
  st.stack = stack ∧ st.vfExec = vfExec

/-- A run of the loop: what is fixed during it, and how it ends. -/
structure LoopRun where
  c : TransactionSignatureChecker
  flags : ScriptFlags
  script : CScript
  out : ScriptState

/-- The run has the given stack and conditionals before the rest `pc` of the script. -/
def LoopRun.At (r : LoopRun) (n : Nat) (stack : List Bytes) (vfExec : List Bool) (pc : CScript) : Prop :=
  ∃ st : ScriptState, st.At stack vfExec ∧ evalLoop r.c r.flags r.script n st pc = .ok r.out

section Instructions

variable {c : TransactionSignatureChecker} {flags : ScriptFlags} {script pc : CScript} {st st' out : ScriptState}
  {op : UInt8} {n : Nat} {stack s : List Bytes} {vf : List Bool} {d vch : Bytes}

theorem fExec_at (h : st.At stack vf) : st.fExec = vf.all id := by rw [ScriptState.fExec, h.2]

theorem step_eq_ok (h : step c flags script st op vch pc = .ok st') :
    perform c flags script (st.count op) op vch pc = .ok st' := by
  unfold step at h
  obtain ⟨_, -, h⟩ := bind_eq_ok.mp h
  obtain ⟨_, -, h⟩ := bind_eq_ok.mp h
  obtain ⟨_, -, h⟩ := bind_eq_ok.mp h
  obtain ⟨st₁, hst₁, h⟩ := bind_eq_ok.mp h
  obtain ⟨_, -, h⟩ := bind_eq_ok.mp h
  obtain rfl := pure_eq_ok.mp h
  exact hst₁

namespace LoopRun.At

variable {r : LoopRun}

theorem of_run (hrun : evalLoop r.c r.flags r.script n st pc = .ok r.out) (hat : st.At stack vf) :
    r.At n stack vf pc := ⟨st, hat, hrun⟩

/-- A pass of the loop performs its instruction; how many were counted does not matter. -/
theorem performs {b : UInt8} {next : CScript} (hget : CScript.getOp (b :: next) = some (op, vch, pc))
    (h : r.At (n + 1) stack vf (b :: next)) : ∃ st₀ st₁ : ScriptState, st₀.At stack vf ∧
      perform r.c r.flags r.script st₀ op vch pc = .ok st₁ ∧ evalLoop r.c r.flags r.script n st₁ pc = .ok r.out := by
  obtain ⟨st, hat, hrun⟩ := h
  rw [evalLoop, hget] at hrun
  obtain ⟨st₁, hstep, hrun⟩ := bind_eq_ok.mp hrun
  refine ⟨st.count op, st₁, ?_, step_eq_ok hstep, hrun⟩
  unfold ScriptState.count
  split <;> exact hat

/-- An instruction is executed outside a branch not taken, a conditional also within one. -/
theorem exec (h : r.At (n + 1) stack vf (op :: pc)) (code : OpCode) (hdecode : decodeOp op = code)
    (hop : OP_PUSHDATA4 < op ∧ (vf.all id = true ∨ OP_IF ≤ op ∧ op ≤ OP_ENDIF)) :
    ∃ st₀ st₁ : ScriptState, st₀.At stack vf ∧ execOp r.c r.flags r.script pc (vf.all id) st₀ code = .ok st₁ ∧
      evalLoop r.c r.flags r.script n st₁ pc = .ok r.out := by
  obtain ⟨st₀, st₁, hat₀, hperform, hrun⟩ := h.performs (CScript.getOp_of_lt hop.1 pc)
  rw [perform, fExec_at hat₀, if_neg fun hh => absurd hh.2 (UInt8.not_le.mpr hop.1), if_pos hop.2, hdecode] at hperform
  exact ⟨st₀, st₁, hat₀, hperform, hrun⟩

theorem skip {b : UInt8} {next : CScript} (h : r.At (n + 1) stack vf (b :: next))
    (hget : CScript.getOp (b :: next) = some (op, vch, pc)) (hcond : ¬(OP_IF ≤ op ∧ op ≤ OP_ENDIF))
    (hvf : vf.all id = false) : r.At n stack vf pc := by
  obtain ⟨st₀, st₁, hat₀, hperform, hrun⟩ := h.performs hget
  have hexec := (fExec_at hat₀).trans hvf
  rw [perform, if_neg (by simp [hexec]), if_neg (by simp [hexec, hcond])] at hperform
  obtain rfl := Except.ok.inj hperform
  exact ⟨st₀, hat₀, hrun⟩

theorem push20 (h : r.At (n + 1) stack vf (0x14 :: (d ++ pc))) (hd : d.length = 20) (hvf : vf.all id = true) :
    r.At n (d :: stack) vf pc := by
  obtain ⟨st₀, st₁, hat₀, hperform, hrun⟩ := h.performs (CScript.getOp_push20 hd pc)
  rw [perform, if_pos ⟨(fExec_at hat₀).trans hvf, by decide⟩] at hperform
  split at hperform
  · cases hperform
  · obtain rfl := Except.ok.inj hperform
    exact of_run hrun ⟨congrArg (d :: ·) hat₀.1, hat₀.2⟩

/-! ## Instructions of the templates -/

theorem dup (h : r.At (n + 1) stack vf (OP_DUP :: pc)) (hvf : vf.all id = true) :
    ∃ x s, stack = x :: s ∧ r.At n (x :: x :: s) vf pc := by
  obtain ⟨st₀, st₁, ⟨rfl, rfl⟩, hexec, hrun⟩ := h.exec .dup rfl ⟨by decide, .inl hvf⟩
  simp only [execOp] at hexec
  cases hs : st₀.stack with
  | nil => rw [hs] at hexec; cases hexec
  | cons x s =>
    rw [hs] at hexec
    obtain rfl := Except.ok.inj hexec
    exact ⟨x, s, rfl, of_run hrun ⟨rfl, rfl⟩⟩

theorem hash160 {x : Bytes} (h : r.At (n + 1) (x :: s) vf (OP_HASH160 :: pc)) (hvf : vf.all id = true) :
    r.At n (r.c.crypto.hash160 x :: s) vf pc := by
  obtain ⟨st₀, st₁, ⟨hs, rfl⟩, hexec, hrun⟩ := h.exec (.hash .hash160) rfl ⟨by decide, .inl hvf⟩
  simp only [execOp, hs] at hexec
  obtain rfl := Except.ok.inj hexec
  exact of_run hrun ⟨rfl, rfl⟩

theorem rot {x3 x2 : Bytes} (h : r.At (n + 1) (x3 :: x2 :: s) vf (OP_ROT :: pc)) (hvf : vf.all id = true) :
    ∃ x1 s', s = x1 :: s' ∧ r.At n (x1 :: x3 :: x2 :: s') vf pc := by
  obtain ⟨st₀, st₁, ⟨hs, rfl⟩, hexec, hrun⟩ := h.exec .rot rfl ⟨by decide, .inl hvf⟩
  simp only [execOp, hs] at hexec
  cases s with
  | nil => cases hexec
  | cons x1 s' =>
    obtain rfl := Except.ok.inj hexec
    exact ⟨x1, s', rfl, of_run hrun ⟨rfl, rfl⟩⟩

theorem equalVerify {x2 x1 : Bytes} (h : r.At (n + 1) (x2 :: x1 :: s) vf (OP_EQUALVERIFY :: pc))
    (hvf : vf.all id = true) : x1 = x2 ∧ r.At n s vf pc := by
  obtain ⟨st₀, st₁, ⟨hs, rfl⟩, hexec, hrun⟩ := h.exec .equalVerify rfl ⟨by decide, .inl hvf⟩
  simp only [execOp, hs] at hexec
  split at hexec
  · rename_i heq
    obtain rfl := Except.ok.inj hexec
    exact ⟨heq, of_run hrun ⟨rfl, rfl⟩⟩
  · cases hexec

theorem checkSig (h : r.At (n + 1) stack vf [OP_CHECKSIG]) (hvf : vf.all id = true) :
    ∃ pk sig s, stack = pk :: sig :: s ∧
      r.out.stack = ofBool (r.c.checkSig sig pk (r.out.codeHash.findAndDelete (CScript.pushing sig))) :: s := by
  obtain ⟨st₀, st₁, ⟨rfl, rfl⟩, hexec, hrun⟩ := h.exec .checkSig rfl ⟨by decide, .inl hvf⟩
  simp only [execOp] at hexec
  obtain ⟨res, hres, hexec⟩ := bind_eq_ok.mp hexec
  obtain rfl := pure_eq_ok.mp hexec
  rw [evalLoop] at hrun
  rw [← Except.ok.inj hrun]
  unfold checkSigOp at hres
  split at hres
  · rename_i pk sig s hs
    obtain ⟨_, -, hres⟩ := bind_eq_ok.mp hres
    obtain ⟨_, -, hres⟩ := bind_eq_ok.mp hres
    obtain rfl := pure_eq_ok.mp hres
    exact ⟨pk, sig, s, hs, rfl⟩
  · cases hres

theorem opIf {x : Bytes} (h : r.At (n + 1) (x :: s) vf (OP_IF :: pc)) (hvf : vf.all id = true) :
    r.At n s (castToBool x :: vf) pc := by
  obtain ⟨st₀, st₁, ⟨hs, rfl⟩, hexec, hrun⟩ := h.exec .opIf rfl ⟨by decide, .inl hvf⟩
  simp only [execOp, hvf, if_true, hs] at hexec
  obtain rfl := Except.ok.inj hexec
  exact of_run hrun ⟨rfl, by simp⟩

theorem opElse {f : Bool} (h : r.At (n + 1) stack (f :: vf) (OP_ELSE :: pc)) : r.At n stack ((!f) :: vf) pc := by
  obtain ⟨st₀, st₁, ⟨rfl, hf⟩, hexec, hrun⟩ := h.exec .opElse rfl ⟨by decide, .inr (by decide)⟩
  simp only [execOp, hf] at hexec
  obtain rfl := Except.ok.inj hexec
  exact of_run hrun ⟨rfl, rfl⟩

theorem opEndIf {f : Bool} (h : r.At (n + 1) stack (f :: vf) (OP_ENDIF :: pc)) : r.At n stack vf pc := by
  obtain ⟨st₀, st₁, ⟨rfl, hf⟩, hexec, hrun⟩ := h.exec .opEndIf rfl ⟨by decide, .inr (by decide)⟩
  simp only [execOp, hf] at hexec
  obtain rfl := Except.ok.inj hexec
  exact of_run hrun ⟨rfl, rfl⟩

theorem coldStake {lof : Bool} (h : r.At (n + 1) stack vf (op :: pc)) (hop : OP_PUSHDATA4 < op)
    (hdecode : decodeOp op = .checkColdStakeVerify lof) (hvf : vf.all id = true) :
    r.c.checkColdStake r.flags lof r.script stack = .ok () ∧ r.At n stack vf pc := by
  obtain ⟨st₀, st₁, ⟨rfl, rfl⟩, hexec, hrun⟩ := h.exec _ hdecode ⟨hop, .inl hvf⟩
  simp only [execOp] at hexec
  obtain ⟨_, hcheck, hexec⟩ := bind_eq_ok.mp hexec
  obtain rfl := pure_eq_ok.mp hexec
  exact ⟨hcheck, st₀, ⟨rfl, rfl⟩, hrun⟩

end LoopRun.At

/-! ## The script code -/

/-- Only `OP_CODESEPARATOR` changes what signatures sign. -/
theorem execOp_codeHash {fExec : Bool} {op : OpCode} (h : execOp c flags script pc fExec st op = .ok st')
    (hop : op ≠ .codeSeparator) : st'.codeHash = st.codeHash := by
  unfold execOp at h
  split at h
  all_goals try (first | (cases h; rfl) | exact absurd rfl hop)
  all_goals repeat' split at h
  all_goals try (first | (cases h; rfl) | (cases h))
  all_goals simp only [bind_eq_ok, require_eq_ok, pure_eq_ok] at h
  all_goals grind

theorem step_codeHash (h : step c flags script st op vch pc = .ok st')
    (hop : decodeOp op ≠ .codeSeparator) : st'.codeHash = st.codeHash := by
  have hst₁ := step_eq_ok h
  have hcount : (st.count op).codeHash = st.codeHash := by
    unfold ScriptState.count
    split <;> rfl
  rw [← hcount]
  unfold perform at hst₁
  split at hst₁
  · split at hst₁
    · cases hst₁
    · obtain rfl := Except.ok.inj hst₁
      rfl
  · split at hst₁
    · exact execOp_codeHash hst₁ hop
    · obtain rfl := Except.ok.inj hst₁
      rfl

/-- The first `fuel` instructions of a script are no `OP_CODESEPARATOR`. -/
def SeparatorFree : Nat → CScript → Prop
  | 0, _ => True
  | fuel + 1, pc => ∀ op d next, CScript.getOp pc = some (op, d, next) →
      decodeOp op ≠ .codeSeparator ∧ SeparatorFree fuel next

theorem SeparatorFree.cons (hop : OP_PUSHDATA4 < op) (hdecode : decodeOp op ≠ .codeSeparator) (h : SeparatorFree n pc) :
    SeparatorFree (n + 1) (op :: pc) := by
  intro op' d next hget
  rw [CScript.getOp_of_lt hop] at hget
  cases hget
  exact ⟨hdecode, h⟩

theorem SeparatorFree.push20 (hd : d.length = 20) (h : SeparatorFree n pc) :
    SeparatorFree (n + 1) (0x14 :: (d ++ pc)) := by
  intro op' d' next hget
  rw [CScript.getOp_push20 hd] at hget
  cases hget
  exact ⟨by decide +kernel, h⟩

theorem evalLoop_codeHash : ∀ {n : Nat} {st : ScriptState} {pc : CScript}, SeparatorFree n pc →
    evalLoop c flags script n st pc = .ok out → out.codeHash = st.codeHash
  | n, st, [], _, h => by
    rw [evalLoop] at h
    obtain rfl := Except.ok.inj h
    rfl
  | 0, _, _ :: _, _, h => by
    rw [evalLoop] at h
    cases h
  | n + 1, st, b :: pc, hfree, h => by
    rw [evalLoop] at h
    cases hget : CScript.getOp (b :: pc) with
    | none =>
      rw [hget] at h
      cases h
    | some r =>
      obtain ⟨op, d, next⟩ := r
      rw [hget] at h
      obtain ⟨st₁, hstep, h⟩ := bind_eq_ok.mp h
      obtain ⟨hop, hrest⟩ := hfree op d next hget
      rw [evalLoop_codeHash hrest h, step_codeHash hstep hop]

end Instructions

/-! ## The templates -/

variable {c : TransactionSignatureChecker} {flags : ScriptFlags} {stack out : List Bytes} {s : CScript}

theorem evalLoop_of_evalScript {bytes : CScript} {n : Nat} (hbytes : s = bytes) (hn : s.length = n)
    (h : evalScript c flags stack s = .ok out) :
    ∃ st : ScriptState, LoopRun.At ⟨c, flags, s, st⟩ n stack [] bytes ∧ (SeparatorFree n bytes → st.codeHash = s) ∧
      out = st.stack := by
  subst hn hbytes
  unfold evalScript at h
  obtain ⟨_, -, h⟩ := bind_eq_ok.mp h
  obtain ⟨st, hst, h⟩ := bind_eq_ok.mp h
  obtain ⟨_, -, h⟩ := bind_eq_ok.mp h
  exact ⟨st, ⟨_, ⟨rfl, rfl⟩, hst⟩, fun hfree => evalLoop_codeHash hfree hst, (pure_eq_ok.mp h).symm⟩

/-- **P2PKH.** The key on top of the stack has the hash of the script. -/
theorem evalScript_p2pkh (hs : CScript.isPayToPublicKeyHash s = true) (h : evalScript c flags stack s = .ok out) :
    ∃ pk rest, stack = pk :: rest ∧ c.crypto.hash160 pk = CScript.keyHash s := by
  obtain ⟨hshape, hlen⟩ := CScript.p2pkh_eq hs
  have hlength : s.length = 25 := by rw [hshape]; simp [hlen]
  obtain ⟨st, hat, -⟩ := evalLoop_of_evalScript hshape hlength h
  obtain ⟨pk, rest, rfl, hdup⟩ := hat.dup rfl
  have hpush := (hdup.hash160 rfl).push20 hlen rfl
  exact ⟨pk, rest, rfl, (hpush.equalVerify rfl).1⟩

variable (c flags s) in
/-- What the two branches of a P2CS script establish: `pk` on top of the stack, below it the element that selects the
branch. -/
def BranchTaken (pk sel : Bytes) (rest : List Bytes) : Prop :=
  if castToBool sel = true then c.crypto.hash160 pk = CScript.stakerHash s ∧
    c.checkColdStake flags (CScript.has s 4 OP_CHECKCOLDSTAKEVERIFY_LOF) s (c.crypto.hash160 pk :: pk :: rest) = .ok ()
  else c.crypto.hash160 pk = CScript.ownerHash s

variable (hs : CScript.isPayToColdStaking s = true) (h : evalScript c flags stack s = .ok out)
include hs h

/-- **P2CS.** The key on top of the stack has the hash of the branch that was taken, and the script leaves whether the
element below the selecting one is its signature. -/
theorem evalScript_p2cs_sig :
    ∃ pk sel sig rest, stack = pk :: sel :: sig :: rest ∧ BranchTaken c flags s pk sel (sig :: rest) ∧
      out = ofBool (c.checkSig sig pk (s.findAndDelete (CScript.pushing sig))) :: rest := by
  obtain ⟨op, hop, hshape, hstaker, howner⟩ := CScript.p2cs_eq hs
  have hlength : s.length = 51 := by rw [hshape]; simp [hstaker, howner]
  have hdecode : decodeOp op = .checkColdStakeVerify (CScript.has s 4 OP_CHECKCOLDSTAKEVERIFY_LOF) := by
    have hhas : CScript.has s 4 OP_CHECKCOLDSTAKEVERIFY_LOF = (op == OP_CHECKCOLDSTAKEVERIFY_LOF) := by
      rw [hshape]; rfl
    rcases hop with rfl | rfl <;> rw [hhas] <;> decide +kernel
  have hopcode : OP_PUSHDATA4 < op ∧ ¬(OP_IF ≤ op ∧ op ≤ OP_ENDIF) := by
    rcases hop with rfl | rfl <;> decide
  obtain ⟨st, hat, hcode, rfl⟩ := evalLoop_of_evalScript hshape hlength h
  have hfree : SeparatorFree 51 (OP_DUP :: OP_HASH160 :: OP_ROT :: OP_IF :: op :: 0x14 :: (CScript.stakerHash s ++
      OP_ELSE :: 0x14 :: (CScript.ownerHash s ++ [OP_ENDIF, OP_EQUALVERIFY, OP_CHECKSIG]))) := by
    refine .cons (by decide) (by decide +kernel) (.cons (by decide) (by decide +kernel) ?_)
    refine .cons (by decide) (by decide +kernel) (.cons (by decide) (by decide +kernel) ?_)
    refine .cons hopcode.1 (by rw [hdecode]; exact fun h => (by cases h)) (.push20 hstaker ?_)
    refine .cons (by decide) (by decide +kernel) (.push20 howner ?_)
    refine .cons (by decide) (by decide +kernel) (.cons (by decide) (by decide +kernel) ?_)
    refine .cons (by decide) (by decide +kernel) fun op' d next hget => ?_
    cases hget
  have hsigned := hcode hfree
  obtain ⟨pk, s₁, rfl, hdup⟩ := hat.dup rfl
  obtain ⟨sel, rest, rfl, hrot⟩ := (hdup.hash160 rfl).rot rfl
  have hif := hrot.opIf rfl
  cases hsel : castToBool sel with
  | true =>
    rw [hsel] at hif
    obtain ⟨hcheck, hstake⟩ := hif.coldStake hopcode.1 hdecode rfl
    have helse := (hstake.push20 hstaker rfl).opElse
    -- the owner's hash is not pushed
    have hend := (helse.skip (CScript.getOp_push20 howner _) (by decide) rfl).opEndIf
    obtain ⟨hhash, hverified⟩ := hend.equalVerify rfl
    obtain ⟨pk', sig, rest', heq, hout⟩ := hverified.checkSig rfl
    cases heq
    refine ⟨pk, sel, sig, rest', rfl, ?_, by rw [hout, hsigned]⟩
    rw [BranchTaken, if_pos hsel]
    exact ⟨hhash, hcheck⟩
  | false =>
    rw [hsel] at hif
    have hskip := hif.skip (CScript.getOp_of_lt hopcode.1 _) hopcode.2 rfl
    have helse := (hskip.skip (CScript.getOp_push20 hstaker _) (by decide) rfl).opElse
    have hend := (helse.push20 howner rfl).opEndIf
    obtain ⟨hhash, hverified⟩ := hend.equalVerify rfl
    obtain ⟨pk', sig, rest', heq, hout⟩ := hverified.checkSig rfl
    cases heq
    refine ⟨pk, sel, sig, rest', rfl, ?_, by rw [hout, hsigned]⟩
    rw [BranchTaken, if_neg (by rw [hsel]; decide)]
    exact hhash

theorem evalScript_p2cs : ∃ pk sel rest, stack = pk :: sel :: rest ∧ BranchTaken c flags s pk sel rest := by
  obtain ⟨pk, sel, sig, rest, rfl, hbranch, -⟩ := evalScript_p2cs_sig hs h
  exact ⟨pk, sel, sig :: rest, rfl, hbranch⟩

end TrumpCoin
