import TrumpCoin.Payments.Assembly

/-!
# What assembled blocks mint

`CreateCoinStake` of the wallet, as far as its outputs go, and `GetTotalBudget`. The values of the outputs are split and
moved between coinstake and coinbase in several places; the sums show which reward a block takes
(`createCoinStake_total`, `fillBlockPayee_stake_total`, `createCoinbaseTx_total`).

* `rewward_eq_iff`: the heights where the two schedules agree;
* `rewards_agree_iff`: the heights where the budget and every assembled block take the reward of `GetBlockValue`.
-/

namespace TrumpCoin

open Lib PayeeState

/-! ## The coinstake -/

def MAX_STANDARD_TX_SIZE : Nat := 150000

/-- `CPivStake::CreateTxOuts`: the outputs for a total, split by the threshold of the wallet. -/
def createTxOuts (scriptPubKeyKernel : CScript) (nStakeSplitThreshold nTotal : Int) : List CTxOut :=
  let nSplit : Int := (nTotal.tdiv nStakeSplitThreshold).bmod (2 ^ 32)
  let nOuts : Int := if 0 < nStakeSplitThreshold ∧ 1 < nSplit then min nSplit (MAX_STANDARD_TX_SIZE >>> 11 : Nat) else 1
  ⟨0, scriptPubKeyKernel⟩ :: List.replicate (nOuts - 1).toNat ⟨0, scriptPubKeyKernel⟩

/-- One step of the loop that sets the amounts, with what remains. -/
def setShare (nShare : Int) (s : List CTxOut × Int) (i : Nat) : List CTxOut × Int :=
  (modifyValue i (fun _ => nShare) s.1, s.2 - nShare)

def setAmounts (vout : List CTxOut) (nCredit : Int) : List CTxOut :=
  let outputs := vout.length - 1
  let (vout, nRemaining) :=
    if 1 < outputs then (List.range' 1 (outputs - 1)).foldl (setShare (nCredit.tdiv outputs)) (vout, nCredit)
    else (vout, nCredit)
  modifyValue outputs (· + nRemaining) vout

variable (pindexPrev : CBlockIndex) (nStakeSplitThreshold : Int) (kernel : CTxOut)

/-- The outputs of `CreateCoinStake` for a kernel that was found. -/
def createCoinStake : List CTxOut :=
  let nCredit := kernel.nValue + rewward (pindexPrev.nHeight + 1)
  setAmounts (⟨0, []⟩ :: createTxOuts kernel.scriptPubKey nStakeSplitThreshold nCredit) nCredit

def getTotalBudget (p : CChainParams) (nHeight : Int) : Int := (rewward nHeight).tdiv 5 * p.nBudgetCycleBlocks

/-! ## Sums of outputs -/

def voutTotal (vout : List CTxOut) : Int := (vout.map CTxOut.nValue).sum

@[simp] theorem voutTotal_nil : voutTotal [] = 0 := rfl

@[simp] theorem voutTotal_cons (out : CTxOut) (vout : List CTxOut) :
    voutTotal (out :: vout) = out.nValue + voutTotal vout := by
  simp [voutTotal]

@[simp] theorem voutTotal_append (vout vout' : List CTxOut) :
    voutTotal (vout ++ vout') = voutTotal vout + voutTotal vout' := by
  simp [voutTotal]

theorem voutTotal_modifyValue {i : Nat} {out : CTxOut} (f : Int → Int) {vout : List CTxOut} (h : vout[i]? = some out) :
    voutTotal (modifyValue i f vout) = voutTotal vout + (f out.nValue - out.nValue) := by
  induction vout generalizing i with
  | nil => cases h
  | cons a vout ih =>
    cases i with
    | zero =>
      cases h
      simp only [modifyValue, List.modify_zero_cons, voutTotal_cons]
      omega
    | succ i =>
      have hrest := ih (i := i) h
      simp only [modifyValue, List.modify_succ_cons, voutTotal_cons] at hrest ⊢
      omega

@[simp] theorem length_modifyValue (i : Nat) (f : Int → Int) (vout : List CTxOut) :
    (modifyValue i f vout).length = vout.length := List.length_modify ..

theorem voutTotal_foldl_sub {c : Int} {js : List Nat} : ∀ {vout : List CTxOut}, (∀ j ∈ js, j < vout.length) →
    voutTotal (js.foldl (fun vout j => modifyValue j (· - c) vout) vout) = voutTotal vout - c * js.length := by
  induction js with
  | nil => simp
  | cons j js ih =>
    intro vout h
    rw [List.forall_mem_cons] at h
    obtain ⟨out, hout⟩ : ∃ out, vout[j]? = some out := ⟨_, List.getElem?_eq_getElem h.1⟩
    have hlen : ∀ k ∈ js, k < (modifyValue j (· - c) vout).length := by
      intro k hk
      rw [length_modifyValue]
      exact h.2 k hk
    rw [List.foldl_cons, ih hlen, voutTotal_modifyValue _ hout, List.length_cons, Nat.cast_add, Nat.cast_one,
      Int.mul_add]
    omega

theorem subtractMnPaymentFromCoinstake_total {vout vout' : List CTxOut} {patriotnodePayment : Int} {stakerOuts : Nat}
    (hlen : stakerOuts ≤ vout.length)
    (h : subtractMnPaymentFromCoinstake vout patriotnodePayment stakerOuts = .ok vout') :
    voutTotal vout' = voutTotal vout - patriotnodePayment := by
  obtain ⟨_, houts, h⟩ := bind_eq_ok.mp h
  rw [require_eq_ok] at houts
  split at h
  · cases h
    obtain ⟨out, hout⟩ : ∃ out, vout[1]? = some out := ⟨_, List.getElem?_eq_getElem (by omega)⟩
    rw [voutTotal_modifyValue _ hout]
    omega
  · cases h
    have hin : ∀ j ∈ List.range' 1 (stakerOuts - 1), j < vout.length := by
      intro j hj
      rw [List.mem_range'_1] at hj
      omega
    have hlast : stakerOuts - 1 < ((List.range' 1 (stakerOuts - 1)).foldl (fun vout j =>
        modifyValue j (· - patriotnodePayment.tdiv (stakerOuts - 1 : Nat)) vout) vout).length := by
      refine List.foldlRecOn (motive := fun r : List CTxOut => stakerOuts - 1 < r.length) _ _ (by omega) fun r hr j _ => ?_
      rwa [length_modifyValue]
    rw [voutTotal_modifyValue _ (List.getElem?_eq_getElem hlast), voutTotal_foldl_sub hin, List.length_range']
    omega

/-! ## The coinstake takes the reward -/

theorem modifyValue_last (f : Int → Int) (pre post : List CTxOut) (o : CTxOut) :
    modifyValue pre.length f (pre ++ o :: post) = pre ++ { o with nValue := f o.nValue } :: post := by
  rw [modifyValue, List.modify_eq_take_drop, List.take_left, List.drop_left]
  rfl

theorem foldl_modifyValue_range (f : Int → Int) (post : List CTxOut) : ∀ (pre mid : List CTxOut),
    (List.range' pre.length mid.length).foldl (fun vout j => modifyValue j f vout) (pre ++ (mid ++ post)) =
      pre ++ (mid.map (fun o => { o with nValue := f o.nValue }) ++ post)
  | pre, [] => rfl
  | pre, o :: mid => by
    have hfirst : modifyValue pre.length f (pre ++ (o :: mid ++ post)) =
        (pre ++ [{ o with nValue := f o.nValue }]) ++ (mid ++ post) := by
      rw [List.cons_append, modifyValue_last, List.append_assoc]
      rfl
    have hrest := foldl_modifyValue_range f post (pre ++ [{ o with nValue := f o.nValue }]) mid
    rw [List.length_append, List.length_singleton] at hrest
    rw [List.length_cons, List.range'_succ, List.foldl_cons, hfirst, hrest, List.append_assoc]
    rfl

theorem foldl_setShare_eq (nShare : Int) : ∀ (js : List Nat) (s : List CTxOut × Int),
    js.foldl (setShare nShare) s =
      (js.foldl (fun vout j => modifyValue j (fun _ => nShare) vout) s.1, s.2 - nShare * js.length)
  | [], s => by simp
  | j :: js, s => by
    rw [List.foldl_cons, foldl_setShare_eq nShare js, List.foldl_cons, List.length_cons, Nat.cast_succ, Int.mul_add]
    simp only [setShare, Int.mul_one]
    congr 1
    omega

variable (script : CScript) (n : Nat)

/-- Outputs to a script of which all but the last have the same value. -/
def shares (share last : Int) : List CTxOut :=
  List.replicate n ⟨share, script⟩ ++ [⟨last, script⟩]

@[simp] theorem length_shares (share last : Int) : (shares script n share last).length = n + 1 := by
  simp [shares]

theorem voutTotal_shares (share last : Int) : voutTotal (shares script n share last) = n * share + last := by
  simp [shares, voutTotal]

/-- The amount that the last of `n + 1` outputs gets or loses. -/
def lastShare (amount : Int) (n : Nat) : Int := amount.tdiv (n + 1 : Nat) + amount.tmod (n + 1 : Nat)

theorem lastShare_eq (amount : Int) (n : Nat) : lastShare amount n = amount - amount.tdiv (n + 1 : Nat) * n := by
  have hdiv := Int.mul_tdiv_add_tmod amount (n + 1 : Nat)
  rw [Nat.cast_succ, Int.add_mul, Int.one_mul, Int.mul_comm (n : Int)] at hdiv
  rw [lastShare, Nat.cast_succ]
  omega

/-- A credit divided over `n + 1` outputs. -/
def creditShares (nCredit : Int) : List CTxOut :=
  shares script n (nCredit.tdiv (n + 1 : Nat)) (lastShare nCredit n)

theorem voutTotal_creditShares (nCredit : Int) : voutTotal (creditShares script n nCredit) = nCredit := by
  rw [creditShares, voutTotal_shares, lastShare_eq, Int.mul_comm]
  omega

theorem setAmounts_replicate (first : CTxOut) (script : CScript) (n : Nat) (nCredit : Int) :
    setAmounts (first :: List.replicate (n + 1) ⟨0, script⟩) nCredit = first :: creditShares script n nCredit := by
  have hloop := foldl_modifyValue_range (fun _ => nCredit.tdiv (n + 1 : Nat)) [⟨0, script⟩] [first]
    (List.replicate n ⟨0, script⟩)
  rw [List.length_replicate, List.map_replicate, ← List.replicate_succ'] at hloop
  have hbranch : (if 1 < n + 1 then (List.range' 1 n).foldl (setShare (nCredit.tdiv (n + 1 : Nat)))
        (first :: List.replicate (n + 1) ⟨0, script⟩, nCredit)
      else (first :: List.replicate (n + 1) ⟨0, script⟩, nCredit)) =
        (first :: (List.replicate n ⟨nCredit.tdiv (n + 1 : Nat), script⟩ ++ [⟨0, script⟩]),
          nCredit - nCredit.tdiv (n + 1 : Nat) * n) := by
    split
    · rw [foldl_setShare_eq, List.length_range']
      exact Prod.ext hloop rfl
    · obtain rfl : n = 0 := by omega
      simp
  unfold setAmounts
  dsimp only
  rw [List.length_cons, List.length_replicate, Nat.add_sub_cancel, Nat.add_sub_cancel, hbranch]
  have hlast := modifyValue_last (· + (nCredit - nCredit.tdiv (n + 1 : Nat) * n))
    (first :: List.replicate n ⟨nCredit.tdiv (n + 1 : Nat), script⟩) [] ⟨0, script⟩
  rw [List.length_cons, List.length_replicate] at hlast
  rw [creditShares, shares, lastShare_eq]
  simpa using hlast

/-- The number of outputs that the wallet adds to the first one. -/
def splitOuts (nStakeSplitThreshold nTotal : Int) : Nat := (createTxOuts [] nStakeSplitThreshold nTotal).length - 1

theorem createTxOuts_eq (script : CScript) (nStakeSplitThreshold nTotal : Int) :
    createTxOuts script nStakeSplitThreshold nTotal =
      List.replicate (splitOuts nStakeSplitThreshold nTotal + 1) ⟨0, script⟩ := by
  simp only [splitOuts, createTxOuts, List.length_cons, List.length_replicate, Nat.add_sub_cancel, List.replicate_succ]

theorem createCoinStake_eq (nCredit : Int)
    (n : Nat) (hcredit : nCredit = kernel.nValue + rewward (pindexPrev.nHeight + 1))
    (hn : n = splitOuts nStakeSplitThreshold nCredit) :
    createCoinStake pindexPrev nStakeSplitThreshold kernel =
      ⟨0, []⟩ :: creditShares kernel.scriptPubKey n nCredit := by
  unfold createCoinStake
  dsimp only
  rw [← hcredit, createTxOuts_eq, ← hn, setAmounts_replicate]

/-- **The wallet's coinstake** pays out the kernel and the reward of `rewward`. -/
theorem createCoinStake_total : voutTotal (createCoinStake pindexPrev nStakeSplitThreshold kernel) =
      kernel.nValue + rewward (pindexPrev.nHeight + 1) := by
  rw [createCoinStake_eq pindexPrev nStakeSplitThreshold kernel _ _ rfl rfl, voutTotal_cons, voutTotal_creditShares]
  exact Int.zero_add _

/-! ## Assembled blocks -/

namespace PayeeState

variable (S : PayeeState) (p : CChainParams) (pindexPrev : CBlockIndex)

/-- The amount of the budget payment that the block makes. -/
def budgetAmount : Int := ((S.budgetPayment pindexPrev).map fun payment => payment.txOut.nValue).getD 0

variable {S p pindexPrev}

/-- **Stake blocks.** `FillBlockPayee` adds the budget payment and moves the rest between coinstake and coinbase. -/
theorem fillBlockPayee_stake_total {txCoinStake cb cs : List CTxOut}
    (h : S.fillBlockPayee p (newCoinbase []) txCoinStake pindexPrev true = .ok (cb, cs)) :
    voutTotal cb + voutTotal cs = voutTotal txCoinStake + S.budgetAmount pindexPrev := by
  unfold budgetAmount
  cases hbudget : S.budgetPayment pindexPrev with
  | some payment =>
    rw [S.fillBlockPayee_of_budget p pindexPrev hbudget] at h
    cases hv6 : p.networkUpgradeActive (pindexPrev.nHeight + 1) .UPGRADE_V6_0 with
    | true =>
      simp only [hv6, if_true] at h
      cases h
      simp [newCoinbase, resize, Int.add_comm]
    | false =>
      simp only [hv6, if_true, Bool.false_eq_true, if_false] at h
      cases h
      simp [newCoinbase]
  | none =>
    rw [S.fillBlockPayee_of_node p pindexPrev hbudget] at h
    unfold fillPatriotnodePayee at h
    cases houts : S.getPatriotnodeTxOuts p pindexPrev with
    | none =>
      rw [houts] at h
      cases h
      simp [newCoinbase]
    | some vecMnOuts =>
      rw [houts] at h
      obtain ⟨cs', hsub, h⟩ := bind_eq_ok.mp h
      cases h
      cases hv6 : p.networkUpgradeActive (pindexPrev.nHeight + 1) .UPGRADE_V6_0 with
      | true =>
        rw [hv6] at hsub
        rw [subtractMnPaymentFromCoinstake_total (Nat.le_refl _) hsub]
        simp [voutTotal]
      | false =>
        rw [hv6] at hsub
        rw [subtractMnPaymentFromCoinstake_total (by simp) hsub]
        simp [voutTotal, newCoinbase]

/-- **Work blocks.** The coinbase pays out one of the two rewards, and the budget payment. -/
theorem createCoinbaseTx_total {script : CScript} {cb : List CTxOut}
    (h : S.createCoinbaseTx p script pindexPrev = .ok cb) :
    voutTotal cb = rewward (pindexPrev.nHeight + 1) + S.budgetAmount pindexPrev ∨
      voutTotal cb = getBlockValue (pindexPrev.nHeight + 1) + S.budgetAmount pindexPrev := by
  obtain ⟨⟨vout, cs⟩, hfill, h⟩ := bind_eq_ok.mp h
  unfold budgetAmount
  cases hbudget : S.budgetPayment pindexPrev with
  | some payment =>
    rw [S.fillBlockPayee_of_budget p pindexPrev hbudget] at hfill
    cases hfill
    cases h
    exact .inl (by simp [newCoinbase, resize, modifyValue])
  | none =>
    rw [S.fillBlockPayee_of_node p pindexPrev hbudget] at hfill
    unfold fillPatriotnodePayee getPatriotnodeTxOuts getLegacyPatriotnodeTxOut at hfill
    cases hpayee : S.legacyPayee p (pindexPrev.nHeight + 1) with
    | none =>
      rw [hpayee] at hfill
      cases hfill
      cases h
      exact .inr (by simp [newCoinbase, modifyValue])
    | some payee =>
      rw [hpayee] at hfill
      cases hfill
      cases h
      exact .inl (by simp [newCoinbase, modifyValue, voutTotal])

end PayeeState

/-! ## Agreement -/

theorem join_bands {a b c n v w : Int} (hab : a ≤ b) (hbc : b ≤ c) :
    (if a < n ∧ n ≤ b then v else if b < n ∧ n ≤ c then v else w) = if a < n ∧ n ≤ c then v else w := by
  split_ifs <;> omega

theorem rewards_in_band {nHeight : Int} (h : 1310000 < nHeight ∧ nHeight ≤ 1310010) :
    rewward nHeight = 3 * COIM ∧ getBlockValue nHeight = 3 * COIN := by
  unfold rewward getBlockValue
  constructor <;> simp (disch := omega) only [if_neg, if_pos]

theorem rewward_of_not_band {nHeight : Int} (h : ¬(1310000 < nHeight ∧ nHeight ≤ 1310010)) :
    rewward nHeight = getBlockValue nHeight := by
  -- the bands of the wallet after height 1300000 are one band
  have hlast : ∀ v w : Int, (if 1300000 < nHeight ∧ nHeight ≤ 1310000 then v
      else if 1310010 < nHeight ∧ nHeight ≤ 2200000 then v else w) =
        if 1300000 < nHeight ∧ nHeight ≤ 2200000 then v else w := by
    intro v w
    split_ifs <;> omega
  unfold rewward getBlockValue
  rw [if_neg h, ite_self]
  repeat rw [join_bands (by decide) (by decide)]
  rw [hlast]

/-- **The two schedules** differ in one band of ten heights. -/
theorem rewward_eq_iff (nHeight : Int) :
    rewward nHeight = getBlockValue nHeight ↔ ¬(1310000 < nHeight ∧ nHeight ≤ 1310010) := by
  constructor
  · intro heq hband
    rw [(rewards_in_band hband).1, (rewards_in_band hband).2] at heq
    exact absurd heq (by decide)
  · exact rewward_of_not_band

/-- At a height, everything that is computed from `rewward` is what `GetBlockValue` gives: the total budget, what a
stake block mints and what the coinbase of a work block pays out, budget payments apart. -/
structure RewardsAgree (nHeight : Int) : Prop where
  schedule : rewward nHeight = getBlockValue nHeight
  budget : ∀ p, getTotalBudget p nHeight = (getBlockValue nHeight).tdiv 5 * p.nBudgetCycleBlocks
  stake : ∀ (S : PayeeState) (p : CChainParams) (pindexPrev : CBlockIndex) (nStakeSplitThreshold : Int) (kernel : CTxOut)
    (cb cs : List CTxOut), nHeight = pindexPrev.nHeight + 1 →
    S.fillBlockPayee p (newCoinbase []) (createCoinStake pindexPrev nStakeSplitThreshold kernel) pindexPrev true =
      .ok (cb, cs) →
    voutTotal cb + voutTotal cs - kernel.nValue = getBlockValue nHeight + S.budgetAmount pindexPrev
  work : ∀ (S : PayeeState) (p : CChainParams) (pindexPrev : CBlockIndex) (script : CScript) (cb : List CTxOut),
    nHeight = pindexPrev.nHeight + 1 → S.createCoinbaseTx p script pindexPrev = .ok cb →
    voutTotal cb = getBlockValue nHeight + S.budgetAmount pindexPrev

/-- **Reward agreement.** The reward that the wallet, the block assembler and the budget use is that of
`GetBlockValue` exactly outside the heights 1310001 to 1310010. -/
theorem rewards_agree_iff (nHeight : Int) : RewardsAgree nHeight ↔ ¬(1310000 < nHeight ∧ nHeight ≤ 1310010) := by
  constructor
  · intro h
    exact (rewward_eq_iff nHeight).mp h.schedule
  · intro h
    have hsame := (rewward_eq_iff nHeight).mpr h
    refine ⟨hsame, fun p => by rw [getTotalBudget, hsame], ?_, ?_⟩
    · rintro S p pindexPrev nStakeSplitThreshold kernel cb cs rfl hfill
      have hmint := fillBlockPayee_stake_total hfill
      have hstake := createCoinStake_total pindexPrev nStakeSplitThreshold kernel
      omega
    · rintro S p pindexPrev script cb rfl hfill
      rcases createCoinbaseTx_total hfill with htotal | htotal <;> omega

/-- At height 1310001 the reward of the wallet is 570000 coins instead of 3. -/
theorem rewards_differ_at_1310001 : rewward 1310001 = 570000 * COIN ∧ getBlockValue 1310001 = 3 * COIN ∧
    ¬RewardsAgree 1310001 := by
  refine ⟨by decide, by decide, fun h => ?_⟩
  exact absurd h.schedule (by decide)

end TrumpCoin
