import TrumpCoin.Payments.Mint

/-!
# Payments come out of the reward

`CPatriotnodePayments::FillBlockPayee` adds the node's payment and takes it from the staker's outputs or from the
coinbase. What the outputs are afterwards, for any number of them (`fillPatriotnodePayee_split`), and when all of that
stays within the block reward:

* `Covers`: the credit of the staker, divided over its outputs, covers the payment divided in the same way;
* `covers_of_height`: after height 3000 it always does;
* `payment_conserved_iff`: when nothing is minted beyond the reward and no output is negative.
-/

namespace TrumpCoin

open Lib PayeeState

/-! ## Shares -/

variable {n : Nat} {nHeight : Int} {script : CScript}

theorem shares_nonneg_iff {share last : Int} :
    (∀ out ∈ shares script n share last, 0 ≤ out.nValue) ↔ (n = 0 ∨ 0 ≤ share) ∧ 0 ≤ last := by
  simp only [shares, List.forall_mem_append, List.mem_replicate, List.forall_mem_singleton]
  constructor
  · rintro ⟨hshare, hlast⟩
    refine ⟨?_, hlast⟩
    by_cases hn : n = 0
    · exact .inl hn
    · exact .inr (hshare _ ⟨hn, rfl⟩)
  · rintro ⟨hshare, hlast⟩
    refine ⟨?_, hlast⟩
    rintro out ⟨hn, rfl⟩
    exact hshare.resolve_left hn

theorem splitOuts_lt (nStakeSplitThreshold nTotal : Int) : splitOuts nStakeSplitThreshold nTotal < 73 := by
  have hmax : MAX_STANDARD_TX_SIZE >>> 11 = 73 := by decide
  simp only [splitOuts, createTxOuts, List.length_cons, List.length_replicate, Nat.add_sub_cancel, hmax]
  split <;> omega

/-- A credit from which a payment was taken, each divided over `n + 1` outputs. -/
def netShares (script : CScript) (n : Nat) (nCredit patriotnodePayment : Int) : List CTxOut :=
  shares script n (nCredit.tdiv (n + 1 : Nat) - patriotnodePayment.tdiv (n + 1 : Nat))
    (lastShare nCredit n - lastShare patriotnodePayment n)

/-- `SubtractMnPaymentFromCoinstake` takes from every share the same part of the payment. -/
theorem subtractMnPaymentFromCoinstake_shares (first : CTxOut) (script : CScript) (n : Nat)
    (nCredit patriotnodePayment : Int) (outs : List CTxOut) :
    subtractMnPaymentFromCoinstake (first :: creditShares script n nCredit ++ outs) patriotnodePayment (n + 2) =
      .ok (first :: netShares script n nCredit patriotnodePayment ++ outs) := by
  unfold creditShares netShares
  generalize nCredit.tdiv (n + 1 : Nat) = share, lastShare nCredit n = last
  unfold subtractMnPaymentFromCoinstake
  rw [require_pos (by omega), ok_bind]
  split
  · obtain rfl : n = 0 := by omega
    simp [shares, lastShare, modifyValue]
    rfl
  · have hloop := foldl_modifyValue_range (· - patriotnodePayment.tdiv (n + 1 : Nat)) outs [first]
      (shares script n share last)
    rw [length_shares, List.length_singleton] at hloop
    have hlast := modifyValue_last
      (· - (patriotnodePayment - patriotnodePayment.tdiv (n + 1 : Nat) * (n + 1 : Nat)))
      (first :: List.replicate n ⟨share - patriotnodePayment.tdiv (n + 1 : Nat), script⟩) outs
      ⟨last - patriotnodePayment.tdiv (n + 1 : Nat), script⟩
    rw [List.length_cons, List.length_replicate] at hlast
    have hmap : [first] ++ ((shares script n share last).map
        (fun o => { o with nValue := o.nValue - patriotnodePayment.tdiv (n + 1 : Nat) }) ++ outs) =
          (first :: List.replicate n ⟨share - patriotnodePayment.tdiv (n + 1 : Nat), script⟩) ++
            ⟨last - patriotnodePayment.tdiv (n + 1 : Nat), script⟩ :: outs := by
      simp [shares]
    have hvalue : last - patriotnodePayment.tdiv (n + 1 : Nat) -
        (patriotnodePayment - patriotnodePayment.tdiv (n + 1 : Nat) * (n + 1 : Nat)) =
          last - lastShare patriotnodePayment n := by
      rw [lastShare_eq, Nat.cast_succ, Int.mul_add]
      omega
    show Except.ok _ = _
    rw [show n + 2 - 1 = n + 1 from rfl, show first :: shares script n share last ++ outs =
      [first] ++ (shares script n share last ++ outs) from rfl, hloop, hmap, hlast, hvalue]
    simp [shares]

/-! ## When the payment is covered -/

/-- A credit divided over `n + 1` outputs covers a payment divided in the same way: the last output pays the remainder
of the payment and has the remainder of the credit. -/
def Covers (nCredit patriotnodePayment : Int) (n : Nat) : Prop :=
  patriotnodePayment.tdiv (n + 1 : Nat) ≤ nCredit.tdiv (n + 1 : Nat) ∧
    lastShare patriotnodePayment n ≤ lastShare nCredit n

instance (nCredit patriotnodePayment : Int) (n : Nat) : Decidable (Covers nCredit patriotnodePayment n) :=
  inferInstanceAs (Decidable (_ ∧ _))

theorem netShares_nonneg_iff {nCredit patriotnodePayment : Int} :
    (∀ out ∈ netShares script n nCredit patriotnodePayment, 0 ≤ out.nValue) ↔ Covers nCredit patriotnodePayment n := by
  rw [netShares, shares_nonneg_iff, Covers, sub_nonneg, sub_nonneg]
  refine and_congr_left fun hlast => ?_
  rw [or_iff_right_of_imp]
  rintro rfl
  simpa [lastShare] using hlast

/-- A credit that exceeds the payment by more than all remainders covers it. -/
theorem covers_of_surplus {nCredit patriotnodePayment : Int} (hpay : 0 ≤ patriotnodePayment)
    (hsurplus : patriotnodePayment + (n + 1) * (n + 1) ≤ nCredit) : Covers nCredit patriotnodePayment n := by
  have hcredit : 0 ≤ nCredit := by
    have hsquare := mul_self_nonneg ((n : Int) + 1)
    omega
  have hn : (0 : Int) < (n + 1 : Nat) := by omega
  unfold Covers lastShare
  rw [Int.tdiv_eq_ediv_of_nonneg hpay, Int.tdiv_eq_ediv_of_nonneg hcredit, Int.tmod_eq_emod_of_nonneg hpay,
    Int.tmod_eq_emod_of_nonneg hcredit]
  -- the whole shares differ by at least the number of outputs
  have hshare : patriotnodePayment / (n + 1 : Nat) + (n + 1 : Nat) ≤ nCredit / (n + 1 : Nat) := by
    rw [← Int.add_mul_ediv_right _ _ hn.ne']
    refine Int.ediv_le_ediv hn ?_
    rw [Nat.cast_succ]
    exact hsurplus
  have hrem := Int.emod_lt_of_pos patriotnodePayment hn
  have hrem' := Int.emod_nonneg nCredit hn.ne'
  omega

theorem band_units {a b nHeight v w : Int} {k k' : Nat} (hv : v = k * COIN) (hk : k ∈ List.range' 1 10)
    (hlow : a < nHeight) (hrest : b < nHeight → w = k' * COIN ∧ k' ∈ List.range' 1 10) :
    (if a < nHeight ∧ nHeight ≤ b then v else w) = (if nHeight ≤ b then k else k' : Nat) * COIN ∧
      (if nHeight ≤ b then k else k') ∈ List.range' 1 10 := by
  simp only [hlow, true_and]
  split
  · exact ⟨hv, hk⟩
  · exact hrest (by omega)

/-- After height 3000 the reward has the units that the payment is computed from. -/
theorem getBlockValue_units (h : 3000 < nHeight) :
    getBlockValue nHeight = patriotnodeUnits nHeight * COIN ∧ patriotnodeUnits nHeight ∈ List.range' 1 10 := by
  unfold getBlockValue patriotnodeUnits
  rw [if_neg (by omega), if_neg (by omega)]
  by_cases hfirst : nHeight ≤ 100000
  · rw [if_pos ⟨h, hfirst⟩, if_pos ⟨h, hfirst⟩]
    exact ⟨rfl, by decide⟩
  have hnot : ¬(3000 < nHeight ∧ nHeight ≤ 100000) := fun hc => hfirst hc.2
  rw [if_neg hnot, if_neg hnot]
  -- the bands up to height 2200000, one after the other
  refine band_units (by rfl) (by decide) (not_le.mp hfirst) fun h => ?_
  iterate 12 refine band_units (by rfl) (by decide) h fun h => ?_
  exact ⟨rfl, by decide⟩

/-- After height 3000 the payment leaves at least three tenths of a coin of the reward. -/
theorem payment_lt_getBlockValue (h : 3000 < nHeight) :
    getPatriotnodePayment nHeight + 30000000 ≤ getBlockValue nHeight := by
  obtain ⟨hvalue, hunits⟩ := getBlockValue_units h
  rw [hvalue, getPatriotnodePayment]
  have hall : ∀ k ∈ List.range' 1 10, seventyPercent k + 30000000 ≤ (k : Nat) * COIN := by decide
  exact hall _ hunits

theorem getBlockValue_lt_payment (hpos : 0 < nHeight) (h : nHeight ≤ 3000) :
    getPatriotnodePayment nHeight = 140000000 ∧ rewward nHeight = 100000000 := by
  unfold getPatriotnodePayment patriotnodeUnits rewward
  rw [if_neg (by omega), if_pos (by omega), if_neg (by omega), if_pos (by omega)]
  exact ⟨rfl, by decide⟩

theorem covers_of_height {nHeight value : Int} (h : 3000 < nHeight) (hband : ¬(1310000 < nHeight ∧ nHeight ≤ 1310010))
    (hvalue : 0 ≤ value) (hn : n < 73) :
    Covers (value + rewward nHeight) (getPatriotnodePayment nHeight) n := by
  refine covers_of_surplus (getPatriotnodePayment_pos nHeight).le ?_
  have hsurplus := payment_lt_getBlockValue h
  rw [← rewward_of_not_band hband] at hsurplus
  have hsquare : ((n : Int) + 1) * (n + 1) ≤ 73 * 73 :=
    Int.mul_le_mul (by omega) (by omega) (by omega) (by omega)
  omega

/-! ## Filling in the payment -/

namespace PayeeState

variable (S : PayeeState) (p : CChainParams) (pindexPrev : CBlockIndex)

/-- `FillBlockPayee` on the coinstake of the wallet adds the payment, takes it from the staker's outputs and mints the
reward, and no output is negative. -/
def StakeConserved (nStakeSplitThreshold : Int) (kernel : CTxOut) : Prop :=
  ∃ cb cs, S.fillPatriotnodePayee p (newCoinbase []) (createCoinStake pindexPrev nStakeSplitThreshold kernel) pindexPrev
      true = .ok (cb, cs) ∧
    (S.getPatriotnodeTxOuts p pindexPrev).getD [] ⊆ cb ++ cs ∧
    voutTotal (cs.take (createCoinStake pindexPrev nStakeSplitThreshold kernel).length) +
        voutTotal ((S.getPatriotnodeTxOuts p pindexPrev).getD []) =
      voutTotal (createCoinStake pindexPrev nStakeSplitThreshold kernel) ∧
    voutTotal cb + voutTotal cs = kernel.nValue + getBlockValue (pindexPrev.nHeight + 1) ∧
    ∀ out ∈ cb ++ cs, 0 ≤ out.nValue

/-- `FillBlockPayee` on a new coinbase of a work block adds the payment and takes it from the reward in the first
output, which is not negative. Without a payment the coinbase is left as it is. -/
def WorkConserved (scriptPubKey : CScript) : Prop :=
  ∃ cb, S.fillPatriotnodePayee p (newCoinbase scriptPubKey) [] pindexPrev false = .ok (cb, []) ∧
    (S.getPatriotnodeTxOuts p pindexPrev = none → cb = newCoinbase scriptPubKey) ∧
    (∀ outs, S.getPatriotnodeTxOuts p pindexPrev = some outs →
      outs ⊆ cb ∧ voutTotal cb = getBlockValue (pindexPrev.nHeight + 1)) ∧
    ∀ out ∈ cb, 0 ≤ out.nValue

variable {S p pindexPrev}

theorem getPatriotnodeTxOuts_eq {outs : List CTxOut} (h : S.getPatriotnodeTxOuts p pindexPrev = some outs) :
    ∃ out, outs = [out] ∧ out.nValue = getPatriotnodePayment (pindexPrev.nHeight + 1) := by
  obtain ⟨payee, -, rfl⟩ := Option.map_eq_some_iff.mp h
  exact ⟨_, rfl, rfl⟩

/-- The outputs of a stake block with a payment: it is added to the coinbase or to the coinstake. -/
theorem fillPatriotnodePayee_split {out : CTxOut} (houts : S.getPatriotnodeTxOuts p pindexPrev = some [out])
    (hpay : 0 ≤ out.nValue) (script : CScript) (n : Nat) (nCredit : Int) : ∃ cb added,
      S.fillPatriotnodePayee p (newCoinbase []) (⟨0, []⟩ :: creditShares script n nCredit) pindexPrev true =
        .ok (cb, ⟨0, []⟩ :: netShares script n nCredit out.nValue ++ added) ∧
      out ∈ cb ++ added ∧ voutTotal cb + voutTotal added = out.nValue ∧ ∀ o ∈ cb ++ added, 0 ≤ o.nValue := by
  unfold fillPatriotnodePayee
  rw [houts]
  dsimp only
  have hlen : (⟨0, []⟩ :: creditShares script n nCredit).length = n + 2 := by simp [creditShares]
  have hsub := subtractMnPaymentFromCoinstake_shares ⟨0, []⟩ script n nCredit out.nValue
  cases hv6 : p.networkUpgradeActive (pindexPrev.nHeight + 1) .UPGRADE_V6_0 with
  | true =>
    have hsub := hsub []
    rw [List.append_nil] at hsub
    exact ⟨[out], [], by simp [hlen, hsub], by simp, by simp, by simpa using hpay⟩
  | false =>
    have hsub := hsub [out]
    rw [List.cons_append, List.cons_append] at hsub
    exact ⟨newCoinbase [], [out], by simp [hlen, hsub], by simp, by simp [newCoinbase], by simpa [newCoinbase] using hpay⟩

end PayeeState

theorem rewward_pos (hpos : 0 < nHeight) : 0 < rewward nHeight := by
  by_cases hband : 1310000 < nHeight ∧ nHeight ≤ 1310010
  · rw [(rewards_in_band hband).1]
    decide
  · by_cases hlow : nHeight ≤ 3000
    · rw [(getBlockValue_lt_payment hpos hlow).2]
      decide
    · rw [rewward_of_not_band hband]
      have hsurplus := payment_lt_getBlockValue (not_le.mp hlow)
      have hpay := getPatriotnodePayment_pos nHeight
      omega

theorem creditShares_nonneg {nCredit : Int} (h : 0 ≤ nCredit) (n : Nat) :
    ∀ out ∈ creditShares script n nCredit, 0 ≤ out.nValue := by
  have hshare : 0 ≤ nCredit.tdiv (n + 1 : Nat) := Int.tdiv_nonneg h (by omega)
  have hrem : 0 ≤ nCredit.tmod (n + 1 : Nat) := Int.tmod_nonneg _ h
  refine shares_nonneg_iff.mpr ⟨.inr hshare, ?_⟩
  rw [lastShare]
  omega

theorem voutTotal_netShares (script : CScript) (nCredit patriotnodePayment : Int) (n : Nat) :
    voutTotal (netShares script n nCredit patriotnodePayment) = nCredit - patriotnodePayment := by
  have hcredit := voutTotal_creditShares script n nCredit
  have hpay := voutTotal_creditShares script n patriotnodePayment
  rw [creditShares, voutTotal_shares] at hcredit hpay
  rw [netShares, voutTotal_shares, Int.mul_sub]
  omega

namespace PayeeState

variable {S : PayeeState} {p : CChainParams} {pindexPrev : CBlockIndex}

theorem stakeConserved_of_none (hnone : S.getPatriotnodeTxOuts p pindexPrev = none) (nStakeSplitThreshold : Int)
    {kernel : CTxOut} (hvalue : 0 ≤ kernel.nValue) :
    S.StakeConserved p pindexPrev nStakeSplitThreshold kernel ↔
      rewward (pindexPrev.nHeight + 1) = getBlockValue (pindexPrev.nHeight + 1) := by
  have hfill : S.fillPatriotnodePayee p (newCoinbase []) (createCoinStake pindexPrev nStakeSplitThreshold kernel)
      pindexPrev true = .ok (newCoinbase [], createCoinStake pindexPrev nStakeSplitThreshold kernel) := by
    unfold fillPatriotnodePayee
    rw [hnone]
  have htotal := createCoinStake_total pindexPrev nStakeSplitThreshold kernel
  have hcredit : 0 ≤ kernel.nValue + rewward (pindexPrev.nHeight + 1) := by
    have hheight : (0 : Int) < pindexPrev.nHeight + 1 := by omega
    have hreward := rewward_pos hheight
    omega
  unfold StakeConserved
  rw [hfill, hnone]
  constructor
  · rintro ⟨cb, cs, hok, -, -, hmint, -⟩
    cases hok
    rw [htotal] at hmint
    simp only [newCoinbase, voutTotal_cons, voutTotal_nil] at hmint
    omega
  · intro hsame
    refine ⟨_, _, rfl, List.nil_subset _, ?_, ?_, ?_⟩
    · rw [List.take_length]
      simp
    · rw [htotal, hsame]
      simp [newCoinbase]
    · rw [createCoinStake_eq pindexPrev nStakeSplitThreshold kernel _ _ rfl rfl]
      intro out hout
      simp only [newCoinbase, List.mem_append, List.mem_cons, List.not_mem_nil, or_false] at hout
      rcases hout with rfl | rfl | hout
      · exact Int.le_refl 0
      · exact Int.le_refl 0
      · exact creditShares_nonneg hcredit _ out hout

variable {out : CTxOut} (houts : S.getPatriotnodeTxOuts p pindexPrev = some [out]) (hpay : 0 ≤ out.nValue)
include houts hpay

theorem stakeConserved_of_some (nStakeSplitThreshold : Int) (kernel : CTxOut) :
    S.StakeConserved p pindexPrev nStakeSplitThreshold kernel ↔
      rewward (pindexPrev.nHeight + 1) = getBlockValue (pindexPrev.nHeight + 1) ∧
        Covers (kernel.nValue + rewward (pindexPrev.nHeight + 1)) out.nValue
          (splitOuts nStakeSplitThreshold (kernel.nValue + rewward (pindexPrev.nHeight + 1))) := by
  generalize hn : splitOuts nStakeSplitThreshold (kernel.nValue + rewward (pindexPrev.nHeight + 1)) = n
  generalize hcredit : kernel.nValue + rewward (pindexPrev.nHeight + 1) = nCredit at hn
  have hstake := createCoinStake_eq pindexPrev nStakeSplitThreshold kernel nCredit n hcredit.symm hn.symm
  unfold StakeConserved
  rw [hstake, houts, Option.getD_some]
  obtain ⟨cb, added, hfill, hmem, hadded, hnonneg⟩ := fillPatriotnodePayee_split houts hpay kernel.scriptPubKey n
    nCredit
  rw [List.forall_mem_append] at hnonneg
  -- the staker's outputs after the payment was taken from them
  generalize hstaker : (⟨0, []⟩ : CTxOut) :: netShares kernel.scriptPubKey n nCredit out.nValue = staker at hfill
  have htotal : voutTotal staker = nCredit - out.nValue := by
    rw [← hstaker, voutTotal_cons, voutTotal_netShares]
    exact Int.zero_add _
  have hlen : staker.length = n + 2 := by
    rw [← hstaker, netShares, List.length_cons, length_shares]
  have hcovers : (∀ o ∈ staker, 0 ≤ o.nValue) ↔ Covers nCredit out.nValue n := by
    rw [← hstaker, List.forall_mem_cons, netShares_nonneg_iff]
    exact and_iff_right (Int.le_refl 0)
  have hbefore : voutTotal (⟨0, []⟩ :: creditShares kernel.scriptPubKey n nCredit) = nCredit := by
    rw [voutTotal_cons, voutTotal_creditShares]
    exact Int.zero_add _
  rw [hfill, hbefore, List.length_cons, creditShares, length_shares, ← hcovers]
  constructor
  · rintro ⟨cb, cs, hok, -, -, hmint, hall⟩
    cases hok
    rw [voutTotal_append, htotal] at hmint
    rw [List.forall_mem_append, List.forall_mem_append] at hall
    exact ⟨by omega, hall.2.1⟩
  · rintro ⟨hsame, hall⟩
    refine ⟨_, _, rfl, ?_, ?_, ?_, ?_⟩
    · rw [List.cons_subset, List.mem_append, List.mem_append]
      exact ⟨(List.mem_append.mp hmem).imp_right .inr, List.nil_subset _⟩
    · rw [← hlen, List.take_left, htotal, voutTotal_cons, voutTotal_nil]
      omega
    · rw [voutTotal_append, htotal]
      omega
    · rw [List.forall_mem_append, List.forall_mem_append]
      exact ⟨hnonneg.1, hall, hnonneg.2⟩

theorem workConserved_of_some (scriptPubKey : CScript) : S.WorkConserved p pindexPrev scriptPubKey ↔
    rewward (pindexPrev.nHeight + 1) = getBlockValue (pindexPrev.nHeight + 1) ∧
      out.nValue ≤ rewward (pindexPrev.nHeight + 1) := by
  have hfill : S.fillPatriotnodePayee p (newCoinbase scriptPubKey) [] pindexPrev false =
      .ok ([⟨rewward (pindexPrev.nHeight + 1) - out.nValue, scriptPubKey⟩, out], []) := by
    unfold fillPatriotnodePayee
    rw [houts]
    simp [newCoinbase, modifyValue]
    rfl
  unfold WorkConserved
  rw [hfill, houts]
  constructor
  · rintro ⟨cb, hok, -, hsome, hall⟩
    cases hok
    have hmint := (hsome _ rfl).2
    have hfirst := hall _ List.mem_cons_self
    simp only [voutTotal_cons, voutTotal_nil] at hmint hfirst
    omega
  · rintro ⟨hsame, hle⟩
    refine ⟨_, rfl, fun hnone => (by cases hnone), ?_, ?_⟩
    · rintro outs heq
      cases heq
      refine ⟨List.subset_cons_self _ _, ?_⟩
      simp only [voutTotal_cons, voutTotal_nil]
      omega
    · rw [List.forall_mem_cons, List.forall_mem_singleton]
      exact ⟨sub_nonneg.mpr hle, hpay⟩

end PayeeState

/-- **Payment conservation.** `FillBlockPayee` adds what it takes, mints the block reward and leaves no negative output,
for the coinbase of a work block if and only if there is no payment or the height is above 3000 and not among the ten
where the schedules differ; for a coinstake of the wallet if and only if the height is not among the ten and, up to
height 3000, there is no payment or the staker's credit covers it. -/
theorem payment_conserved_iff (S : PayeeState) (p : CChainParams) (pindexPrev : CBlockIndex) :
    (∀ scriptPubKey, S.WorkConserved p pindexPrev scriptPubKey ↔
      S.getPatriotnodeTxOuts p pindexPrev = none ∨ (3000 : Int) < pindexPrev.nHeight + 1 ∧
        ¬((1310000 : Int) < pindexPrev.nHeight + 1 ∧ (pindexPrev.nHeight + 1 : Int) ≤ 1310010)) ∧
    ∀ (nStakeSplitThreshold : Int) (kernel : CTxOut), 0 ≤ kernel.nValue →
      (S.StakeConserved p pindexPrev nStakeSplitThreshold kernel ↔
        ¬((1310000 : Int) < pindexPrev.nHeight + 1 ∧ (pindexPrev.nHeight + 1 : Int) ≤ 1310010) ∧
          (S.getPatriotnodeTxOuts p pindexPrev = none ∨ (3000 : Int) < pindexPrev.nHeight + 1 ∨
            Covers (kernel.nValue + rewward (pindexPrev.nHeight + 1)) (getPatriotnodePayment (pindexPrev.nHeight + 1))
              (splitOuts nStakeSplitThreshold (kernel.nValue + rewward (pindexPrev.nHeight + 1))))) := by
  have hpos : (0 : Int) < pindexPrev.nHeight + 1 := by omega
  cases houts : S.getPatriotnodeTxOuts p pindexPrev with
  | none =>
    constructor
    · intro scriptPubKey
      refine iff_of_true ⟨newCoinbase scriptPubKey, ?_, fun _ => rfl, ?_, ?_⟩ (.inl rfl)
      · unfold fillPatriotnodePayee
        rw [houts]
      · intro outs hsome
        rw [houts] at hsome
        cases hsome
      · exact List.forall_mem_singleton.mpr (Int.le_refl 0)
    · intro nStakeSplitThreshold kernel hvalue
      rw [stakeConserved_of_none houts nStakeSplitThreshold hvalue, rewward_eq_iff]
      exact (and_iff_left (.inl rfl)).symm
  | some outs =>
    obtain ⟨out, rfl, hout⟩ := getPatriotnodeTxOuts_eq houts
    have hpay : 0 ≤ out.nValue := hout ▸ (getPatriotnodePayment_pos _).le
    constructor
    · intro scriptPubKey
      rw [workConserved_of_some houts hpay, hout, rewward_eq_iff, or_iff_right (fun h => (by cases h)), and_comm]
      refine and_congr_left fun hband => ?_
      rw [rewward_of_not_band hband]
      constructor
      · intro hle
        by_contra hlow
        obtain ⟨hpay, hreward⟩ := getBlockValue_lt_payment hpos (not_lt.mp hlow)
        rw [rewward_of_not_band hband] at hreward
        omega
      · intro hheight
        have hsurplus := payment_lt_getBlockValue hheight
        omega
    · intro nStakeSplitThreshold kernel hvalue
      rw [stakeConserved_of_some houts hpay, hout, rewward_eq_iff, or_iff_right (fun h => (by cases h))]
      refine and_congr_right fun hband => ?_
      rw [or_iff_right_of_imp]
      exact fun hheight => covers_of_height hheight hband hvalue (splitOuts_lt _ _)

open Sample

/-- A kernel of one coin, split into two outputs, covers the payment at height one. -/
theorem payment_conserved_two_outputs : (0 : Int) ≤ COIN ∧
    (payeeState (some [0x54])).StakeConserved params (.genesis 0xb0) COIN
      ⟨COIN, p2pkh 0x64⟩ := by
  refine ⟨by decide, ((payment_conserved_iff (payeeState (some [0x54])) params
    (.genesis 0xb0)).2 COIN ⟨COIN, p2pkh 0x64⟩ (by decide)).mpr ⟨by decide, .inr (.inr ?_)⟩⟩
  decide +kernel

/-- At height one the payment is more than the reward, and the miner's output is negative. -/
theorem coinbase_output_negative :
    (payeeState (some [0x54])).fillPatriotnodePayee params (newCoinbase []) []
        (.genesis 0xb0) false = .ok ([⟨-40000000, []⟩, ⟨140000000, p2pkh 0x54⟩], []) ∧
      ¬(payeeState (some [0x54])).WorkConserved params (.genesis 0xb0) [] := by
  refine ⟨by decide +kernel, fun h => ?_⟩
  have houts : (payeeState (some [0x54])).getPatriotnodeTxOuts params (.genesis 0xb0) =
      some [⟨getPatriotnodePayment 1, p2pkh 0x54⟩] := by decide +kernel
  have hle := ((workConserved_of_some houts (by decide) []).mp h).2
  exact absurd hle (by decide)

end TrumpCoin
