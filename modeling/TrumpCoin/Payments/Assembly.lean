import Mathlib.Data.Fintype.EquivFin
import Mathlib.Data.Fintype.List
import TrumpCoin.Payments.PayeeCheck

/-!
# Assembled blocks and the payee check

`FillBlockPayee` adds the same outputs, `paymentOuts`, to whichever transaction pays, and `IsBlockPayeeValid` looks
for outputs in that transaction.

* `Assembled.pays`, `exists_assembled`: the outputs of the paying transaction of an assembled block;
* `assembled_accepted_iff`: when every assembled block passes the check.
-/

namespace TrumpCoin

open Lib

namespace PayeeState

variable (S : PayeeState) (p : CChainParams) (pindexPrev : CBlockIndex) (nHeight : Int)

/-! ## The outputs that are added -/

/-- The budget payment that the block after `pindexPrev` makes instead of paying a node. -/
def budgetPayment : Option CTxBudgetPayment :=
  if S.isSporkActive .SPORK_13_ENABLE_SUPERBLOCKS then S.budgetman.getPayeeAndAmount (pindexPrev.nHeight + 1) else none

/-- The outputs that `FillBlockPayee` adds. -/
def paymentOuts : List CTxOut :=
  match S.budgetPayment pindexPrev with
  | some payment => [payment.txOut]
  | none => ((S.legacyPayee p (pindexPrev.nHeight + 1)).map
      (CTxOut.mk (getPatriotnodePayment (pindexPrev.nHeight + 1)))).toList

theorem budgetPayment_eq_none (h : ¬S.IsSuperblock pindexPrev) : S.budgetPayment pindexPrev = none := by
  unfold budgetPayment
  split_ifs with hspork
  · rw [BudgetManager.getPayeeAndAmount, Bool.eq_false_iff.mpr fun hblock => h ⟨hspork, hblock⟩]
    rfl
  · rfl

theorem fillBlockPayee_of_budget {payment : CTxBudgetPayment} (h : S.budgetPayment pindexPrev = some payment)
    (txCoinbase txCoinstake : List CTxOut) (fProofOfStake : Bool) :
    S.fillBlockPayee p txCoinbase txCoinstake pindexPrev fProofOfStake = .ok (
      if fProofOfStake then
        if p.networkUpgradeActive (pindexPrev.nHeight + 1) .UPGRADE_V6_0 then
          ((resize 1 txCoinbase).set 0 payment.txOut, txCoinstake)
        else (txCoinbase, txCoinstake ++ [payment.txOut])
      else ((resize 2 (modifyValue 0 (fun _ => rewward (pindexPrev.nHeight + 1)) txCoinbase)).set 1 payment.txOut,
        txCoinstake)) := by
  unfold budgetPayment at h
  unfold fillBlockPayee fillBudgetPayee
  split at h
  · rename_i hspork
    rw [if_pos hspork, if_neg (by omega), h]
    cases fProofOfStake with
    | false => rfl
    | true => cases p.networkUpgradeActive (pindexPrev.nHeight + 1) .UPGRADE_V6_0 <;> rfl
  · cases h

theorem fillBlockPayee_of_node (h : S.budgetPayment pindexPrev = none) (txCoinbase txCoinstake : List CTxOut)
    (fProofOfStake : Bool) : S.fillBlockPayee p txCoinbase txCoinstake pindexPrev fProofOfStake =
      S.fillPatriotnodePayee p txCoinbase txCoinstake pindexPrev fProofOfStake := by
  unfold budgetPayment at h
  unfold fillBlockPayee fillBudgetPayee
  split_ifs at h with hspork
  · rw [if_pos hspork, if_neg (by omega), h]
  · rw [if_neg hspork]

theorem fillBlockPayee_work (script : CScript) : ∃ v, S.fillBlockPayee p (newCoinbase script) [] pindexPrev false =
    .ok (⟨v, script⟩ :: S.paymentOuts p pindexPrev, []) := by
  unfold paymentOuts
  cases hbudget : S.budgetPayment pindexPrev with
  | some payment => exact ⟨_, S.fillBlockPayee_of_budget p pindexPrev hbudget _ _ _⟩
  | none =>
    rw [S.fillBlockPayee_of_node p pindexPrev hbudget]
    unfold fillPatriotnodePayee getPatriotnodeTxOuts getLegacyPatriotnodeTxOut
    cases S.legacyPayee p (pindexPrev.nHeight + 1) with
    | none => exact ⟨_, rfl⟩
    | some payee => exact ⟨_, rfl⟩

theorem modifyValue_getElem? {i j : Nat} (h : j < i) (f : Int → Int) (vout : List CTxOut) :
    (modifyValue j f vout)[i]? = vout[i]? := List.getElem?_modify_ne _ _ (Nat.ne_of_lt h)

theorem subtractMnPaymentFromCoinstake_outcome {vout : List CTxOut} {patriotnodePayment : Int} {stakerOuts : Nat}
    (hlen : 2 ≤ stakerOuts) : Returns (subtractMnPaymentFromCoinstake vout patriotnodePayment stakerOuts)
      (fun r => ∀ i, stakerOuts ≤ i → r[i]? = vout[i]?) := by
  refine (Outcome.require fun h => h hlen).bind fun _ _ _ => ?_
  split
  · intro i hi
    exact modifyValue_getElem? (by omega) _ _
  · intro i hi
    rw [modifyValue_getElem? (by omega)]
    refine List.foldlRecOn (motive := fun r => r[i]? = vout[i]?) _ _ rfl fun r hr j hj => ?_
    rw [List.mem_range'_1] at hj
    rw [modifyValue_getElem? (by omega), hr]

section

variable (hv6 : p.networkUpgradeActive (pindexPrev.nHeight + 1) .UPGRADE_V6_0 = false) (txCoinbase : List CTxOut)
include hv6 txCoinbase

theorem fillBlockPayee_coinstake {txCoinStake : List CTxOut} (hlen : 2 ≤ txCoinStake.length) :
    Returns (S.fillBlockPayee p txCoinbase txCoinStake pindexPrev true)
      (fun r => S.paymentOuts p pindexPrev ⊆ r.2) := by
  unfold paymentOuts
  cases hbudget : S.budgetPayment pindexPrev with
  | some payment =>
    rw [S.fillBlockPayee_of_budget p pindexPrev hbudget, if_pos rfl, hv6]
    exact List.subset_append_right _ _
  | none =>
    rw [S.fillBlockPayee_of_node p pindexPrev hbudget]
    unfold fillPatriotnodePayee getPatriotnodeTxOuts getLegacyPatriotnodeTxOut
    cases S.legacyPayee p (pindexPrev.nHeight + 1) with
    | none => exact List.nil_subset _
    | some payee =>
      simp only [Option.map_some, hv6, Bool.not_false, Bool.and_true, if_true]
      refine (subtractMnPaymentFromCoinstake_outcome hlen).bind fun vout _ hkept => ?_
      rw [outcome_pure, Option.toList_some, List.cons_subset]
      refine ⟨List.mem_of_getElem? (i := txCoinStake.length) ?_, List.nil_subset _⟩
      rw [hkept _ (Nat.le_refl _), List.getElem?_append_right (Nat.le_refl _), Nat.sub_self]
      rfl

theorem fillBlockPayee_coinstake_eq (script : CScript) : ∃ v,
    S.fillBlockPayee p txCoinbase [⟨0, []⟩, ⟨0, script⟩] pindexPrev true =
      .ok (txCoinbase, ⟨0, []⟩ :: ⟨v, script⟩ :: S.paymentOuts p pindexPrev) := by
  unfold paymentOuts
  cases hbudget : S.budgetPayment pindexPrev with
  | some payment =>
    rw [S.fillBlockPayee_of_budget p pindexPrev hbudget, if_pos rfl, hv6]
    exact ⟨_, rfl⟩
  | none =>
    rw [S.fillBlockPayee_of_node p pindexPrev hbudget]
    unfold fillPatriotnodePayee getPatriotnodeTxOuts getLegacyPatriotnodeTxOut
    cases S.legacyPayee p (pindexPrev.nHeight + 1) with
    | none => exact ⟨_, rfl⟩
    | some payee =>
      simp only [Option.map_some, hv6]
      exact ⟨_, rfl⟩

end

theorem fillBlockPayee_coinbase (hv6 : p.networkUpgradeActive (pindexPrev.nHeight + 1) .UPGRADE_V6_0 = true)
    {txCoinStake : List CTxOut} (hlen : 2 ≤ txCoinStake.length) :
    Returns (S.fillBlockPayee p (newCoinbase []) txCoinStake pindexPrev true)
      (fun r => S.paymentOuts p pindexPrev ⊆ r.1 ∧ r.1 ⊆ ⟨0, []⟩ :: S.paymentOuts p pindexPrev) := by
  unfold paymentOuts
  cases hbudget : S.budgetPayment pindexPrev with
  | some payment =>
    rw [S.fillBlockPayee_of_budget p pindexPrev hbudget, if_pos rfl, hv6]
    exact ⟨List.Subset.refl _, List.subset_cons_self _ _⟩
  | none =>
    rw [S.fillBlockPayee_of_node p pindexPrev hbudget]
    unfold fillPatriotnodePayee getPatriotnodeTxOuts getLegacyPatriotnodeTxOut
    cases S.legacyPayee p (pindexPrev.nHeight + 1) with
    | none => exact ⟨List.nil_subset _, List.Subset.refl _⟩
    | some payee =>
      simp only [Option.map_some, hv6, Bool.not_true, Bool.and_false, Bool.not_false, Bool.and_true, if_true]
      refine (subtractMnPaymentFromCoinstake_outcome hlen).bind fun vout _ _ => ?_
      exact ⟨List.Subset.refl _, List.subset_cons_self _ _⟩

/-! ## Assembled blocks -/

theorem createCoinbaseTx_eq (script : CScript) : ∃ v, S.createCoinbaseTx p script pindexPrev =
    .ok (⟨v, script⟩ :: S.paymentOuts p pindexPrev) := by
  obtain ⟨v, hfill⟩ := S.fillBlockPayee_work p pindexPrev script
  unfold createCoinbaseTx
  rw [hfill]
  dsimp only [ok_bind]
  split
  · exact ⟨_, rfl⟩
  · exact ⟨_, rfl⟩

variable {S p pindexPrev} in
theorem Assembled.pays {block : CBlock} (h : S.Assembled p pindexPrev block) :
    ∃ txNew, block.vtx[if payCoinstake p (pindexPrev.nHeight + 1) then 1 else 0]? = some txNew ∧
      S.paymentOuts p pindexPrev ⊆ txNew.vout := by
  unfold payCoinstake
  cases h with
  | work script nFees txCoinbase coinbase rest hpos hfill hvout hvtx =>
    obtain ⟨v, hcreate⟩ := S.createCoinbaseTx_eq p pindexPrev script
    rw [hcreate] at hfill
    cases hfill
    rw [hpos, hvtx]
    refine ⟨coinbase, rfl, ?_⟩
    rw [hvout]
    exact List.subset_cons_self _ _
  | stake txCoinStake coinbase coinstake rest hpos hempty hlen hfill hvtx =>
    rw [hpos, hvtx]
    cases hv6 : p.networkUpgradeActive (pindexPrev.nHeight + 1) .UPGRADE_V6_0 with
    | false => exact ⟨coinstake, rfl, (S.fillBlockPayee_coinstake p pindexPrev hv6 _ hlen).of_ok hfill⟩
    | true => exact ⟨coinbase, rfl, ((S.fillBlockPayee_coinbase p pindexPrev hv6 hlen).of_ok hfill).1⟩

/-- An output that no node's payment is found in, `script` not being a payee's. -/
def Filler (script : CScript) (o : CTxOut) : Prop := o.nValue = 0 ∨ o.scriptPubKey = script

/-- A block can be assembled with any hash, so that its paying transaction has no other outputs than the added ones
and those to `script`. -/
theorem exists_assembled (hash : uint256) (script : CScript) : ∃ block txNew, S.Assembled p pindexPrev block ∧
    block.getHash = hash ∧
    block.vtx[if payCoinstake p (pindexPrev.nHeight + 1) then 1 else 0]? = some txNew ∧
    ∀ o ∈ txNew.vout, o ∈ S.paymentOuts p pindexPrev ∨ Filler script o := by
  unfold payCoinstake
  cases hpos : p.networkUpgradeActive (pindexPrev.nHeight + 1) .UPGRADE_POS with
  | false =>
    obtain ⟨v, hcreate⟩ := S.createCoinbaseTx_eq p pindexPrev script
    refine ⟨⟨hash, 0, 0, [⟨1, TxType.NORMAL, [], modifyValue 0 (· + 0) (⟨v, script⟩ :: S.paymentOuts p pindexPrev), 0,
      none, none, 0⟩]⟩, _, .work script 0 _ _ [] hpos hcreate rfl rfl, rfl, rfl, fun o ho => ?_⟩
    rcases List.mem_cons.mp ho with rfl | ho
    · exact .inr (.inr rfl)
    · exact .inl ho
  | true =>
    cases hv6 : p.networkUpgradeActive (pindexPrev.nHeight + 1) .UPGRADE_V6_0 with
    | false =>
      obtain ⟨v, hfill⟩ := S.fillBlockPayee_coinstake_eq p pindexPrev hv6 (newCoinbase []) script
      refine ⟨⟨hash, 0, 0, [⟨1, TxType.NORMAL, [], newCoinbase [], 0, none, none, 0⟩, ⟨1, TxType.NORMAL, [], _, 0, none,
        none, 0⟩]⟩, _, .stake [⟨0, []⟩, ⟨0, script⟩] _ _ [] hpos rfl (Nat.le_refl 2) hfill rfl, rfl, rfl, fun o ho => ?_⟩
      rcases List.mem_cons.mp ho with rfl | ho
      · exact .inr (.inl rfl)
      · rcases List.mem_cons.mp ho with rfl | ho
        · exact .inr (.inr rfl)
        · exact .inl ho
    | true =>
      have hout := S.fillBlockPayee_coinbase p pindexPrev hv6 (Nat.le_refl [(⟨0, []⟩ : CTxOut), ⟨0, script⟩].length)
      obtain ⟨⟨cb, cs⟩, hfill, -, hsub⟩ := hout.exists_ok
      refine ⟨⟨hash, 0, 0, [⟨1, TxType.NORMAL, [], cb, 0, none, none, 0⟩, ⟨1, TxType.NORMAL, [], cs, 0, none,
        none, 0⟩]⟩, _, .stake [⟨0, []⟩, ⟨0, script⟩] _ _ [] hpos rfl (Nat.le_refl 2) hfill rfl, rfl, rfl, fun o ho => ?_⟩
      rcases List.mem_cons.mp (hsub ho) with rfl | ho
      · exact .inr (.inl rfl)
      · exact .inl ho

/-! ## Agreement -/

/-- The scripts of the nodes that the check may look for. -/
def payeeScripts : List CScript :=
  (S.legacyPayee p (pindexPrev.nHeight + 1)).toList ++
    ((S.mapPatriotnodeBlocks[(pindexPrev.nHeight + 1 : Int)]?).getD []).map CPatriotnodePayee.scriptPubKey

variable {S p pindexPrev nHeight} in
theorem PaysNode.mono {vout vout' : List CTxOut} (h : S.PaysNode p pindexPrev nHeight vout)
    (hsub : ∀ o ∈ vout, o.nValue ≠ 0 → o.scriptPubKey ∈ S.payeeScripts p pindexPrev → o ∈ vout') :
    S.PaysNode p pindexPrev nHeight vout' := by
  unfold PaysNode at h ⊢
  split_ifs with hobsolete
  · rw [if_pos hobsolete] at h
    intro payee hpayee
    refine hsub _ (h payee hpayee) (Int.ne_of_gt (getPatriotnodePayment_pos _)) ?_
    simp [payeeScripts, hpayee]
  · rw [if_neg hobsolete] at h
    intro vec hvec hdecided
    obtain ⟨payee, hmem, hvotes, hout⟩ := h vec hvec hdecided
    refine ⟨payee, hmem, hvotes, hsub _ hout (Int.ne_of_gt (getPatriotnodePayment_pos _)) ?_⟩
    simp only [payeeScripts, hvec, Option.getD_some, List.mem_append, List.mem_map]
    exact .inr ⟨payee, hmem, rfl⟩

/-- The states in which assembling and checking agree. `nHeight` is the height that the check is handed over and
above `pindexPrev`. -/
def PayeesAgree : Prop :=
  if S.IsSuperblock pindexPrev then
    (∀ nBlockHash, ¬S.PaidOnChain pindexPrev nBlockHash) ∨
    S.isSporkActive .SPORK_9_PATRIOTNODE_BUDGET_ENFORCEMENT = false ∧
      (S.PaysNode p pindexPrev nHeight
        ((S.budgetman.getPayeeAndAmount (pindexPrev.nHeight + 1)).map CTxBudgetPayment.txOut).toList ∨
        S.isSporkActive .SPORK_8_PATRIOTNODE_PAYMENT_ENFORCEMENT = false)
  else
    S.legacyPNObsolete (pindexPrev.nHeight + 1) = true ∨ ¬S.Decided pindexPrev ∨
    getPatriotnodePayment nHeight = getPatriotnodePayment (pindexPrev.nHeight + 1) ∨
    S.isSporkActive .SPORK_8_PATRIOTNODE_PAYMENT_ENFORCEMENT = false

theorem paymentOuts_of_budget (h : S.IsSuperblock pindexPrev) : S.paymentOuts p pindexPrev =
    ((S.budgetman.getPayeeAndAmount (pindexPrev.nHeight + 1)).map CTxBudgetPayment.txOut).toList := by
  obtain ⟨b, payment, -, -, hsome⟩ := S.budgetman.getPayeeAndAmount_isSome h.2
  unfold paymentOuts budgetPayment
  rw [if_pos h.1, hsome]
  rfl

theorem legacyPayee_of_decided {vec : List CPatriotnodePayee}
    (hvec : S.mapPatriotnodeBlocks[(pindexPrev.nHeight + 1 : Int)]? = some vec)
    (h : CPatriotnodeBlockPayees.Decided vec) : ∃ payee ∈ vec, PNPAYMENTS_SIGNATURES_REQUIRED ≤ payee.nVotes ∧
      S.legacyPayee p (pindexPrev.nHeight + 1) = some payee.scriptPubKey := by
  obtain ⟨payee, hmem, hvotes, hget⟩ := CPatriotnodeBlockPayees.getPayee_of_decided h
  refine ⟨payee, hmem, hvotes, ?_⟩
  rw [legacyPayee, getBlockPayee, hvec, Option.bind_some, hget]

/-- Away from superblocks the added outputs pay a node, at the amount of the height after `pindexPrev`. -/
theorem paysNode_paymentOuts_iff (h : ¬S.IsSuperblock pindexPrev) :
    S.PaysNode p pindexPrev nHeight (S.paymentOuts p pindexPrev) ↔
      S.legacyPNObsolete (pindexPrev.nHeight + 1) = true ∨ ¬S.Decided pindexPrev ∨
      getPatriotnodePayment nHeight = getPatriotnodePayment (pindexPrev.nHeight + 1) := by
  unfold PaysNode paymentOuts
  rw [S.budgetPayment_eq_none pindexPrev h]
  split_ifs with hobsolete
  · refine iff_of_true (fun payee hpayee => ?_) (.inl hobsolete)
    simp [hpayee]
  · rw [or_iff_right hobsolete]
    constructor
    · rintro hpays
      rw [or_iff_not_imp_left, not_not]
      rintro ⟨vec, hvec, hdecided⟩
      obtain ⟨payee, -, -, hout⟩ := hpays vec hvec hdecided
      obtain ⟨payee', -, -, hlegacy⟩ := S.legacyPayee_of_decided p pindexPrev hvec hdecided
      rw [hlegacy, Option.map_some, Option.toList_some, List.mem_singleton] at hout
      exact congrArg CTxOut.nValue hout
    · rintro hcond vec hvec hdecided
      obtain ⟨payee, hmem, hvotes, hlegacy⟩ := S.legacyPayee_of_decided p pindexPrev hvec hdecided
      refine ⟨payee, hmem, hvotes, ?_⟩
      rw [hcond.resolve_left (not_not.mpr ⟨vec, hvec, hdecided⟩), hlegacy]
      exact List.mem_singleton_self _

/-- **Producer and validator.** On a synced node every assembled block passes the payee check exactly in the states
of `PayeesAgree`. -/
theorem assembled_accepted_iff (hsynced : S.isSynced = true) :
    (∀ block, S.Assembled p pindexPrev block → S.Accepts p pindexPrev nHeight block) ↔
      S.PayeesAgree p pindexPrev nHeight := by
  unfold PayeesAgree
  constructor
  · intro hall
    obtain ⟨script, hscript⟩ := Infinite.exists_notMem_finset (S.payeeScripts p pindexPrev).toFinset
    rw [List.mem_toFinset] at hscript
    -- a block with any hash, whose paying transaction tells the check nothing but the added outputs
    have hcheck : ∀ hash, (S.IsSuperblock pindexPrev ∧ ¬S.PaidOnChain pindexPrev hash) ∨
        ((S.IsSuperblock pindexPrev → S.isSporkActive .SPORK_9_PATRIOTNODE_BUDGET_ENFORCEMENT = false) ∧
          S.AcceptsNode p pindexPrev nHeight (S.paymentOuts p pindexPrev)) := by
      intro hash
      obtain ⟨block, txNew, hblock, rfl, htx, houts⟩ := S.exists_assembled p pindexPrev hash script
      rcases (S.accepts_iff p pindexPrev nHeight hsynced htx).mp (hall block hblock) with ⟨hs, hpaid, -⟩ | ⟨hs, hpays⟩
      · exact .inl ⟨hs, hpaid⟩
      · refine .inr ⟨hs, hpays.imp_left fun hpays => hpays.mono fun o ho hvalue hmem => ?_⟩
        rcases houts o ho with ho | hzero | rfl
        · exact ho
        · exact (hvalue hzero).elim
        · exact (hscript hmem).elim
    split_ifs with hsuper
    · rw [← S.paymentOuts_of_budget p pindexPrev hsuper, or_iff_not_imp_left]
      intro hpaid
      simp only [not_forall, not_not] at hpaid
      obtain ⟨_, b, payment, hb, hpay, paid, hget, -, hchain⟩ := hpaid
      rcases hcheck (paid.1 + 1) with ⟨-, hnot⟩ | ⟨hspork, hpays⟩
      · exact (hnot ⟨b, payment, hb, hpay, paid, hget, by simp, hchain⟩).elim
      · exact ⟨hspork hsuper, hpays⟩
    · rcases hcheck 0 with ⟨hs, -⟩ | ⟨-, hpays⟩
      · exact (hsuper hs).elim
      · rw [AcceptsNode, S.paysNode_paymentOuts_iff p pindexPrev nHeight hsuper] at hpays
        simpa [or_assoc] using hpays
  · intro hcond block hblock
    obtain ⟨txNew, htx, hsub⟩ := hblock.pays
    rw [S.accepts_iff p pindexPrev nHeight hsynced htx]
    have hmono : S.PaysNode p pindexPrev nHeight (S.paymentOuts p pindexPrev) →
        S.PaysNode p pindexPrev nHeight txNew.vout := fun h => h.mono fun o ho _ _ => hsub ho
    split_ifs at hcond with hsuper
    · rw [← S.paymentOuts_of_budget p pindexPrev hsuper] at hcond
      rcases hcond with hpaid | ⟨hspork, hpays⟩
      · refine .inl ⟨hsuper, hpaid _, fun payment hpayment => hsub ?_⟩
        rw [S.paymentOuts_of_budget p pindexPrev hsuper, hpayment]
        exact List.mem_singleton_self _
      · exact .inr ⟨fun _ => hspork, hpays.imp_left hmono⟩
    · refine .inr ⟨fun h => (hsuper h).elim, ?_⟩
      rw [← or_assoc, ← or_assoc, or_assoc (a := S.legacyPNObsolete _ = true),
        ← S.paysNode_paymentOuts_iff p pindexPrev nHeight hsuper] at hcond
      exact hcond.imp_left hmono

end PayeeState

namespace Sample

def indexAt : Nat → CBlockIndex
  | 0 => .genesis 0
  | n + 1 => .child (indexAt n) 0

/-- A node on which the payee of height 3001 has six votes and legacy nodes are not obsolete. -/
def votedState : PayeeState :=
  { payeeState none with
    legacyPNsMaxHeight := 10000
    mapPatriotnodeBlocks := (∅ : FinMap Int (List CPatriotnodePayee)).insert 3001 [⟨p2pkh 0x54, 6⟩] }

/-- A stake block of height 3001 that pays the payee with the votes. -/
def votedBlock : CBlock where
  hash := 0xb1
  vtx := [{ vin := [{}], vout := [⟨70000000, p2pkh 0x54⟩], hash := 0xc1 },
    { vin := [{ prevout := ⟨0xa1, 0⟩ }], vout := [⟨0, []⟩, ⟨130000000, p2pkh 0x64⟩], hash := 0xc2 }]

theorem votedBlock_assembled : votedState.Assembled params (indexAt 3000) votedBlock :=
  .stake [⟨0, []⟩, ⟨200000000, p2pkh 0x64⟩] _ _ [] (by decide +kernel) rfl (by decide) (by decide +kernel) rfl

end Sample

open Sample

/-- The votes are decided, and the block that pays the payee with the votes is accepted at its own height. -/
theorem assembled_accepted_sample : votedState.Decided (indexAt 3000) ∧
    votedState.Assembled params (indexAt 3000) votedBlock ∧
    votedState.Accepts params (indexAt 3000) 3001 votedBlock := by
  have hheight : (indexAt 3000).nHeight = 3000 := by decide +kernel
  refine ⟨⟨[⟨p2pkh 0x54, 6⟩], by rw [hheight]; rfl, _, List.mem_singleton_self _, by decide⟩, votedBlock_assembled,
    (PayeeState.assembled_accepted_iff votedState params (indexAt 3000) 3001 rfl).mpr ?_ _ votedBlock_assembled⟩
  rw [PayeeState.PayeesAgree, if_neg (fun h => by cases h.1), hheight]
  exact .inr (.inr (.inl (by decide)))

/-- The check computes the required amount from its own height argument, here zero. -/
theorem assembled_rejected_at_other_height :
    votedState.Assembled params (indexAt 3000) votedBlock ∧
    ¬votedState.Accepts params (indexAt 3000) 0 votedBlock := by
  refine ⟨votedBlock_assembled, ?_⟩
  rintro ⟨history, h⟩
  rw [show votedState.isBlockPayeeValid params votedBlock (indexAt 3000) 0 = .ok (false, ∅) by decide +kernel] at h
  cases h

end TrumpCoin
