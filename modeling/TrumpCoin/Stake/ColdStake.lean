import Mathlib.Algebra.Order.BigOperators.Group.List
import Mathlib.Algebra.Order.Group.Nat
import TrumpCoin.Chainstate.ConnectBlock
import TrumpCoin.Payments.PayeeCheck
import TrumpCoin.Stake.BlockSignature

/-!
# Cold staking

What a staker may do with the coins of a P2CS output. The script makes the coinstake pay its outputs back to the script
itself; with `OP_CHECKCOLDSTAKEVERIFY_LOF` the last output is free, and `CheckColdStakeFreeOutput` and
`IsBlockPayeeValid` are left to say who may be paid with it.

* `checkColdStake_eq_ok`: the outputs of a coinstake that passed the script;
* `checkColdStakeFreeOutput_iff`: what is asked of the free output;
* `coldStaked_of_connectBlock`: a connected block passes all of these checks;
* `cold_stake_returned_iff`: when the free output of every such block is an expected payment.
-/

namespace TrumpCoin

open Lib

/-! ## The outputs that the script allows -/

namespace TransactionSignatureChecker

variable {fAllow : Bool} {s : CScript} {v w : Int64}

/-- The loop of `CheckColdStake` over the outputs from position `k` on: they pay back to the script, up to a last one
that may be free. -/
theorem of_coldStakeOutputs {l : List CTxOut} {k : Nat}
    (h : coldStakeOutputs fAllow s (k + l.length) (l.zipIdx k) v = .ok w) :
    ∃ outs free, l = outs ++ free ∧ (∀ out ∈ outs, out.scriptPubKey = s) ∧ w = v + Int64.ofInt (outs.map CTxOut.nValue).sum ∧
      (free = [] ∨ ∃ out, free = [out] ∧ out.scriptPubKey ≠ s ∧ fAllow = true ∧ 3 ≤ k + l.length) := by
  induction l generalizing k v with
  | nil =>
    cases h
    exact ⟨[], [], rfl, by simp, by simp, .inl rfl⟩
  | cons out l ih =>
    rw [List.length_cons, Nat.add_comm l.length, ← Nat.add_assoc] at h ⊢
    rw [List.zipIdx_cons, coldStakeOutputs] at h
    split_ifs at h with hscript hfails
    · simp only [Bool.not_eq_true', not_or, Bool.not_eq_false, not_not, Nat.not_lt] at hfails
      obtain rfl : l = [] := List.length_eq_zero_iff.mp (by omega)
      cases h
      exact ⟨[], [out], rfl, by simp, by simp, .inr ⟨out, rfl, hscript, hfails.1, hfails.2.2⟩⟩
    · obtain ⟨outs, free, rfl, houts, rfl, hfree⟩ := ih h
      refine ⟨out :: outs, free, rfl, List.forall_mem_cons.mpr ⟨not_not.mp hscript, houts⟩, ?_, hfree⟩
      rw [List.map_cons, List.sum_cons, Int64.ofInt_add, Int64.add_assoc]

/-- In 64 bits a sum is at most what it is, unless it is below all of their values. -/
theorem toInt_ofInt_le {x : Int} (h : -2 ^ 63 ≤ x) : (Int64.ofInt x).toInt ≤ x := by
  rw [Int64.toInt_ofInt, Int.bmod_def, show Int64.size = 2 ^ 64 from rfl]
  omega

/-- The outputs of a coinstake after its empty first one: those that pay back to the script, and perhaps a free one. -/
structure PaysBack (fAllow : Bool) (s : CScript) (tx : CTransaction) (outs free : List CTxOut) : Prop where
  vout : tx.vout = ⟨0, []⟩ :: (outs ++ free)
  own : ∀ out ∈ outs, out.scriptPubKey = s
  some_own : outs ≠ []
  last : free = [] ∨ ∃ out, free = [out] ∧ out.scriptPubKey ≠ s ∧ fAllow = true

variable {c : TransactionSignatureChecker} {flags : ScriptFlags} {stack : List Bytes}

theorem vout_of_isCoinStake {tx : CTransaction} (h : tx.isCoinStake = true) :
    ∃ out rest, tx.vout = ⟨0, []⟩ :: out :: rest := by
  unfold CTransaction.isCoinStake at h
  split at h
  · cases h
  · simp only [Bool.and_eq_true, decide_eq_true_eq] at h
    obtain ⟨⟨-, hlength⟩, hempty⟩ := h
    rcases hvout : tx.vout with _ | ⟨first, _ | ⟨out, rest⟩⟩
    · simp [hvout] at hlength
    · simp [hvout] at hlength
    · rw [hvout, List.head?_cons, Option.any_some] at hempty
      obtain ⟨nValue, scriptPubKey⟩ := first
      simp only [CTxOut.isEmpty, Bool.and_eq_true, beq_iff_eq, List.isEmpty_iff] at hempty
      obtain ⟨rfl, rfl⟩ := hempty
      exact ⟨out, rest, rfl⟩

theorem checkColdStake_eq_ok (h : c.checkColdStake flags fAllow s stack = .ok ()) :
    c.txTo.isCoinStake = true ∧ ∃ outs free, PaysBack fAllow s c.txTo outs free ∧
      c.amount ≤ (Int64.ofInt (outs.map CTxOut.nValue).sum).toInt := by
  unfold checkColdStake at h
  split at h
  · simp only [bind_eq_ok, require_eq_ok] at h
    obtain ⟨_, -, _, -, _, -, _, hstake, _, -, w, hloop, hamount⟩ := h
    obtain ⟨out, rest, hvout⟩ := vout_of_isCoinStake hstake
    have hlength : c.txTo.vout.length = 1 + (out :: rest).length := by
      rw [hvout]
      simp only [List.length_cons]
      omega
    have hdrop : c.txTo.vout.zipIdx.drop 1 = (out :: rest).zipIdx 1 := by rw [hvout]; rfl
    rw [hlength, hdrop] at hloop
    obtain ⟨outs, free, heq, houts, rfl, hfree⟩ := of_coldStakeOutputs hloop
    rw [Int64.zero_add] at hamount
    refine ⟨hstake, outs, free, ⟨by rw [hvout, heq], houts, ?_, ?_⟩, hamount⟩
    · rintro rfl
      rcases hfree with rfl | ⟨o, rfl, -, -, hthree⟩
      · cases heq
      · rw [heq] at hthree
        simp at hthree
    · rcases hfree with hnil | ⟨o, hfree, hne, hallow, -⟩
      · exact .inl hnil
      · exact .inr ⟨o, hfree, hne, hallow⟩
  · cases h

end TransactionSignatureChecker

/-! ## The free output -/

section FreeOutput

variable {p : CChainParams} {S : PayeeState} {s : CScript} {tx : CTransaction} {outs : List CTxOut} {out : CTxOut}

/-- **The free output** of a coinstake that pays back to a script with a free last output: there is none after v6.0,
and before it has the amount of a node's payment or is in a superblock. Its payee is not looked at. -/
theorem checkColdStakeFreeOutput_iff {pindexPrev : CBlockIndex} (hs : CScript.isPayToColdStakingLOF s = true)
    (hback : TransactionSignatureChecker.PaysBack true s tx outs [out]) (hout : out.scriptPubKey ≠ s) :
    checkColdStakeFreeOutput p S tx (pindexPrev.nHeight + 1) = true ↔
      p.networkUpgradeActive (pindexPrev.nHeight + 1) .UPGRADE_V6_0 = false ∧
      (out.nValue = getPatriotnodePayment (pindexPrev.nHeight + 1) ∨ S.IsSuperblock pindexPrev) := by
  obtain ⟨first, rest, hfirst⟩ := List.exists_cons_of_ne_nil hback.some_own
  obtain ⟨previous, before, hprevious⟩ := List.exists_cons_of_ne_nil (List.reverse_ne_nil_iff.mpr hback.some_own)
  have hone : tx.vout[1]? = some first := by rw [hback.vout, hfirst]; rfl
  have hown : first.scriptPubKey = s := hback.own first (by rw [hfirst]; exact List.mem_cons_self)
  have hprev : previous.scriptPubKey = s :=
    hback.own previous (List.mem_reverse.mp (by rw [hprevious]; exact List.mem_cons_self))
  have hreverse : tx.vout.reverse = out :: previous :: (before ++ [⟨0, []⟩]) := by
    rw [hback.vout, List.reverse_cons, List.reverse_append, hprevious]
    rfl
  unfold checkColdStakeFreeOutput
  rw [hone, hreverse, Option.any_some, hown, if_neg (by rw [hs]; decide)]
  cases before <;> simp only [List.nil_append, List.cons_append, hprev, if_neg hout, PayeeState.IsSuperblock] <;>
    cases p.networkUpgradeActive (pindexPrev.nHeight + 1) .UPGRADE_V6_0 <;>
    cases S.budgetman.isBudgetPaymentBlock (pindexPrev.nHeight + 1) <;> simp

end FreeOutput

/-! ## Blocks that stake a P2CS output -/

/-- What `CheckTransaction` asks of the amount of a P2CS output. -/
def CTxOut.AmountAllowed (out : CTxOut) : Prop :=
  CScript.isPayToColdStaking out.scriptPubKey = true → MIN_COLDSTAKING_AMOUNT ≤ out.nValue

namespace PayeeState

variable (S : PayeeState) (p : CChainParams) (pindexPrev : CBlockIndex) (nHeight : Int) (s : CScript) (amount : Int)

/-- The checks of a block with coinstake `tx` that concern the staked output `⟨amount, s⟩`, where the staker's branch
of the script was taken. -/
structure ColdStaked (block : CBlock) (tx : CTransaction) : Prop where
  coinstake : block.vtx[1]? = some tx
  /-- blocks are staked -/
  active : p.networkUpgradeActive (pindexPrev.nHeight + 1) .UPGRADE_POS = true
  /-- P2CS outputs may be created -/
  enabled : S.isSporkActive .SPORK_19_COLDSTAKING_MAINTENANCE = false
  amounts : ∀ out ∈ tx.vout, out.AmountAllowed
  /-- what `CheckColdStake` establishes for outputs of allowed amounts -/
  staker : ∃ outs free, TransactionSignatureChecker.PaysBack (CScript.has s 4 OP_CHECKCOLDSTAKEVERIFY_LOF) s tx outs free ∧
    amount ≤ (outs.map CTxOut.nValue).sum
  free : checkColdStakeFreeOutput p S tx (pindexPrev.nHeight + 1) = true
  payee : S.Accepts p pindexPrev nHeight block

/-- A payee with the votes for the block after `pindexPrev`. -/
def Voted (payee : CScript) : Prop :=
  ∃ vec, S.mapPatriotnodeBlocks[(pindexPrev.nHeight + 1 : Int)]? = some vec ∧
    ∃ payee' ∈ vec, PNPAYMENTS_SIGNATURES_REQUIRED ≤ payee'.nVotes ∧ payee'.scriptPubKey = payee

/-- The output is the budget's payment or a node's payment of the block after `pindexPrev`: the right payee and at most
the amount that is due. -/
def Expected (out : CTxOut) : Prop :=
  (S.IsSuperblock pindexPrev ∧ ∃ payment, S.budgetman.getPayeeAndAmount (pindexPrev.nHeight + 1) = some payment ∧
    out.scriptPubKey = payment.payee ∧ out.nValue ≤ payment.nAmount) ∨
  ((S.legacyPayee p (pindexPrev.nHeight + 1) = some out.scriptPubKey ∨ S.Voted pindexPrev out.scriptPubKey) ∧
    out.nValue ≤ getPatriotnodePayment (pindexPrev.nHeight + 1))

/-- The staked value is back under the script, and what does not pay the script is an expected payment. -/
def Returned (tx : CTransaction) : Prop :=
  (∀ out ∈ tx.vout.drop 1, out.scriptPubKey ≠ s → S.Expected p pindexPrev out) ∧
  amount ≤ (((tx.vout.drop 1).filter fun out => out.scriptPubKey = s).map CTxOut.nValue).sum

end PayeeState

/-- An output that a coinstake of the script may have besides its free one. -/
def OwnOutput (s : CScript) (out : CTxOut) : Prop :=
  out = ⟨0, []⟩ ∨ out.scriptPubKey = s ∧ MIN_COLDSTAKING_AMOUNT ≤ out.nValue

namespace PayeeState

variable (S : PayeeState) (p : CChainParams) (pindexPrev : CBlockIndex) (nHeight : Int) (s : CScript) (amount : Int)

/-- Node payments are enforced, some node is to be paid, and an output of the script itself does not count as the
payment. -/
def NodeGuarded : Prop :=
  S.isSporkActive .SPORK_8_PATRIOTNODE_PAYMENT_ENFORCEMENT = true ∧
  if S.legacyPNObsolete (pindexPrev.nHeight + 1) = true then
    ∃ payee, S.legacyPayee p (pindexPrev.nHeight + 1) = some payee ∧
      ¬OwnOutput s ⟨getPatriotnodePayment (pindexPrev.nHeight + 1), payee⟩
  else (∃ payee, S.Voted pindexPrev payee) ∧
    ∀ payee, S.Voted pindexPrev payee → ¬OwnOutput s ⟨getPatriotnodePayment nHeight, payee⟩

/-- The payment that the votes ask for, computed from the height `nHeight`, is no more than what is due. -/
def AmountGuarded : Prop :=
  S.legacyPNObsolete (pindexPrev.nHeight + 1) = true ∨
  ∀ payee, S.Voted pindexPrev payee → payee ≠ s → CTxOut.AmountAllowed ⟨getPatriotnodePayment nHeight, payee⟩ →
    S.Expected p pindexPrev ⟨getPatriotnodePayment nHeight, payee⟩

/-- The payee check decides about the free output of a coinstake of the script. In a superblock the budget's payment
does, or without enforcement of budgets also a node's payment. -/
def FreeOutputGuarded : Prop :=
  if S.IsSuperblock pindexPrev then
    (∀ payment, S.budgetman.getPayeeAndAmount (pindexPrev.nHeight + 1) = some payment → ¬OwnOutput s payment.txOut) ∧
    (S.isSporkActive .SPORK_9_PATRIOTNODE_BUDGET_ENFORCEMENT = true ∨
      S.NodeGuarded p pindexPrev nHeight s ∧ S.AmountGuarded p pindexPrev nHeight s)
  else S.NodeGuarded p pindexPrev nHeight s

variable {S p pindexPrev nHeight s amount}

theorem paysNode_iff {vout : List CTxOut} : S.PaysNode p pindexPrev nHeight vout ↔
    if S.legacyPNObsolete (pindexPrev.nHeight + 1) = true then
      ∀ payee, S.legacyPayee p (pindexPrev.nHeight + 1) = some payee →
        ⟨getPatriotnodePayment (pindexPrev.nHeight + 1), payee⟩ ∈ vout
    else (∃ payee, S.Voted pindexPrev payee) →
      ∃ payee, S.Voted pindexPrev payee ∧ ⟨getPatriotnodePayment nHeight, payee⟩ ∈ vout := by
  unfold PaysNode
  split
  · rfl
  · constructor
    · rintro h ⟨payee, vec, hvec, payee', hmem, hvotes, -⟩
      obtain ⟨payee, hmem, hvotes, hout⟩ := h vec hvec ⟨payee', hmem, hvotes⟩
      exact ⟨_, ⟨vec, hvec, payee, hmem, hvotes, rfl⟩, hout⟩
    · rintro h vec hvec ⟨payee, hmem, hvotes⟩
      obtain ⟨payee, ⟨vec', hvec', payee', hmem, hvotes, rfl⟩, hout⟩ := h ⟨_, vec, hvec, payee, hmem, hvotes, rfl⟩
      obtain rfl := Option.some.inj (hvec.symm.trans hvec')
      exact ⟨payee', hmem, hvotes, hout⟩

/-! ### Guarded outputs -/

section Guarded

variable {block : CBlock} {tx : CTransaction} {outs : List CTxOut} {out : CTxOut}

theorem NodeGuarded.paid (h : S.NodeGuarded p pindexPrev nHeight s) {vout : List CTxOut}
    (hpays : S.AcceptsNode p pindexPrev nHeight vout) (hvout : ∀ x ∈ vout, ¬OwnOutput s x → x = out) :
    if S.legacyPNObsolete (pindexPrev.nHeight + 1) = true then
      ∃ payee, S.legacyPayee p (pindexPrev.nHeight + 1) = some payee ∧
        out = ⟨getPatriotnodePayment (pindexPrev.nHeight + 1), payee⟩
    else ∃ payee, S.Voted pindexPrev payee ∧ out = ⟨getPatriotnodePayment nHeight, payee⟩ := by
  obtain ⟨hspork, h⟩ := h
  have hpays : S.PaysNode p pindexPrev nHeight vout := hpays.resolve_right (by rw [hspork]; decide)
  rw [paysNode_iff] at hpays
  split_ifs with hobsolete
  · rw [if_pos hobsolete] at h hpays
    obtain ⟨payee, hpayee, hown⟩ := h
    exact ⟨payee, hpayee, (hvout _ (hpays payee hpayee) hown).symm⟩
  · rw [if_neg hobsolete] at h hpays
    obtain ⟨payee, hvoted, hout⟩ := hpays h.1
    exact ⟨payee, hvoted, (hvout _ hout (h.2 payee hvoted)).symm⟩

theorem FreeOutputGuarded.expected (hguarded : S.FreeOutputGuarded p pindexPrev nHeight s)
    (hsynced : S.isSynced = true) (htx : block.vtx[if payCoinstake p (pindexPrev.nHeight + 1) then 1 else 0]? = some tx)
    (hpayee : S.Accepts p pindexPrev nHeight block) (hvout : ∀ x ∈ tx.vout, ¬OwnOutput s x → x = out)
    (hscript : out.scriptPubKey ≠ s) (hallowed : out.AmountAllowed)
    (hamount : out.nValue = getPatriotnodePayment (pindexPrev.nHeight + 1) ∨ S.IsSuperblock pindexPrev) :
    S.Expected p pindexPrev out := by
  have hnode : S.NodeGuarded p pindexPrev nHeight s → S.AcceptsNode p pindexPrev nHeight tx.vout →
      (¬S.IsSuperblock pindexPrev ∨ S.AmountGuarded p pindexPrev nHeight s) → S.Expected p pindexPrev out := by
    intro hnode hpays hwhen
    have hpaid := hnode.paid hpays hvout
    split_ifs at hpaid with hobsolete
    · obtain ⟨payee, hpayee, rfl⟩ := hpaid
      exact .inr ⟨.inl hpayee, Int.le_refl _⟩
    · obtain ⟨payee, hvoted, rfl⟩ := hpaid
      rcases hwhen with hwhen | hwhen
      · exact .inr ⟨.inr hvoted, Int.le_of_eq (hamount.resolve_right hwhen)⟩
      · exact hwhen.resolve_left hobsolete payee hvoted hscript hallowed
  rw [S.accepts_iff p pindexPrev nHeight hsynced htx] at hpayee
  unfold FreeOutputGuarded at hguarded
  split_ifs at hguarded with hsuper
  · rcases hpayee with ⟨-, -, hbudget⟩ | ⟨hspork, hpays⟩
    · obtain ⟨b, payment, -, -, hsome⟩ := S.budgetman.getPayeeAndAmount_isSome hsuper.2
      rw [← hvout _ (hbudget payment hsome) (hguarded.1 payment hsome)]
      exact .inl ⟨hsuper, payment, hsome, rfl, Int.le_refl _⟩
    · obtain ⟨hguard, hwithin⟩ := hguarded.2.resolve_left (by rw [hspork hsuper]; decide)
      exact hnode hguard hpays (.inr hwithin)
  · rcases hpayee with ⟨h, -⟩ | ⟨-, hpays⟩
    · exact (hsuper h).elim
    · exact hnode hguarded hpays (.inl hsuper)

end Guarded

/-! ### Unguarded outputs -/

section Unguarded

def Extras (s : CScript) (extra : List CTxOut) : Prop :=
  ∀ x ∈ extra, x.scriptPubKey = s ∧ MIN_COLDSTAKING_AMOUNT ≤ x.nValue

/-- The coinstake with which a staker uses the free output. -/
def divertingTx (s : CScript) (amount : Int) (extra : List CTxOut) (out : CTxOut) : CTransaction :=
  { vin := [{ prevout := ⟨1, 0⟩ }]
    vout := ⟨0, []⟩ :: ((⟨max amount MIN_COLDSTAKING_AMOUNT, s⟩ :: extra) ++ [out])
    hash := 1 }

def divertingBlock (hash : uint256) (s : CScript) (amount : Int) (extra : List CTxOut) (out : CTxOut) : CBlock :=
  { hash := hash, vtx := [{ vout := [⟨0, []⟩], hash := 0 }, divertingTx s amount extra out] }

variable {hash : uint256} {extra : List CTxOut} {out : CTxOut}

theorem divertingTx_paysBack (hextra : Extras s extra) (hout : out.scriptPubKey ≠ s) :
    TransactionSignatureChecker.PaysBack true s
      (divertingTx s amount extra out) (⟨max amount MIN_COLDSTAKING_AMOUNT, s⟩ :: extra) [out] where
  vout := rfl
  own := List.forall_mem_cons.mpr ⟨rfl, fun x hx => (hextra x hx).1⟩
  some_own := List.cons_ne_nil _ _
  last := .inr ⟨out, rfl, hout, rfl⟩

theorem le_sum_divertingTx (hextra : Extras s extra) :
    amount ≤ ((⟨max amount MIN_COLDSTAKING_AMOUNT, s⟩ :: extra).map CTxOut.nValue).sum := by
  have hsum : 0 ≤ (extra.map CTxOut.nValue).sum := by
    refine List.sum_nonneg fun v hv => ?_
    obtain ⟨x, hx, rfl⟩ := List.mem_map.mp hv
    exact Int.le_trans (by decide) (hextra x hx).2
  rw [List.map_cons, List.sum_cons]
  exact Int.le_trans (Int.le_max_left _ _) (Int.le_add_of_nonneg_right hsum)

variable (hs : CScript.isPayToColdStakingLOF s = true)
  (hv6 : p.networkUpgradeActive (pindexPrev.nHeight + 1) .UPGRADE_V6_0 = false)
  (hpos : p.networkUpgradeActive (pindexPrev.nHeight + 1) .UPGRADE_POS = true)
  (henabled : S.isSporkActive .SPORK_19_COLDSTAKING_MAINTENANCE = false)

include hs hv6 hpos henabled in
theorem coldStaked_divertingBlock (hextra : Extras s extra) (hout : out.scriptPubKey ≠ s) (hallowed : out.AmountAllowed)
    (hamount : out.nValue = getPatriotnodePayment (pindexPrev.nHeight + 1) ∨ S.IsSuperblock pindexPrev)
    (hpayee : S.Accepts p pindexPrev nHeight (divertingBlock hash s amount extra out)) :
    S.ColdStaked p pindexPrev nHeight s amount (divertingBlock hash s amount extra out)
      (divertingTx s amount extra out) where
  coinstake := rfl
  active := hpos
  enabled := henabled
  amounts := by
    rw [(divertingTx_paysBack hextra hout).vout]
    intro x hx
    simp only [List.cons_append, List.mem_cons, List.mem_append, List.not_mem_nil, or_false] at hx
    rcases hx with rfl | rfl | hx | rfl
    · exact fun h => by cases h
    · exact fun _ => Int.le_max_right _ _
    · exact fun _ => (hextra x hx).2
    · exact hallowed
  staker := by
    rw [(Bool.and_eq_true_iff.mp hs).2]
    exact ⟨_, _, divertingTx_paysBack hextra hout, le_sum_divertingTx hextra⟩
  free := (checkColdStakeFreeOutput_iff hs (divertingTx_paysBack hextra hout) hout).mpr ⟨hv6, hamount⟩
  payee := hpayee

/-- An output of the script's own can be among the outputs of a coinstake with a free output. -/
theorem exists_extra_of_ownOutput {x : CTxOut} (h : OwnOutput s x) :
    ∃ extra, Extras s extra ∧
      ∀ amount out, x ∈ (divertingTx s amount extra out).vout := by
  rcases h with rfl | h
  · exact ⟨[], nofun, fun _ _ => List.mem_cons_self⟩
  · refine ⟨[x], List.forall_mem_singleton.mpr h, fun _ _ => ?_⟩
    simp [divertingTx]

/-- Where the node's payment is not guarded, some outputs of the script's own satisfy its check. -/
theorem exists_extra_of_not_nodeGuarded (h : ¬S.NodeGuarded p pindexPrev nHeight s) :
    ∃ extra, Extras s extra ∧
      ∀ amount out, S.AcceptsNode p pindexPrev nHeight (divertingTx s amount extra out).vout := by
  rw [NodeGuarded, not_and] at h
  by_cases hspork : S.isSporkActive .SPORK_8_PATRIOTNODE_PAYMENT_ENFORCEMENT = true
  · have h := h hspork
    simp only [AcceptsNode, paysNode_iff]
    by_cases hobsolete : S.legacyPNObsolete (pindexPrev.nHeight + 1) = true
    · simp only [if_pos hobsolete, not_exists, not_and, not_not] at h ⊢
      rcases hlegacy : S.legacyPayee p (pindexPrev.nHeight + 1) with _ | payee
      · exact ⟨[], nofun, fun _ _ => .inl nofun⟩
      · obtain ⟨extra, hextra, hmem⟩ := exists_extra_of_ownOutput (h payee hlegacy)
        refine ⟨extra, hextra, fun amount out => .inl fun payee' hpayee' => ?_⟩
        cases hpayee'
        exact hmem amount out
    · simp only [if_neg hobsolete, not_and, not_forall, not_not] at h ⊢
      by_cases hvoted : ∃ payee, S.Voted pindexPrev payee
      · obtain ⟨payee, hvoted, hown⟩ := h hvoted
        obtain ⟨extra, hextra, hmem⟩ := exists_extra_of_ownOutput hown
        exact ⟨extra, hextra, fun amount out => .inl fun _ => ⟨payee, hvoted, hmem amount out⟩⟩
      · exact ⟨[], nofun, fun _ _ => .inl fun h => (hvoted h).elim⟩
  · exact ⟨[], nofun, fun _ _ => .inr (Bool.not_eq_true _ ▸ hspork)⟩

variable (S p pindexPrev s) in
theorem exists_stranger :
    ∃ f : CScript, f ≠ s ∧ CScript.isPayToColdStaking f = false ∧ ∀ v, ¬S.Expected p pindexPrev ⟨v, f⟩ := by
  have hlong : ∀ l : List CScript, List.replicate (52 + (l.map List.length).sum) (0 : UInt8) ∉ l := by
    intro l hmem
    have hle := List.le_sum_of_mem (List.mem_map_of_mem hmem : _ ∈ l.map List.length)
    rw [List.length_replicate] at hle
    omega
  have hp2cs : ∀ n, CScript.isPayToColdStaking (List.replicate (52 + n) (0 : UInt8)) = false := by
    intro n
    have hlength : ((List.replicate (52 + n) (0 : UInt8)).length == 51) = false := by
      rw [List.length_replicate, beq_eq_false_iff_ne]
      omega
    simp only [CScript.isPayToColdStaking, hlength, Bool.false_and]
  let paid := s :: ((S.budgetman.getPayeeAndAmount (pindexPrev.nHeight + 1)).map CTxBudgetPayment.payee).toList ++
    (S.legacyPayee p (pindexPrev.nHeight + 1)).toList ++
    ((S.mapPatriotnodeBlocks[(pindexPrev.nHeight + 1 : Int)]?).getD []).map CPatriotnodePayee.scriptPubKey
  have hmem := hlong paid
  simp only [paid, List.mem_append, List.mem_cons, Option.mem_toList, Option.map_eq_some_iff, List.mem_map, not_or,
    not_exists, not_and] at hmem
  obtain ⟨⟨⟨hs, hbudget⟩, hlegacy⟩, hvotes⟩ := hmem
  refine ⟨_, hs, hp2cs _, fun v hexpected => ?_⟩
  rcases hexpected with ⟨-, payment, hpayment, hpayee, -⟩ | ⟨hpayee | ⟨vec, hvec, payee, hin, -, hpayee⟩, -⟩
  · exact hbudget payment hpayment hpayee.symm
  · exact hlegacy hpayee
  · exact hvotes payee (by rw [hvec]; exact hin) hpayee

theorem exists_not_paidOnChain (S : PayeeState) (pindexPrev : CBlockIndex) :
    ∃ hash, ¬S.PaidOnChain pindexPrev hash := by
  by_cases h : S.PaidOnChain pindexPrev 0
  · obtain ⟨b, payment, hb, hpay, paid, hpaid, -, -⟩ := h
    -- the block that the history names for the proposal
    refine ⟨paid.1, ?_⟩
    rintro ⟨b', payment', hb', hpay', paid', hpaid', hne, -⟩
    obtain rfl := Option.some.inj (hb.symm.trans hb')
    obtain rfl := Option.some.inj (hpay.symm.trans hpay')
    obtain rfl := Option.some.inj (hpaid.symm.trans hpaid')
    exact hne rfl
  · exact ⟨0, h⟩

include hs hv6 hpos henabled in
/-- Where the free output is not guarded, some accepted block pays it to somebody else. -/
theorem guarded_of_returned (hsynced : S.isSynced = true) (hall : ∀ block tx, S.ColdStaked p pindexPrev nHeight s amount block tx →
      S.Returned p pindexPrev s amount tx) : S.FreeOutputGuarded p pindexPrev nHeight s := by
  have hcoinstake : ∀ hash extra out, (divertingBlock hash s amount extra out).vtx[
      if payCoinstake p (pindexPrev.nHeight + 1) then 1 else 0]? = some (divertingTx s amount extra out) := by
    intro hash extra out
    rw [payCoinstake, hpos, hv6]
    rfl
  have hexpected : ∀ hash {extra out}, Extras s extra →
      out.scriptPubKey ≠ s → out.AmountAllowed →
      (out.nValue = getPatriotnodePayment (pindexPrev.nHeight + 1) ∨ S.IsSuperblock pindexPrev) →
      S.Accepts p pindexPrev nHeight (divertingBlock hash s amount extra out) → S.Expected p pindexPrev out := by
    intro hash extra out hextra hout hallowed hamount hpayee
    refine (hall _ _ (coldStaked_divertingBlock hs hv6 hpos henabled hextra hout hallowed hamount hpayee)).1 out ?_ hout
    simp [divertingTx]
  obtain ⟨f, hfs, hfp2cs, hstranger⟩ := exists_stranger S p pindexPrev s
  have hallowed : ∀ v, CTxOut.AmountAllowed ⟨v, f⟩ := fun v h => by
    rw [hfp2cs] at h
    cases h
  have hfree : ∀ hash {extra}, Extras s extra → ¬S.Accepts p pindexPrev nHeight
      (divertingBlock hash s amount extra ⟨getPatriotnodePayment (pindexPrev.nHeight + 1), f⟩) :=
    fun hash _ hextra hpayee => hstranger _ (hexpected hash hextra hfs (hallowed _) (.inl rfl) hpayee)
  have hnode : (S.IsSuperblock pindexPrev → S.isSporkActive .SPORK_9_PATRIOTNODE_BUDGET_ENFORCEMENT = false) →
      S.NodeGuarded p pindexPrev nHeight s := by
    intro hspork
    by_contra hnode
    obtain ⟨extra, hextra, hpays⟩ := exists_extra_of_not_nodeGuarded hnode
    exact hfree 0 hextra ((S.accepts_iff p pindexPrev nHeight hsynced (hcoinstake _ _ _)).mpr
      (.inr ⟨hspork, hpays _ _⟩))
  unfold FreeOutputGuarded
  split_ifs with hsuper
  · refine ⟨fun payment hpayment hown => ?_, ?_⟩
    · obtain ⟨extra, hextra, hmem⟩ := exists_extra_of_ownOutput hown
      obtain ⟨hash, hhash⟩ := exists_not_paidOnChain S pindexPrev
      refine hfree hash hextra ((S.accepts_iff p pindexPrev nHeight hsynced (hcoinstake _ _ _)).mpr
        (.inl ⟨hsuper, hhash, fun payment' hpayment' => ?_⟩))
      obtain rfl := Option.some.inj (hpayment.symm.trans hpayment')
      exact hmem _ _
    · rw [← Bool.not_eq_false, or_iff_not_imp_left, not_not]
      intro hspork
      refine ⟨hnode fun _ => hspork, or_iff_not_imp_left.mpr fun hobsolete payee hvoted hpayee hamount => ?_⟩
      refine hexpected 0 (List.forall_mem_nil _) hpayee hamount (.inr hsuper)
        ((S.accepts_iff p pindexPrev nHeight hsynced (hcoinstake _ _ _)).mpr (.inr ⟨fun _ => hspork, .inl ?_⟩))
      rw [paysNode_iff, if_neg hobsolete]
      exact fun _ => ⟨payee, hvoted, by simp [divertingTx]⟩
  · exact hnode fun h => (hsuper h).elim

end Unguarded

variable (S p pindexPrev nHeight s) in
/-- The free output of a coinstake of the script is left to the payee check only with `OP_CHECKCOLDSTAKEVERIFY_LOF`,
while blocks are staked, before v6.0 and with cold staking enabled. -/
def ColdStakeGuarded : Prop :=
  CScript.isPayToColdStakingLOF s = false ∨
  p.networkUpgradeActive (pindexPrev.nHeight + 1) .UPGRADE_V6_0 = true ∨
  p.networkUpgradeActive (pindexPrev.nHeight + 1) .UPGRADE_POS = false ∨
  S.isSporkActive .SPORK_19_COLDSTAKING_MAINTENANCE = true ∨
  S.FreeOutputGuarded p pindexPrev nHeight s

theorem returned_of_paysBack {fAllow : Bool} {tx : CTransaction} {outs free : List CTxOut}
    (hback : TransactionSignatureChecker.PaysBack fAllow s tx outs free) (hamount : amount ≤ (outs.map CTxOut.nValue).sum)
    (hfree : ∀ out, free = [out] → out.scriptPubKey ≠ s → fAllow = true → S.Expected p pindexPrev out) :
    S.Returned p pindexPrev s amount tx := by
  have hdrop : tx.vout.drop 1 = outs ++ free := by rw [hback.vout]; rfl
  have hnone : free.filter (fun out => out.scriptPubKey = s) = [] := by
    rcases hback.last with h | ⟨out, h, hne, -⟩
    · rw [h]; rfl
    · simp [h, hne]
  constructor
  · intro out hout hne
    rw [hdrop, List.mem_append] at hout
    rcases hout with hout | hout
    · exact (hne (hback.own out hout)).elim
    · rcases hback.last with h | ⟨out', h, -, hallow⟩
      · rw [h] at hout
        cases hout
      · rw [h, List.mem_singleton] at hout
        subst hout
        exact hfree out h hne hallow
  · rw [hdrop, List.filter_append, hnone, List.append_nil, List.filter_eq_self.mpr (by simpa using hback.own)]
    exact hamount

/-- A block that passed the checks brings the staked value back, if its free output is guarded. -/
theorem ColdStaked.returned {block : CBlock} {tx : CTransaction}
    (h : S.ColdStaked p pindexPrev nHeight s amount block tx) (hsynced : S.isSynced = true)
    (hs : CScript.isPayToColdStaking s = true) (hguarded : S.ColdStakeGuarded p pindexPrev nHeight s) :
    S.Returned p pindexPrev s amount tx := by
  obtain ⟨outs, free, hback, hsum⟩ := h.staker
  refine returned_of_paysBack hback hsum fun out hfree hout hallow => ?_
  subst hfree
  rw [hallow] at hback
  have hlof : CScript.isPayToColdStakingLOF s = true := Bool.and_eq_true_iff.mpr ⟨hs, hallow⟩
  obtain ⟨hv6, hamount⟩ := (checkColdStakeFreeOutput_iff hlof hback hout).mp h.free
  have hfree : S.FreeOutputGuarded p pindexPrev nHeight s := by
    simpa [ColdStakeGuarded, hlof, hv6, h.active, h.enabled] using hguarded
  have hmem : out ∈ tx.vout := by simp [hback.vout]
  have htx : block.vtx[if payCoinstake p (pindexPrev.nHeight + 1) then 1 else 0]? = some tx := by
    rw [payCoinstake, h.active, hv6]
    exact h.coinstake
  refine hfree.expected hsynced htx h.payee (fun x hx hown => ?_) hout (h.amounts out hmem) hamount
  have hallowed := h.amounts x hx
  rw [hback.vout, List.mem_cons, List.mem_append, List.mem_singleton] at hx
  rcases hx with rfl | hx | rfl
  · exact (hown (.inl rfl)).elim
  · have hscript := hback.own x hx
    exact (hown (.inr ⟨hscript, hallowed (by rw [hscript]; exact hs)⟩)).elim
  · rfl

end PayeeState

/-! ## Connected blocks -/

/-- The coinstake of the block spends an output with the P2CS script `s` through the staker's branch: what the
`scriptSig` leaves below the key selects it. -/
structure StakerSpend (c : TransactionSignatureChecker) (flags : ScriptFlags) (s : CScript) (block : CBlock)
    (tx : CTransaction) : Prop where
  coinstake : block.vtx[1]? = some tx
  txTo : c.txTo = tx
  input : ∃ txin ∈ tx.vin, verifyScript c flags txin.scriptSig s = .ok () ∧
    ∃ pk sel rest, evalScript c flags [] txin.scriptSig = .ok (pk :: sel :: rest) ∧ castToBool sel = true

variable {tx : CTransaction} {c : TransactionSignatureChecker}

theorem StakerSpend.checkColdStake {flags : ScriptFlags} {s : CScript}
    {block : CBlock} (h : StakerSpend c flags s block tx) (hs : CScript.isPayToColdStaking s = true) :
    ∃ stack, c.checkColdStake flags (CScript.has s 4 OP_CHECKCOLDSTAKEVERIFY_LOF) s stack = .ok () := by
  obtain ⟨txin, -, hverify, pk, sel, rest, hsig, hsel⟩ := h.input
  obtain ⟨stack, out, hstack, hout⟩ := evalScripts_of_verifyScript hverify
  obtain ⟨pk', sel', rest', rfl, hbranch⟩ := evalScript_p2cs hs hout
  rw [hsig, Except.ok.injEq, List.cons.injEq, List.cons.injEq] at hstack
  obtain ⟨rfl, rfl, rfl⟩ := hstack
  rw [BranchTaken, if_pos hsel] at hbranch
  exact ⟨_, hbranch.2⟩

theorem foldlM_checkTxOut_p2cs {p : CChainParams} {fColdStakingActive : Bool} :
    ∀ {vout : List CTxOut} {v w : Int}, vout.foldlM (checkTxOut p tx fColdStakingActive) v = .ok w →
      ∀ out ∈ vout, CScript.isPayToColdStaking out.scriptPubKey = true →
        fColdStakingActive = true ∧ MIN_COLDSTAKING_AMOUNT ≤ out.nValue
  | [], _, _, _ => nofun
  | out :: vout, v, w, h => by
    rw [List.foldlM_cons] at h
    obtain ⟨v', hstep, h⟩ := bind_eq_ok.mp h
    refine List.forall_mem_cons.mpr ⟨fun hp2cs => ?_, foldlM_checkTxOut_p2cs h⟩
    simp only [checkTxOut, bind_eq_ok, invalidUnless, require_eq_ok, if_pos hp2cs] at hstep
    obtain ⟨_, -, _, -, _, -, _, -, _, ⟨_, hactive, hamount⟩, -⟩ := hstep
    exact ⟨hactive, hamount⟩

theorem coldStaked_of_connectBlock {D : Type} [Digest D] {p : CChainParams} {k : Crypto} {V : NodeChecks} {N : NodeEnv}
    {block : CBlock} {st : ChainState D} {r : ConnectResult D} {flags : ScriptFlags}
    {s : CScript} (hibd : N.fInitialBlockDownload = false) (hs : CScript.isPayToColdStaking s = true)
    (hgenesis : block.getHash ≠ N.payees.hashGenesisBlock) (hconnect : connectBlock p k V N block st = .ok r)
    (hspend : StakerSpend c flags s block tx) :
    N.payees.ColdStaked p st.pindex N.nHeight s c.amount block tx := by
  obtain ⟨t, hblock⟩ := connectBlock_eq_ok hgenesis hconnect
  obtain ⟨stack, hcheck⟩ := hspend.checkColdStake hs
  obtain ⟨hstake, outs, free, hback, hsum⟩ := TransactionSignatureChecker.checkColdStake_eq_ok hcheck
  rw [hspend.txTo] at hstake hback
  obtain ⟨own, rest, howns⟩ := List.exists_cons_of_ne_nil hback.some_own
  have hown : own ∈ tx.vout ∧ own.scriptPubKey = s := by
    rw [hback.vout, howns]
    exact ⟨by simp, hback.own own (by simp [howns])⟩
  simp only [connectBlock, bind_eq_ok, if_neg hgenesis] at hconnect
  obtain ⟨_, hprelude, _, -, _, -, _, hpay, -⟩ := hconnect
  obtain ⟨_, hchecked, -⟩ := bind_eq_ok.mp hprelude
  simp only [checkBlock, bind_eq_ok, invalidUnless, require_eq_ok, hibd, Bool.false_or] at hchecked
  obtain ⟨_, -, _, -, _, -, _, -, _, -, _, -, _, -, _, -, _, hfree, _, htxs, -⟩ := hchecked
  obtain ⟨_, htx, -⟩ := bind_eq_ok.mp (forM_eq_ok.mp htxs tx (List.mem_of_getElem? hspend.coinstake))
  simp only [checkTransaction, bind_eq_ok] at htx
  obtain ⟨_, -, _, -, _, -, _, -, _, -, _, hvout, -⟩ := htx
  have houts := foldlM_checkTxOut_p2cs hvout
  have hpos : block.isProofOfStake = true := by rw [CBlock.isProofOfStake, hspend.coinstake, Option.any_some, hstake]
  simp only [connectPayments, bind_eq_ok, hibd, if_neg Bool.false_ne_true, invalidUnless, require_eq_ok] at hpay
  obtain ⟨_, -, _, -, _, ⟨⟨valid, history⟩, hvalid, rfl⟩, -⟩ := hpay
  refine ⟨hspend.coinstake, hblock.kind.trans hpos, ?_, fun out hout hp2cs => (houts out hout hp2cs).2,
    ⟨outs, free, hback, hsum.trans (TransactionSignatureChecker.toInt_ofInt_le ?_)⟩, ?_, ⟨history, hvalid⟩⟩
  · have hactive := (houts own hown.1 (by rw [hown.2]; exact hs)).1
    rwa [Bool.not_eq_true'] at hactive
  · -- the script's own outputs have the minimal amount, so the exact sum is not negative
    refine Int.le_trans (by decide) (List.sum_nonneg fun v hv => ?_)
    obtain ⟨out, hout, rfl⟩ := List.mem_map.mp hv
    refine Int.le_trans (by decide) (houts out ?_ (by rw [hback.own out hout]; exact hs)).2
    rw [hback.vout]
    simp [hout]
  · have hfree := (hfree.resolve_left Bool.false_ne_true).resolve_left (by rw [hpos]; decide)
    rwa [hspend.coinstake, Option.all_some] at hfree

/-- **Cold staking.** Every connected block on a synced node that stakes a P2CS output through the staker's branch
passed the checks of its script, of its free output and of its payees. These checks bring the staked value back to the
script, apart from an expected payment, exactly where the free output is guarded. -/
theorem cold_stake_returned_iff (D : Type) [Digest D] (p : CChainParams) (N : NodeEnv) (pindexPrev : CBlockIndex)
    (s : CScript) (amount : Int) (hsynced : N.payees.isSynced = true) (hibd : N.fInitialBlockDownload = false)
    (hs : CScript.isPayToColdStaking s = true) :
    (∀ (k : Crypto) (V : NodeChecks) (block : CBlock) (st : ChainState D) (r : ConnectResult D)
      (c : TransactionSignatureChecker) (flags : ScriptFlags) (tx : CTransaction), st.pindex = pindexPrev →
      block.getHash ≠ N.payees.hashGenesisBlock → connectBlock p k V N block st = .ok r →
      StakerSpend c flags s block tx → c.amount = amount →
      N.payees.ColdStaked p pindexPrev N.nHeight s amount block tx) ∧
    ((∀ block tx, N.payees.ColdStaked p pindexPrev N.nHeight s amount block tx →
      N.payees.Returned p pindexPrev s amount tx) ↔ N.payees.ColdStakeGuarded p pindexPrev N.nHeight s) := by
  refine ⟨?_, fun hall => ?_, fun hguarded block tx h => h.returned hsynced hs hguarded⟩
  · rintro k V block st r c flags tx rfl hgenesis hconnect hspend rfl
    exact coldStaked_of_connectBlock hibd hs hgenesis hconnect hspend
  · by_contra hno
    simp only [PayeeState.ColdStakeGuarded, not_or, Bool.not_eq_true, Bool.not_eq_false] at hno
    obtain ⟨hlof, hv6, hpos, hspork, hfree⟩ := hno
    exact hfree (PayeeState.guarded_of_returned hlof hv6 hpos hspork hsynced hall)

namespace Sample

/-- Blocks are staked from height 1 on, and v6.0 is not active. -/
def stakeParams : CChainParams :=
  { params with nActivationHeight := fun idx => if idx = .UPGRADE_POS then 1 else -1 }

/-- A P2CS script with a free last output, whose staker has `ownKey`. -/
def coldScript : CScript :=
  [OP_DUP, OP_HASH160, OP_ROT, OP_IF, OP_CHECKCOLDSTAKEVERIFY_LOF, 0x14] ++ ownKeyHash ++ [OP_ELSE, 0x14] ++
    List.replicate 20 0x33 ++ [OP_ENDIF, OP_EQUALVERIFY, OP_CHECKSIG]

/-- The `scriptSig` of the staker: signature, branch and key. -/
def stakerScriptSig : CScript := CScript.pushing (derSig ++ [1]) ++ [OP_1] ++ CScript.pushing ownKey

variable (payee : CScript)

/-- The coinstake of a staked output of 100 coins; its free output pays `payee`. -/
def coldStakeTx : CTransaction :=
  { vin := [{ prevout := ⟨5, 0⟩, scriptSig := stakerScriptSig }]
    vout := [⟨0, []⟩, ⟨100 * COIN, coldScript⟩, ⟨getPatriotnodePayment 1, payee⟩]
    hash := 0xc2 }

def coldStakeBlock : CBlock :=
  { hash := 0xb1, vtx := [{ vin := [{ scriptSig := [1, 0] }], vout := [⟨0, []⟩], hash := 0xc1 }, coldStakeTx payee] }

def coldStakeChecker : TransactionSignatureChecker :=
  { crypto := scriptCrypto, txTo := coldStakeTx payee, nIn := 0, amount := 100 * COIN, signatureHash := fun _ _ => 0 }

/-- The chain after genesis, with the staked output. -/
def coldStakeChain : ChainState Bytes :=
  { pindex := .genesis 0xb0
    view :=
      { hashBlock := 0xb0, hashSaplingAnchor := 0
        coins := (∅ : FinMap COutPoint Coin).insert ⟨5, 0⟩ ⟨⟨100 * COIN, coldScript⟩, false, false, 0⟩ }
    nChainSaplingValue := 0
    evoBestBlock := 0xb0
    mnList := {} }

/-- A synced node that enforces node payments; no payee has votes, and legacy nodes are obsolete after a height. -/
def coldStakeEnv (legacyPNsMaxHeight : Int) : NodeEnv :=
  { nodeEnv with payees :=
      { payeeState (some [0x54]) with hashGenesisBlock := 0xb0, legacyPNsMaxHeight := legacyPNsMaxHeight } }

theorem coldStake_spend (h : verifyScript (coldStakeChecker payee) (consensusFlags true)
    stakerScriptSig coldScript = .ok ()) (hsig : evalScript (coldStakeChecker payee) (consensusFlags true) []
      stakerScriptSig = .ok [ownKey, [1], derSig ++ [1]]) :
    StakerSpend (coldStakeChecker payee) (consensusFlags true) coldScript (coldStakeBlock payee)
      (coldStakeTx payee) where
  coinstake := rfl
  txTo := rfl
  input := ⟨_, List.mem_singleton_self _, h, ownKey, [1], [derSig ++ [1]], hsig, by decide⟩

theorem coldStakeBlock_connects : Returns (connectBlock stakeParams crypto checks (coldStakeEnv 0)
    (coldStakeBlock (p2pkh 0x54)) coldStakeChain) (fun _ => True) := by decide +kernel

theorem coldStakeBlock_connects_unvoted : Returns (connectBlock stakeParams crypto checks (coldStakeEnv 100)
    (coldStakeBlock (p2pkh 0x66)) coldStakeChain) (fun _ => True) := by decide +kernel

end Sample

open Sample

theorem cold_stake_returned_enforced : ∃ r : ConnectResult Bytes,
    connectBlock stakeParams crypto checks (coldStakeEnv 0)
      (coldStakeBlock (p2pkh 0x54)) coldStakeChain = .ok r ∧
    (coldStakeEnv 0).payees.Returned stakeParams (.genesis 0xb0) coldScript (100 * COIN)
      (coldStakeTx (p2pkh 0x54)) := by
  obtain ⟨r, hr, -⟩ := coldStakeBlock_connects.exists_ok
  obtain ⟨hchecks, hiff⟩ := cold_stake_returned_iff Bytes stakeParams (coldStakeEnv 0) (.genesis 0xb0)
    coldScript (100 * COIN) rfl rfl (by decide +kernel)
  refine ⟨r, hr, hiff.mpr (.inr (.inr (.inr (.inr ?_)))) _ _ (hchecks crypto checks _ _ r _ _ _ rfl
    (by decide) hr (coldStake_spend _ (by decide +kernel) (by decide +kernel)) rfl)⟩
  rw [PayeeState.FreeOutputGuarded, if_neg (by decide)]
  refine ⟨rfl, ?_⟩
  rw [if_pos (by decide)]
  refine ⟨p2pkh 0x54, rfl, ?_⟩
  rintro (h | h)
  · exact absurd h (by decide)
  · exact absurd h.1 (by decide)

/-- Legacy nodes are not obsolete and no payee has votes: the block is accepted, and the free output pays the amount of
a node's payment to somebody else. -/
theorem cold_stake_diverted : ∃ r : ConnectResult Bytes,
    connectBlock stakeParams crypto checks (coldStakeEnv 100)
      (coldStakeBlock (p2pkh 0x66)) coldStakeChain = .ok r ∧
    StakerSpend (coldStakeChecker (p2pkh 0x66)) (consensusFlags true) coldScript
      (coldStakeBlock (p2pkh 0x66)) (coldStakeTx (p2pkh 0x66)) ∧
    ¬(coldStakeEnv 100).payees.Returned stakeParams (.genesis 0xb0) coldScript (100 * COIN)
      (coldStakeTx (p2pkh 0x66)) := by
  obtain ⟨r, hr, -⟩ := coldStakeBlock_connects_unvoted.exists_ok
  refine ⟨r, hr, coldStake_spend _ (by decide +kernel) (by decide +kernel), fun h => ?_⟩
  rcases h.1 ⟨getPatriotnodePayment 1, p2pkh 0x66⟩ (by simp [coldStakeTx]) (by decide) with
    ⟨hsuper, -⟩ | ⟨hlegacy | ⟨vec, hvec, -⟩, -⟩
  · exact absurd hsuper (by decide)
  · exact absurd hlegacy (by decide)
  · cases hvec

end TrumpCoin
