import TrumpCoin.Evo.Rotation
import TrumpCoin.Payments.BlockPayee

/-!
# The payee check

What `IsBlockPayeeValid` asks of the outputs of the paying transaction, and when it makes a block pay the node that
the deterministic list selects.

* `CPatriotnodeBlockPayees.isTransactionValid_iff`: the votes for a height;
* `PayeeState.accepts_iff`: the whole check on a synced node;
* `PayeeState.payee_is_listed_iff`: the check and the payee of the deterministic list.
-/

namespace TrumpCoin

open Lib

/-! ## Votes for a height -/

namespace CPatriotnodeBlockPayees

variable {vec : List CPatriotnodePayee}

def Decided (vec : List CPatriotnodePayee) : Prop := ∃ payee ∈ vec, PNPAYMENTS_SIGNATURES_REQUIRED ≤ payee.nVotes

theorem foldl_maxSignatures_lt : ∀ {vec : List CPatriotnodePayee} {m : Int},
    vec.foldl (fun nMaxSignatures (payee : CPatriotnodePayee) =>
      if nMaxSignatures ≤ payee.nVotes ∧ PNPAYMENTS_SIGNATURES_REQUIRED ≤ payee.nVotes then payee.nVotes
      else nMaxSignatures) m < PNPAYMENTS_SIGNATURES_REQUIRED ↔
    m < PNPAYMENTS_SIGNATURES_REQUIRED ∧ ∀ payee ∈ vec, payee.nVotes < PNPAYMENTS_SIGNATURES_REQUIRED
  | [], m => by simp
  | payee :: vec, m => by
    rw [List.foldl_cons, foldl_maxSignatures_lt, List.forall_mem_cons, ← and_assoc]
    refine and_congr_left fun _ => ?_
    split <;> omega

theorem maxSignatures_lt : maxSignatures vec < PNPAYMENTS_SIGNATURES_REQUIRED ↔ ¬Decided vec := by
  rw [maxSignatures, foldl_maxSignatures_lt, Decided]
  simp only [not_exists, not_and, Int.not_le]
  exact and_iff_right (by decide)

/-- Without a decision every transaction is valid; with one it has to pay a payee that has the votes. -/
theorem isTransactionValid_iff {vout : List CTxOut} {nHeight : Int} : isTransactionValid vec vout nHeight = true ↔
    (Decided vec → ∃ payee ∈ vec, PNPAYMENTS_SIGNATURES_REQUIRED ≤ payee.nVotes ∧
      ⟨getPatriotnodePayment nHeight, payee.scriptPubKey⟩ ∈ vout) := by
  have hfound : ∀ payee : CPatriotnodePayee, (vout.any fun out => payee.scriptPubKey == out.scriptPubKey &&
      out.nValue == getPatriotnodePayment nHeight) = true ↔
      ⟨getPatriotnodePayment nHeight, payee.scriptPubKey⟩ ∈ vout := by
    intro payee
    simp only [List.any_eq_true, Bool.and_eq_true, beq_iff_eq]
    constructor
    · rintro ⟨out, hout, hscript, hvalue⟩
      rw [hscript, ← hvalue]
      exact hout
    · exact fun h => ⟨_, h, rfl, rfl⟩
  unfold isTransactionValid
  split_ifs with hlt
  · exact iff_of_true rfl fun hdecided => (maxSignatures_lt.mp hlt hdecided).elim
  · have hdecided : Decided vec := not_not.mp fun h => hlt (maxSignatures_lt.mpr h)
    simp only [List.any_eq_true, Bool.and_eq_true, decide_eq_true_eq, hfound]
    exact ⟨fun h _ => h, fun h => h hdecided⟩

theorem getPayee_of_decided (h : Decided vec) :
    ∃ payee ∈ vec, PNPAYMENTS_SIGNATURES_REQUIRED ≤ payee.nVotes ∧ getPayee vec = some payee.scriptPubKey := by
  obtain ⟨most, hmost, hvotes⟩ := h
  have hle := (highest_spec CPatriotnodePayee.nVotes (-1) vec).1 most hmost
  cases hbest : highest CPatriotnodePayee.nVotes (-1) vec with
  | none =>
    rw [hbest] at hle
    simp only [PNPAYMENTS_SIGNATURES_REQUIRED, Option.elim_none] at hle hvotes
    omega
  | some payee =>
    rw [hbest] at hle
    obtain ⟨i, hi, -⟩ := (highest_eq_some.mp hbest).first
    exact ⟨payee, List.mem_of_getElem? hi, Int.le_trans hvotes hle, by rw [getPayee, hbest]; rfl⟩

end CPatriotnodeBlockPayees

/-! ## What the check asks for -/

namespace PayeeState

variable (S : PayeeState) (p : CChainParams) (pindexPrev : CBlockIndex) (nHeight : Int)

def IsSuperblock : Prop :=
  S.isSporkActive .SPORK_13_ENABLE_SUPERBLOCKS = true ∧ S.budgetman.isBudgetPaymentBlock (pindexPrev.nHeight + 1) = true

instance : Decidable (S.IsSuperblock pindexPrev) := inferInstanceAs (Decidable (_ ∧ _))

/-- The votes for the payee of the block after `pindexPrev` are decided. -/
def Decided : Prop :=
  ∃ vec, S.mapPatriotnodeBlocks[(pindexPrev.nHeight + 1 : Int)]? = some vec ∧ CPatriotnodeBlockPayees.Decided vec

variable (vout : List CTxOut)

/-- The outputs pay a node as `CPatriotnodePayments::IsTransactionValid` asks for. -/
def PaysNode : Prop :=
  if S.legacyPNObsolete (pindexPrev.nHeight + 1) = true then
    ∀ payee, S.legacyPayee p (pindexPrev.nHeight + 1) = some payee →
      ⟨getPatriotnodePayment (pindexPrev.nHeight + 1), payee⟩ ∈ vout
  else ∀ vec, S.mapPatriotnodeBlocks[(pindexPrev.nHeight + 1 : Int)]? = some vec →
    CPatriotnodeBlockPayees.Decided vec → ∃ payee ∈ vec, PNPAYMENTS_SIGNATURES_REQUIRED ≤ payee.nVotes ∧
      ⟨getPatriotnodePayment nHeight, payee.scriptPubKey⟩ ∈ vout

/-- The proposal that the superblock after `pindexPrev` pays was paid by a block of the active chain. -/
def PaidOnChain (nBlockHash : uint256) : Prop :=
  ∃ b payment, S.budgetman.getBudgetWithHighestVoteCount (pindexPrev.nHeight + 1) = some b ∧
    b.getBudgetPaymentByBlock (pindexPrev.nHeight + 1) = some payment ∧
    ∃ paid : uint256 × Int, (b.thisCycle S.mapPayment_History)[payment.nProposalHash]? = some paid ∧
      nBlockHash ≠ paid.1 ∧ S.onChain paid.1 = true

def Accepts (block : CBlock) : Prop := ∃ history, S.isBlockPayeeValid p block pindexPrev nHeight = .ok (true, history)

theorem isPatriotnodeTransactionValid_iff {vout : List CTxOut} :
    S.isPatriotnodeTransactionValid p vout pindexPrev nHeight = true ↔ S.PaysNode p pindexPrev nHeight vout := by
  unfold isPatriotnodeTransactionValid PaysNode
  dsimp only
  split
  · unfold getPatriotnodeTxOuts getLegacyPatriotnodeTxOut
    cases hpayee : S.legacyPayee p (pindexPrev.nHeight + 1) with
    | none => simp
    | some payee => simp
  · split
    · rename_i vec hvec
      rw [hvec, CPatriotnodeBlockPayees.isTransactionValid_iff]
      simp
    · rename_i hnone
      simp [hnone]

/-- A node is paid, or need not be. -/
abbrev AcceptsNode : Prop :=
  S.PaysNode p pindexPrev nHeight vout ∨ S.isSporkActive .SPORK_8_PATRIOTNODE_PAYMENT_ENFORCEMENT = false

theorem isNodePaymentAccepted_iff {vout : List CTxOut} :
    S.isNodePaymentAccepted p vout pindexPrev nHeight = true ↔ S.AcceptsNode p pindexPrev nHeight vout := by
  rw [isNodePaymentAccepted, Bool.or_eq_true, isPatriotnodeTransactionValid_iff, Bool.not_eq_true']

/-- **The payee check** of a block whose paying transaction is `txNew`, on a synced node. -/
theorem accepts_iff (hsynced : S.isSynced = true) {block : CBlock} {txNew : CTransaction}
    (htx : block.vtx[if payCoinstake p (pindexPrev.nHeight + 1) then 1 else 0]? = some txNew) :
    S.Accepts p pindexPrev nHeight block ↔
      (S.IsSuperblock pindexPrev ∧ ¬S.PaidOnChain pindexPrev block.getHash ∧
        ∀ payment, S.budgetman.getPayeeAndAmount (pindexPrev.nHeight + 1) = some payment →
          payment.txOut ∈ txNew.vout) ∨
      ((S.IsSuperblock pindexPrev → S.isSporkActive .SPORK_9_PATRIOTNODE_BUDGET_ENFORCEMENT = false) ∧
        S.AcceptsNode p pindexPrev nHeight txNew.vout) := by
  unfold Accepts isBlockPayeeValid
  rw [if_neg (by rw [hsynced]; decide), htx]
  dsimp only
  by_cases hsuper : S.IsSuperblock pindexPrev
  · obtain ⟨b, payment, hb, hpay, hsome⟩ := S.budgetman.getPayeeAndAmount_isSome hsuper.2
    have hstatus := S.budgetman.isTransactionValid_eq S.onChain S.mapPayment_History txNew.vout block.getHash
      hsuper.2 hb hpay
    have hpaid : S.PaidOnChain pindexPrev block.getHash ↔ (b.isPaidAlready S.onChain S.mapPayment_History
        payment.nProposalHash block.getHash (pindexPrev.nHeight + 1)).1 = true := by
      rw [b.isPaidAlready_iff, PaidOnChain]
      simp [hb, hpay]
    rw [if_pos (by rw [hsuper.1, hsuper.2]; rfl), hpaid]
    rcases hverdict : S.budgetman.isTransactionValid S.onChain S.mapPayment_History txNew.vout block.getHash
      (pindexPrev.nHeight + 1) with ⟨status, history⟩
    rw [hverdict] at hstatus
    dsimp only at hstatus ⊢
    simp only [hsuper, hsome, true_and, true_imp_iff, Option.some.injEq, forall_eq', Bool.not_eq_true]
    split_ifs at hstatus with hvalid
    · rw [if_pos hstatus]
      exact iff_of_true ⟨history, rfl⟩ (.inl hvalid)
    · rw [if_neg (by rw [hstatus]; decide), hstatus, or_iff_right hvalid, ← isNodePaymentAccepted_iff]
      cases S.isSporkActive .SPORK_9_PATRIOTNODE_BUDGET_ENFORCEMENT <;> simp
  · have hno : (S.isSporkActive .SPORK_13_ENABLE_SUPERBLOCKS &&
        S.budgetman.isBudgetPaymentBlock (pindexPrev.nHeight + 1)) = false := by
      rw [Bool.eq_false_iff, ne_eq, Bool.and_eq_true]
      exact hsuper
    rw [hno, ← isNodePaymentAccepted_iff]
    simp [hsuper]

theorem Accepts.exists_tx {S : PayeeState} {p : CChainParams} {pindexPrev : CBlockIndex} {nHeight : Int}
    (hsynced : S.isSynced = true) {block : CBlock} (h : S.Accepts p pindexPrev nHeight block) :
    ∃ txNew, block.vtx[if payCoinstake p (pindexPrev.nHeight + 1) then 1 else 0]? = some txNew := by
  obtain ⟨history, h⟩ := h
  rw [← Option.isSome_iff_exists, Option.isSome_iff_ne_none]
  intro hnone
  unfold isBlockPayeeValid at h
  rw [if_neg (by rw [hsynced]; decide), hnone] at h
  cases h

/-! ## The payee of the deterministic list -/

def blockPaying : CBlock := ⟨0, 0, 0, [{ vout := vout, hash := 0 }, { vout := vout, hash := 1 }]⟩

theorem blockPaying_tx :
    ∃ txNew, (blockPaying vout).vtx[if payCoinstake p (pindexPrev.nHeight + 1) then 1 else 0]? = some txNew ∧
      txNew.vout = vout := by
  split
  · exact ⟨_, rfl, rfl⟩
  · exact ⟨_, rfl, rfl⟩

/-- The votes for a height, or without any the scores, designate a script: it is the first with the most votes, or
that of the first node with the highest score, legacy nodes before those of the deterministic list at the tip. -/
def Designated (nHeight : Int) (script : CScript) : Prop :=
  let votes := (S.mapPatriotnodeBlocks[nHeight]?).getD []
  (∃ payee, FirstHighest CPatriotnodePayee.nVotes (-1) votes payee ∧ payee.scriptPubKey = script) ∨
    (∀ payee ∈ votes, payee.nVotes ≤ -1) ∧
      ∃ node, FirstHighest (S.score (S.scoringHash p nHeight)) 0 (S.legacyCandidates p ++ S.dmnCandidates p) node ∧
        node.2 = script

theorem legacyPayee_eq_some {nHeight : Int} {script : CScript} :
    S.legacyPayee p nHeight = some script ↔ S.Designated p nHeight script := by
  have hvoted : S.getBlockPayee nHeight =
      (highest CPatriotnodePayee.nVotes (-1) ((S.mapPatriotnodeBlocks[nHeight]?).getD [])).map
        CPatriotnodePayee.scriptPubKey := by
    unfold getBlockPayee
    cases S.mapPatriotnodeBlocks[nHeight]? <;> rfl
  unfold Designated legacyPayee
  simp only [hvoted, ← highest_eq_some, ← highest_eq_none]
  cases highest CPatriotnodePayee.nVotes (-1) ((S.mapPatriotnodeBlocks[nHeight]?).getD []) with
  | some payee => simp
  | none => simp [getCurrentPatriotNode, highest]

variable {D : Type} [Digest D]

/-- **Payment rule and list.** Where legacy nodes are obsolete, the accepted blocks pay the node that the
deterministic list of the previous block selects, and whose payment the next list records, exactly where the votes or
the scores designate that node's script. -/
theorem payee_is_listed_iff (c : Crypto) (env : Env) {l : CDeterministicPNList D} (hl : RepInv l)
    (hsynced : S.isSynced = true) (hspork : S.isSporkActive .SPORK_8_PATRIOTNODE_PAYMENT_ENFORCEMENT = true)
    (hobsolete : S.legacyPNObsolete (pindexPrev.nHeight + 1) = true) (hbudget : ¬S.IsSuperblock pindexPrev) :
    ((∀ block, S.Accepts p pindexPrev nHeight block → ∀ dmn, l.getPNPayee env.order = some dmn → ∃ tx ∈ block.vtx,
      ⟨getPatriotnodePayment (pindexPrev.nHeight + 1), dmn.pdmnState.scriptPayout⟩ ∈ tx.vout) ↔
    ∀ dmn, l.getPNPayee env.order = some dmn → S.Designated p (pindexPrev.nHeight + 1) dmn.pdmnState.scriptPayout) ∧
    ∀ block dmn l', l.getPNPayee env.order = some dmn →
      (⟨p, c, env, block, pindexPrev, l⟩ : BlockInput D).build = .ok l' →
      ∀ dmn', l'.mnMap[dmn.proTxHash]? = some dmn' → dmn'.pdmnState.nLastPaidHeight = pindexPrev.nHeight + 1 := by
  have haccepts : ∀ {block : CBlock} {txNew : CTransaction},
      block.vtx[if payCoinstake p (pindexPrev.nHeight + 1) then 1 else 0]? = some txNew →
      (S.Accepts p pindexPrev nHeight block ↔ ∀ payee, S.legacyPayee p (pindexPrev.nHeight + 1) = some payee →
        ⟨getPatriotnodePayment (pindexPrev.nHeight + 1), payee⟩ ∈ txNew.vout) := by
    intro block txNew htx
    rw [S.accepts_iff p pindexPrev nHeight hsynced htx, AcceptsNode, PaysNode, if_pos hobsolete]
    simp [hbudget, hspork]
  simp only [← legacyPayee_eq_some]
  refine ⟨⟨fun hall dmn hpayee => ?_, fun hlegacy block hblock dmn hpayee => ?_⟩, fun block dmn l' hpayee hbuild => ?_⟩
  · -- the block that pays the legacy payee and nobody else
    obtain ⟨txNew, htx, hvout⟩ := blockPaying_tx p pindexPrev
      ((S.legacyPayee p (pindexPrev.nHeight + 1)).toList.map (CTxOut.mk (getPatriotnodePayment (pindexPrev.nHeight + 1))))
    obtain ⟨tx, htx', hout⟩ := hall _ ((haccepts htx).mpr fun payee hlegacy => by
      rw [hvout, hlegacy]
      exact List.mem_singleton_self _) dmn hpayee
    simp only [blockPaying, List.mem_cons, List.not_mem_nil, or_false] at htx'
    rcases htx' with rfl | rfl <;> simpa using hout
  · obtain ⟨txNew, htx⟩ := hblock.exists_tx hsynced
    exact ⟨txNew, List.mem_of_getElem? htx, (haccepts htx).mp hblock _ (hlegacy dmn hpayee)⟩
  · exact build_paid hl hpayee hbuild

end PayeeState

namespace Sample

/-- `nodeCrypto` with scores that differ: the score of a node is the hash of its collateral. -/
def payeeCrypto : NodeCrypto :=
  { nodeCrypto with hashWriter := fun bs => BitVec.ofNat 256 (Codec.ofLE (bs.drop 32)) }

/-- An enabled legacy node at the clock of `payeeState`, with a collateral key. -/
def payeeNode (key : Bytes) : CPatriotnode where
  vin := { prevout := ⟨0xa1, 0⟩ }
  addr := .v1 ⟨1, 15110⟩
  pubKeyCollateralAddress := key
  pubKeyPatriotnode := [3]
  sigTime := 1700000000
  protocolVersion := 70000
  lastPing := { vin := { prevout := ⟨0xa1, 0⟩ }, blockHash := 0xb0, sigTime := 1700007000 }

/-- A synced node on which legacy nodes are obsolete and node payments are enforced, with at most one legacy node and
no votes or budgets. -/
def payeeState (key : Option Bytes) : PayeeState where
  isSynced := true
  isSporkActive id := id == .SPORK_8_PATRIOTNODE_PAYMENT_ENFORCEMENT
  legacyPNsMaxHeight := 0
  budgetman := {}
  mapPayment_History := ∅
  onChain _ := false
  mapPatriotnodeBlocks := ∅
  nodeCrypto := payeeCrypto
  mnodeman := key.elim {} fun key => ({} : CPatriotnodeMan).setNode ⟨0xa1, 0⟩ (payeeNode key)
  manEnv := { adjustedTime := 1700007100 }
  hashGenesisBlock := 0

/-- The tip is the first block of a run. -/
def listedState {n : Nat} (r : Run Bytes params crypto n) : PayeeState :=
  { payeeState none with tipHeight := 1, mnList := (r.list 1).forEachPN .byHash true }

end Sample

open Sample

set_option maxRecDepth 10000 in
/-- The only node of the list has the highest score: the block has to pay it. -/
theorem payee_is_listed_sample : ∃ dmn block, (oneNodeRun.list 1).getPNPayee .byHash = some dmn ∧
    (listedState oneNodeRun).Accepts params (oneNodeRun.pindex 1) 1 block ∧
    ∃ tx ∈ block.vtx, ⟨getPatriotnodePayment 2, dmn.pdmnState.scriptPayout⟩ ∈ tx.vout := by
  have hpayee : ((oneNodeRun.list 1).getPNPayee .byHash).map (fun dmn => dmn.pdmnState.scriptPayout) =
      some (p2pkh 0x54) := by decide +kernel
  obtain ⟨dmn, hdmn, hscript⟩ := Option.map_eq_some_iff.mp hpayee
  have haccepted : (listedState oneNodeRun).Accepts params (oneNodeRun.pindex 1) 1
      (PayeeState.blockPaying [⟨getPatriotnodePayment 2, p2pkh 0x54⟩]) := ⟨∅, by decide +kernel⟩
  refine ⟨dmn, _, hdmn, haccepted, (PayeeState.payee_is_listed_iff (listedState oneNodeRun)
    params (oneNodeRun.pindex 1) 1 crypto env (oneNodeRun.rep (h := 1) (by decide))
    rfl rfl (by decide) (fun h => ?_)).1.mpr (fun dmn' hdmn' => ?_) _ haccepted dmn hdmn⟩
  · cases h.1
  · obtain rfl : dmn = dmn' := Option.some.inj (hdmn.symm.trans hdmn')
    rw [hscript, ← PayeeState.legacyPayee_eq_some]
    decide +kernel

/-- Of two registered nodes the list selects one and the scores the other: a block that pays the second is
accepted. -/
theorem payee_is_listed_unpaid : (listedState twoNodesRun).Accepts params (twoNodesRun.pindex 1) 1
      (PayeeState.blockPaying [⟨getPatriotnodePayment 2, p2pkh 0x64⟩]) ∧
    ∃ dmn, (twoNodesRun.list 1).getPNPayee .byHash = some dmn ∧
      ¬∃ tx ∈ (PayeeState.blockPaying [⟨getPatriotnodePayment 2, p2pkh 0x64⟩]).vtx,
        ⟨getPatriotnodePayment 2, dmn.pdmnState.scriptPayout⟩ ∈ tx.vout := by
  refine ⟨⟨∅, by decide +kernel⟩, (Option.any_eq_true
    (fun dmn => !decide (∃ tx ∈ (PayeeState.blockPaying [⟨getPatriotnodePayment 2, p2pkh 0x64⟩]).vtx,
      ⟨getPatriotnodePayment 2, dmn.pdmnState.scriptPayout⟩ ∈ tx.vout)) _).mp (by decide +kernel) |>.imp
    fun dmn h => ⟨h.1, ?_⟩⟩
  simpa using h.2

end TrumpCoin
