import TrumpCoin.Payments.Budget

/-!
# Runs of the payment history

Candidate blocks of any branch are checked against the finalized budgets of one cycle, and connected or discarded.
A proposal is remembered with the first block that was checked for it, before anything says whether that block pays
it or will be connected, and the entry is not replaced later.

* `PaymentState.Settled`: the check finds a remembered block that is the checked one or part of the chain;
* `one_payment_per_proposal`: in runs of such checks, no two blocks of the chain were found valid for one proposal.
-/

namespace TrumpCoin

open Lib

/-- The active chain, newest block first, the history, and the blocks found valid with the proposal they pay. -/
structure PaymentState where
  chain : List uint256
  history : PaymentHistory := ∅
  found : List (uint256 × uint256) := []

/-- A call of `CFinalizedBudget::IsTransactionValid`. -/
structure PaymentCheck where
  budget : CFinalizedBudget
  vout : List CTxOut
  nBlockHash : uint256
  nBlockHeight : Int

namespace PaymentCheck

/-- The proposal scheduled for the height of the block. -/
def proposal (k : PaymentCheck) : Option uint256 :=
  (k.budget.getBudgetPaymentByBlock k.nBlockHeight).map CTxBudgetPayment.nProposalHash

end PaymentCheck

namespace PaymentState

variable (s : PaymentState) (k : PaymentCheck)

/-- `mapBlockIndex` has the block and `chainActive` contains it. -/
def onChain (hash : uint256) : Bool := decide (hash ∈ s.chain)

def verdict : TrxValidationStatus :=
  (k.budget.isTransactionValid s.onChain s.history k.vout k.nBlockHash k.nBlockHeight).1

def afterCheck : PaymentState :=
  { s with
    history := (k.budget.isTransactionValid s.onChain s.history k.vout k.nBlockHash k.nBlockHeight).2
    found := if s.verdict k = .Valid then k.proposal.toList.map (k.nBlockHash, ·) ++ s.found else s.found }

/-- What is remembered of the cycle is in the range of the budget, and for the proposal of the block it names the
block itself or one of the chain. -/
structure Settled : Prop where
  inRange : ∀ (hash : uint256) paid, s.history[hash]? = some paid → k.budget.nBlockStart ≤ paid.2 →
    k.budget.inRange paid.2
  connected : ∀ hash paid, k.proposal = some hash → s.history[hash]? = some paid → k.budget.nBlockStart ≤ paid.2 →
    paid.1 = k.nBlockHash ∨ paid.1 ∈ s.chain

end PaymentState

/-- Steps with budgets that start at `nBlockStart`; a check is made where `P` allows it. -/
inductive PaymentStep (nBlockStart : Int) (P : PaymentState → PaymentCheck → Prop) : PaymentState → PaymentState → Prop
  | check {s : PaymentState} (k : PaymentCheck) (hcycle : k.budget.nBlockStart = nBlockStart) (hk : P s k) :
      PaymentStep nBlockStart P s (s.afterCheck k)
  | connect {s : PaymentState} (hash : uint256) : PaymentStep nBlockStart P s { s with chain := hash :: s.chain }
  | disconnect {s : PaymentState} : PaymentStep nBlockStart P s { s with chain := s.chain.tail }

/-! ## One check -/

namespace CFinalizedBudget

variable (b : CFinalizedBudget) {history : PaymentHistory} {hash : uint256} {paid : uint256 × Int}

theorem get_thisCycle : (b.thisCycle history)[hash]? = some paid ↔ history[hash]? = some paid ∧ b.inRange paid.2 := by
  rw [thisCycle, Std.ExtTreeMap.getElem?_filter', Option.filter_eq_some_iff]
  simp

variable {nBlockHeight : Int}

theorem isPaidAlready_keeps {onChain : uint256 → Bool} {nProposalHash nBlockHash : uint256}
    (h : (b.thisCycle history)[hash]? = some paid) :
    (b.isPaidAlready onChain history nProposalHash nBlockHash nBlockHeight).2[hash]? = some paid := by
  unfold isPaidAlready
  dsimp only
  split
  · rename_i hnone
    have hne : nProposalHash ≠ hash := by
      rintro rfl
      rw [h] at hnone
      cases hnone
    rw [FinMap.get_insert, if_neg hne]
    exact h
  · exact h

theorem isTransactionValid_of_not_inRange (onChain : uint256 → Bool) (history : PaymentHistory) (vout : List CTxOut)
    (nBlockHash : uint256) (h : ¬b.inRange nBlockHeight) :
    b.isTransactionValid onChain history vout nBlockHash nBlockHeight = (.InValid, history) := by
  unfold inRange at h
  unfold isTransactionValid
  split
  · rfl
  · split
    · rfl
    · omega

end CFinalizedBudget

namespace PaymentState

variable {s s' : PaymentState} {k : PaymentCheck} {nBlockStart : Int}

/-- **Every block found valid is the one remembered for its proposal.** -/
def Remembered (nBlockStart : Int) (s : PaymentState) : Prop :=
  ∀ hash proposal, (hash, proposal) ∈ s.found → ∃ nHeight, s.history[proposal]? = some (hash, nHeight) ∧
    nBlockStart ≤ nHeight

/-- A settled check forgets nothing of the cycle. -/
theorem Settled.keeps (h : s.Settled k) {hash : uint256} {paid : uint256 × Int} (hget : s.history[hash]? = some paid)
    (hstart : k.budget.nBlockStart ≤ paid.2) : (s.afterCheck k).history[hash]? = some paid := by
  have hcycle := k.budget.get_thisCycle.mpr ⟨hget, h.inRange hash paid hget hstart⟩
  by_cases hin : k.budget.inRange k.nBlockHeight
  · obtain ⟨payment, hpay⟩ := k.budget.getBudgetPaymentByBlock_isSome hin
    rw [afterCheck, k.budget.isTransactionValid_eq _ _ _ _ hin hpay]
    exact k.budget.isPaidAlready_keeps hcycle
  · rw [afterCheck, k.budget.isTransactionValid_of_not_inRange _ _ _ _ hin]
    exact hget

theorem Settled.remembers (h : s.Settled k) (hvalid : s.verdict k = .Valid) {proposal : uint256}
    (hproposal : k.proposal = some proposal) : ∃ nHeight,
    (s.afterCheck k).history[proposal]? = some (k.nBlockHash, nHeight) ∧ k.budget.nBlockStart ≤ nHeight := by
  by_cases hin : k.budget.inRange k.nBlockHeight
  · obtain ⟨payment, hpay⟩ := k.budget.getBudgetPaymentByBlock_isSome hin
    obtain rfl : payment.nProposalHash = proposal := by
      rw [PaymentCheck.proposal, hpay] at hproposal
      exact Option.some.inj hproposal
    cases hentry : (k.budget.thisCycle s.history)[payment.nProposalHash]? with
    | none =>
      refine ⟨k.nBlockHeight, ?_, hin.1⟩
      rw [afterCheck, k.budget.isTransactionValid_eq _ _ _ _ hin hpay]
      simp [CFinalizedBudget.isPaidAlready, hentry]
    | some paid =>
      obtain ⟨hget, hrange⟩ := k.budget.get_thisCycle.mp hentry
      -- a valid block is not one that another block of the chain has paid for
      have hsame : paid.1 = k.nBlockHash := by
        by_contra hne
        have hmem := (h.connected _ paid hproposal hget hrange.1).resolve_left hne
        have honChain : s.onChain paid.1 = true := decide_eq_true hmem
        have hpaid : (k.budget.isPaidAlready s.onChain s.history payment.nProposalHash k.nBlockHash
            k.nBlockHeight).1 = true :=
          k.budget.isPaidAlready_iff.mpr ⟨paid, hentry, fun h => hne h.symm, honChain⟩
        rw [verdict, k.budget.isTransactionValid_eq _ _ _ _ hin hpay] at hvalid
        dsimp only at hvalid
        rw [if_pos hpaid] at hvalid
        cases hvalid
      exact ⟨paid.2, by rw [← hsame]; exact h.keeps hget hrange.1, hrange.1⟩
  · rw [verdict, k.budget.isTransactionValid_of_not_inRange _ _ _ _ hin] at hvalid
    cases hvalid

theorem Remembered.step (h : s.Remembered nBlockStart) (hstep : PaymentStep nBlockStart Settled s s') :
    s'.Remembered nBlockStart := by
  cases hstep with
  | check k hcycle hk =>
    intro hash proposal hmem
    have hold : (hash, proposal) ∈ s.found → ∃ nHeight, (s.afterCheck k).history[proposal]? = some (hash, nHeight) ∧
        nBlockStart ≤ nHeight := by
      intro hmem
      obtain ⟨nHeight, hget, hstart⟩ := h hash proposal hmem
      exact ⟨nHeight, hk.keeps hget (hcycle ▸ hstart), hstart⟩
    unfold afterCheck at hmem
    split_ifs at hmem with hvalid
    · rcases List.mem_append.mp hmem with hnew | hmem
      · obtain ⟨proposal', hproposal, heq⟩ := List.mem_map.mp hnew
        cases heq
        rw [← hcycle]
        exact hk.remembers hvalid (Option.mem_toList.mp hproposal)
      · exact hold hmem
    · exact hold hmem
  | connect hash => exact h
  | disconnect => exact h

theorem Remembered.run {s₀ : PaymentState} (h₀ : s₀.found = [])
    (hrun : Relation.ReflTransGen (PaymentStep nBlockStart Settled) s₀ s) : s.Remembered nBlockStart := by
  induction hrun with
  | refl =>
    intro hash proposal hmem
    rw [h₀] at hmem
    cases hmem
  | tail _ hstep ih => exact ih.step hstep

theorem Remembered.verdict_ne (h : s.Remembered nBlockStart) (hcycle : k.budget.nBlockStart = nBlockStart)
    (hk : s.Settled k) {hash proposal : uint256} (hfound : (hash, proposal) ∈ s.found)
    (hproposal : k.proposal = some proposal) (hne : k.nBlockHash ≠ hash) : s.verdict k ≠ .Valid := by
  intro hvalid
  obtain ⟨nHeight, hget, hstart⟩ := h hash proposal hfound
  obtain ⟨nHeight', hget', -⟩ := hk.remembers hvalid hproposal
  rw [hk.keeps hget (hcycle ▸ hstart)] at hget'
  cases hget'
  exact hne rfl

end PaymentState

/-- **One payment per proposal.** In every run of settled checks with the budgets of one cycle, at most one block of the
active chain was found valid for a proposal, and no other block is found valid for it while that one is on the chain. -/
theorem one_payment_per_proposal {nBlockStart : Int} {s₀ s : PaymentState} (h₀ : s₀.found = [])
    (hrun : Relation.ReflTransGen (PaymentStep nBlockStart PaymentState.Settled) s₀ s) :
    (∀ hash hash' proposal, (hash, proposal) ∈ s.found → (hash', proposal) ∈ s.found → hash ∈ s.chain →
      hash' ∈ s.chain → hash = hash') ∧
    ∀ (k : PaymentCheck) hash proposal, k.budget.nBlockStart = nBlockStart → s.Settled k → (hash, proposal) ∈ s.found →
      hash ∈ s.chain → k.proposal = some proposal → k.nBlockHash ≠ hash → s.verdict k ≠ .Valid := by
  have h := PaymentState.Remembered.run h₀ hrun
  refine ⟨fun hash hash' proposal hfound hfound' _ _ => ?_, fun k hash proposal hcycle hk hfound _ hproposal hne =>
    h.verdict_ne hcycle hk hfound hproposal hne⟩
  obtain ⟨_, hget, -⟩ := h hash proposal hfound
  obtain ⟨_, hget', -⟩ := h hash' proposal hfound'
  rw [hget] at hget'
  cases hget'
  rfl

namespace Sample

/-- Two budgets of one cycle: the first pays proposal 9 in its first block, the second in its second block. -/
def shortBudget : CFinalizedBudget := ⟨144, [⟨9, [0x51], 10⟩], 1⟩
def longBudget : CFinalizedBudget := ⟨144, [⟨8, [0x52], 20⟩, ⟨9, [0x51], 10⟩], 2⟩

/-- A block of height 144 that pays proposal 9. -/
def firstCheck (hash : uint256) : PaymentCheck := ⟨shortBudget, [⟨10, [0x51]⟩], hash, 144⟩

/-- A block of height 145 that pays it again. -/
def secondCheck (hash : uint256) : PaymentCheck := ⟨longBudget, [⟨10, [0x51]⟩], hash, 145⟩

def paidOnce : PaymentState :=
  let s : PaymentState := ({ chain := [] } : PaymentState).afterCheck (firstCheck 0xb1)
  { s with chain := 0xb1 :: s.chain }

end Sample

open Sample

theorem one_payment_per_proposal_sample :
    Relation.ReflTransGen (PaymentStep 144 PaymentState.Settled) { chain := [] } paidOnce ∧
    ((0xb1, 9) : uint256 × uint256) ∈ paidOnce.found ∧ paidOnce.verdict (secondCheck 0xb2) ≠ .Valid := by
  have hempty : ({ chain := [] } : PaymentState).Settled (firstCheck 0xb1) := by
    constructor
    · exact FinMap.forall_empty
    · intro _ _ _ hget
      rw [FinMap.get_empty] at hget
      cases hget
  have hrun : Relation.ReflTransGen (PaymentStep 144 PaymentState.Settled) { chain := [] } paidOnce :=
    (Relation.ReflTransGen.single (.check (firstCheck 0xb1) rfl hempty)).tail (.connect 0xb1)
  have hentries : ∀ e ∈ paidOnce.history.toList,
      longBudget.inRange e.2.2 ∧ e.2.1 ∈ paidOnce.chain := by decide +kernel
  have hsettled : paidOnce.Settled (secondCheck 0xb2) :=
    ⟨fun _ _ hget _ => (hentries _ (FinMap.mem_toList.mpr hget)).1,
      fun _ _ _ hget _ => .inr (hentries _ (FinMap.mem_toList.mpr hget)).2⟩
  have hfound : ((0xb1, 9) : uint256 × uint256) ∈ paidOnce.found := by decide +kernel
  exact ⟨hrun, hfound, (one_payment_per_proposal rfl hrun).2 (secondCheck 0xb2) 0xb1 9 rfl hsettled hfound
    (by decide +kernel) (by decide) (by decide)⟩

/-- A block that is checked and discarded stays remembered; two blocks of the chain then pay the proposal, both found
valid. -/
theorem two_payments_after_discarded_block : ∃ s,
    Relation.ReflTransGen (PaymentStep 144 fun _ _ => True) { chain := [] } s ∧ s.chain = [0xb3, 0xb2] ∧
    ((0xb2, 9) : uint256 × uint256) ∈ s.found ∧ ((0xb3, 9) : uint256 × uint256) ∈ s.found := by
  have hrun := ((((Relation.ReflTransGen.single (PaymentStep.check (s := { chain := [] }) (P := fun _ _ => True)
    (firstCheck 0xb1) rfl trivial)).tail (.check (firstCheck 0xb2) rfl trivial)).tail
      (.connect 0xb2)).tail (.check (secondCheck 0xb3) rfl trivial)).tail (.connect 0xb3)
  exact ⟨_, hrun, rfl, by decide +kernel, by decide +kernel⟩

end TrumpCoin
