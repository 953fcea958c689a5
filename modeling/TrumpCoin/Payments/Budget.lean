import TrumpCoin.Payments.Reward

/-!
# Finalized budgets

`CFinalizedBudget` and the parts of `CBudgetManager` that schedule and check the payment of a proposal
(`budget/finalizedbudget.cpp`, `budget/budgetmanager.cpp`). A payment that was checked is remembered in the global
`mapPayment_History`, which the check itself updates; functions that do so return the new history.

* `CFinalizedBudget.isTransactionValid_eq`: the verdict on a block at a scheduled height;
* `BudgetManager.getPayeeAndAmount_isSome`, `BudgetManager.isTransactionValid_eq`: the payment of a budget block.
-/

namespace TrumpCoin

open Lib

inductive TrxValidationStatus where
  | InValid | Valid | DoublePayment | VoteThreshold
deriving DecidableEq

structure CTxBudgetPayment where
  nProposalHash : uint256
  payee : CScript
  nAmount : Int
deriving DecidableEq

def CTxBudgetPayment.txOut (b : CTxBudgetPayment) : CTxOut := ⟨b.nAmount, b.payee⟩

/-- The fields that decide about payments; of the votes only their number is read. -/
structure CFinalizedBudget where
  nBlockStart : Int
  vecBudgetPayments : List CTxBudgetPayment
  voteCount : Nat
deriving DecidableEq

/-- `mapPayment_History`: the block that paid a proposal, and its height. -/
abbrev PaymentHistory := FinMap uint256 (uint256 × Int)

namespace CFinalizedBudget

variable (b : CFinalizedBudget)

def getBlockEnd : Int := b.nBlockStart + (b.vecBudgetPayments.length - 1)

def inRange (nBlockHeight : Int) : Prop := b.nBlockStart ≤ nBlockHeight ∧ nBlockHeight ≤ b.getBlockEnd

instance (nBlockHeight : Int) : Decidable (b.inRange nBlockHeight) :=
  inferInstanceAs (Decidable (_ ∧ _))

/-- `GetBudgetPaymentByBlock`, and the lookup of `GetPayeeAndAmount`. -/
def getBudgetPaymentByBlock (nBlockHeight : Int) : Option CTxBudgetPayment :=
  if nBlockHeight - b.nBlockStart < 0 then none
  else b.vecBudgetPayments[(nBlockHeight - b.nBlockStart).toNat]?

/-- The entries of the history that belong to this budget's cycle. -/
def thisCycle (history : PaymentHistory) : PaymentHistory :=
  history.filter fun _ paid => decide (b.inRange paid.2)

variable (onChain : uint256 → Bool)

/-- `IsPaidAlready`. `onChain` tells whether a block is part of the active chain. -/
def isPaidAlready (history : PaymentHistory) (nProposalHash nBlockHash : uint256)
    (nBlockHeight : Int) : Bool × PaymentHistory :=
  let history := b.thisCycle history
  match history[nProposalHash]? with
  | none => (false, history.insert nProposalHash (nBlockHash, nBlockHeight))
  | some (nPaidBlockHash, _) =>
    -- checking the same block again is not a second payment
    (if nBlockHash ≠ nPaidBlockHash then onChain nPaidBlockHash else false, history)

/-- `CFinalizedBudget::IsTransactionValid`, of the outputs of the paying transaction. -/
def isTransactionValid (history : PaymentHistory) (vout : List CTxOut)
    (nBlockHash : uint256) (nBlockHeight : Int) : TrxValidationStatus × PaymentHistory :=
  if b.getBlockEnd < nBlockHeight then (.InValid, history)
  else if nBlockHeight < b.nBlockStart then (.InValid, history)
  else match b.vecBudgetPayments[(nBlockHeight - b.nBlockStart).toNat]? with
    | none => (.InValid, history)
    | some payment =>
      let (paid, history) := b.isPaidAlready onChain history payment.nProposalHash nBlockHash nBlockHeight
      if paid then (.DoublePayment, history)
      else if payment.txOut ∈ vout.reverse then (.Valid, history)
      else (.InValid, history)

variable {nBlockHeight : Int}

theorem getBudgetPaymentByBlock_isSome (h : b.inRange nBlockHeight) :
    ∃ payment, b.getBudgetPaymentByBlock nBlockHeight = some payment := by
  unfold inRange getBlockEnd at h
  rw [getBudgetPaymentByBlock, if_neg (by omega)]
  exact ⟨_, List.getElem?_eq_getElem (by omega)⟩

theorem getBudgetPaymentByBlock_of_inRange (h : b.inRange nBlockHeight) :
    b.getBudgetPaymentByBlock nBlockHeight = b.vecBudgetPayments[(nBlockHeight - b.nBlockStart).toNat]? := by
  unfold inRange at h
  rw [getBudgetPaymentByBlock, if_neg (by omega)]

/-- A proposal counts as paid when its payment of this cycle is in another block of the active chain. -/
theorem isPaidAlready_iff {onChain : uint256 → Bool} {history : PaymentHistory} {nProposalHash nBlockHash : uint256} :
    (b.isPaidAlready onChain history nProposalHash nBlockHash nBlockHeight).1 = true ↔
    ∃ paid : uint256 × Int, (b.thisCycle history)[nProposalHash]? = some paid ∧ nBlockHash ≠ paid.1 ∧
      onChain paid.1 = true := by
  unfold isPaidAlready
  dsimp only
  split
  · rename_i hnone
    simp [hnone]
  · rename_i nPaidBlockHash k hsome
    by_cases h : nBlockHash = nPaidBlockHash
    · simp [hsome, h]
    · simp [hsome, h]

theorem isTransactionValid_eq (history : PaymentHistory) (vout : List CTxOut)
    (nBlockHash : uint256) {payment : CTxBudgetPayment} (h : b.inRange nBlockHeight)
    (hpay : b.getBudgetPaymentByBlock nBlockHeight = some payment) :
    b.isTransactionValid onChain history vout nBlockHash nBlockHeight =
      (if (b.isPaidAlready onChain history payment.nProposalHash nBlockHash nBlockHeight).1 then .DoublePayment
      else if payment.txOut ∈ vout then .Valid else .InValid,
      (b.isPaidAlready onChain history payment.nProposalHash nBlockHash nBlockHeight).2) := by
  rw [getBudgetPaymentByBlock_of_inRange b h] at hpay
  unfold inRange at h
  rw [isTransactionValid, if_neg (by omega), if_neg (by omega), hpay]
  simp only [List.mem_reverse]
  split
  · rfl
  · split <;> rfl

end CFinalizedBudget

/-- The finalized budgets and the number of enabled nodes. -/
structure BudgetManager where
  mapFinalizedBudgets : FinMap uint256 CFinalizedBudget := ∅
  /-- `mnodeman.CountEnabled(ActiveProtocol())` -/
  countEnabled : Nat := 0

namespace BudgetManager

variable (m : BudgetManager)

variable (chainHeight : Int)

/-- The body of the loop of `GetBudgetWithHighestVoteCount`. -/
def keepHighest (best : Option CFinalizedBudget) (b : CFinalizedBudget) : Option CFinalizedBudget :=
  if (best.map CFinalizedBudget.voteCount).getD 0 < b.voteCount ∧ b.inRange chainHeight then some b else best

def getBudgetWithHighestVoteCount : Option CFinalizedBudget :=
  m.mapFinalizedBudgets.vals.foldl (keepHighest chainHeight) none

def getHighestVoteCount : Int :=
  match m.getBudgetWithHighestVoteCount chainHeight with
  | none => -1
  | some b => b.voteCount

/-- The threshold `IsBudgetPaymentBlock` hands back: the highest vote count less a tenth of the enabled nodes. -/
def countThreshold (nBlockHeight : Int) : Int :=
  let nHighestCount := m.getHighestVoteCount nBlockHeight
  let nCountThreshold := nHighestCount - (m.countEnabled / 10 : Nat)
  if nCountThreshold = nHighestCount then nCountThreshold - 1 else nCountThreshold

/-- `IsBudgetPaymentBlock`: the highest vote count is above five percent of the enabled nodes. -/
def isBudgetPaymentBlock (nBlockHeight : Int) : Bool :=
  decide (((m.countEnabled / 20 : Nat) : Int) < m.getHighestVoteCount nBlockHeight)

def getPayeeAndAmount : Option CTxBudgetPayment :=
  if m.isBudgetPaymentBlock chainHeight then
    match m.getBudgetWithHighestVoteCount chainHeight with
    | none => none
    | some b =>
      match b.getBudgetPaymentByBlock chainHeight with
      | none => none
      | some payment => if m.countThreshold chainHeight < b.voteCount then some payment else none
  else none

def getExpectedPayeeAmount : Option Int :=
  (m.getPayeeAndAmount chainHeight).map CTxBudgetPayment.nAmount

def isTransactionValid (onChain : uint256 → Bool) (history : PaymentHistory) (vout : List CTxOut)
    (nBlockHash : uint256) (nBlockHeight : Int) : TrxValidationStatus × PaymentHistory :=
  if m.isBudgetPaymentBlock nBlockHeight = false then (.InValid, history)
  else match m.getBudgetWithHighestVoteCount nBlockHeight with
    | none => (.VoteThreshold, history)
    | some b =>
      if m.countThreshold nBlockHeight < b.voteCount then
        let (status, history) := b.isTransactionValid onChain history vout nBlockHash nBlockHeight
        -- every other verdict, a double payment included, makes the block invalid
        if status = .Valid then (.Valid, history) else (.InValid, history)
      else (.VoteThreshold, history)

/-! ## At a budget payment block -/

variable {chainHeight : Int} {b : CFinalizedBudget}

theorem inRange_of_highest (h : m.getBudgetWithHighestVoteCount chainHeight = some b) : b.inRange chainHeight := by
  refine List.foldlRecOn (motive := fun best => ∀ b, best = some b → b.inRange chainHeight) _ _
    (fun _ hnone => by cases hnone) (fun best h _ _ d hd => ?_) b h
  unfold keepHighest at hd
  split_ifs at hd with hin
  · cases hd
    exact hin.2
  · exact h d hd

theorem countThreshold_lt (h : m.getBudgetWithHighestVoteCount chainHeight = some b) :
    m.countThreshold chainHeight < b.voteCount := by
  simp only [countThreshold, getHighestVoteCount, h]
  split <;> omega

theorem highest_of_isBudgetPaymentBlock (h : m.isBudgetPaymentBlock chainHeight = true) :
    ∃ b, m.getBudgetWithHighestVoteCount chainHeight = some b := by
  cases hb : m.getBudgetWithHighestVoteCount chainHeight with
  | some b => exact ⟨b, rfl⟩
  | none =>
    simp only [isBudgetPaymentBlock, getHighestVoteCount, hb, decide_eq_true_eq] at h
    omega

theorem getPayeeAndAmount_isSome (h : m.isBudgetPaymentBlock chainHeight = true) :
    ∃ b payment, m.getBudgetWithHighestVoteCount chainHeight = some b ∧
      b.getBudgetPaymentByBlock chainHeight = some payment ∧ m.getPayeeAndAmount chainHeight = some payment := by
  obtain ⟨b, hb⟩ := m.highest_of_isBudgetPaymentBlock h
  obtain ⟨payment, hpay⟩ := b.getBudgetPaymentByBlock_isSome (m.inRange_of_highest hb)
  refine ⟨b, payment, hb, hpay, ?_⟩
  rw [getPayeeAndAmount, if_pos h, hb]
  dsimp only
  rw [hpay]
  dsimp only
  rw [if_pos (m.countThreshold_lt hb)]

/-- At a budget payment block a transaction is valid if it makes the payment and the proposal is not paid yet. -/
theorem isTransactionValid_eq (onChain : uint256 → Bool) (history : PaymentHistory) (vout : List CTxOut)
    (nBlockHash : uint256) {nBlockHeight : Int} {payment : CTxBudgetPayment}
    (h : m.isBudgetPaymentBlock nBlockHeight = true) (hb : m.getBudgetWithHighestVoteCount nBlockHeight = some b)
    (hpay : b.getBudgetPaymentByBlock nBlockHeight = some payment) :
    (m.isTransactionValid onChain history vout nBlockHash nBlockHeight).1 =
      if (b.isPaidAlready onChain history payment.nProposalHash nBlockHash nBlockHeight).1 = false ∧
        payment.txOut ∈ vout then .Valid else .InValid := by
  have hstatus := b.isTransactionValid_eq onChain history vout nBlockHash (m.inRange_of_highest hb) hpay
  rw [isTransactionValid, h, if_neg (by decide), hb]
  dsimp only
  rw [if_pos (m.countThreshold_lt hb), hstatus]
  cases (b.isPaidAlready onChain history payment.nProposalHash nBlockHash nBlockHeight).1 with
  | true => simp
  | false =>
    by_cases hmem : payment.txOut ∈ vout
    · simp [hmem]
    · simp [hmem]

end BudgetManager

end TrumpCoin
