import TrumpCoin.Lib.TagIndex
import TrumpCoin.Payments.Budget
import TrumpCoin.Payments.SignedMessage

/-!
# Fee transactions of proposals and finalized budgets

`CBudgetManager` keeps proposals and finalized budgets under their hash and finds them by the transaction that paid
their fee (`budget/budgetmanager.cpp`), so that they go when that transaction is disconnected. The hash of an item does
not cover its fee transaction, and one transaction can name several items.

* `BudgetStore.Sound`: both indexes are exact and `RemoveByFeeTxId` leaves no item with the transaction;
* `BudgetStore.sound_iff`: the indexes are exact and no transaction paid for items of both kinds;
* `fee_indexes_sound_iff`: the runs in which it always holds.

Whether an item is well formed, not expired, not voted down and matches the winning proposals is part of the
environment. Votes are left out.
-/

namespace TrumpCoin

open Lib

def PROPOSAL_FEE_TX : Int := 50 * COIN
def BUDGET_FEE_TX : Int := 5 * COIN

/-! ## Items -/

structure CBudgetProposal where
  strProposalName : Bytes
  strURL : Bytes := []
  nBlockStart : Int
  nBlockEnd : Int
  address : CScript := []
  nAmount : Int
  nFeeTXHash : uint256
deriving DecidableEq

def CBudgetProposal.getHash (k : MessageCrypto) (b : CBudgetProposal) : uint256 :=
  k.hashWriter (byteVector.write b.strProposalName ++ byteVector.write b.strURL ++ int32LE.write b.nBlockStart ++
    int32LE.write b.nBlockEnd ++ (uintLE 8).write (BitVec.ofInt 64 b.nAmount) ++ byteVector.write b.address)

structure PaidBudget extends CFinalizedBudget where
  strBudgetName : Bytes
  nFeeTXHash : uint256
deriving DecidableEq

def CTxBudgetPayment.serialize (b : CTxBudgetPayment) : Bytes :=
  byteVector.write b.payee ++ (uintLE 8).write (BitVec.ofInt 64 b.nAmount) ++ (blob 32).write b.nProposalHash

def PaidBudget.getHash (k : MessageCrypto) (b : PaidBudget) : uint256 :=
  k.hashWriter (byteVector.write b.strBudgetName ++ int32LE.write b.nBlockStart ++
    writeCompactSize b.vecBudgetPayments.length ++ b.vecBudgetPayments.flatMap CTxBudgetPayment.serialize)

/-! ## The check of a fee transaction -/

/-- What adding an item reads besides the manager. -/
structure FeeEnv where
  bestHeight : Int
  nBudgetFeeConfirmations : Int := 6
  /-- `GetTransaction`: the transaction and the hash of its block, zero if it has none -/
  getTransaction : uint256 → Option (CTransaction × uint256)
  /-- the height of a block of the active chain -/
  heightOf : uint256 → Option Int
  /-- `IsWellFormed` of proposals and finalized budgets -/
  isWellFormed : CBudgetProposal ⊕ PaidBudget → Bool := fun _ => true
  /-- `UpdateValid` of proposals and finalized budgets -/
  updateValid : CBudgetProposal ⊕ PaidBudget → Bool := fun _ => true
  /-- `CheckProposals` against the winning proposals -/
  checkProposals : PaidBudget → Bool := fun _ => true

/-- Why a fee transaction is not accepted. -/
inductive CollateralError where
  | notFound | noOutputs | lockTime | invalidScript | noOpReturn | unconfirmed | notInActiveChain | confirmations
deriving DecidableEq

def opReturnScript (nExpectedHash : uint256) : CScript := OP_RETURN :: 0x20 :: (blob 32).write nExpectedHash

/-- The loop over the outputs: it ends with the first output that pays the fee for the item. -/
def findOpReturn (nExpectedHash : uint256) (nFee : Int) : List CTxOut → Except CollateralError Unit
  | [] => .error .noOpReturn
  | o :: vout =>
    if CScript.isPayToPublicKeyHash o.scriptPubKey = false ∧ CScript.isUnspendable o.scriptPubKey = false then
      .error .invalidScript
    else if o.scriptPubKey = opReturnScript nExpectedHash ∧ nFee ≤ o.nValue then .ok ()
    else findOpReturn nExpectedHash nFee vout

def checkCollateral (e : FeeEnv) (nTxCollateralHash nExpectedHash : uint256) (fBudgetFinalization : Bool) :
    Except CollateralError Unit :=
  match e.getTransaction nTxCollateralHash with
  | none => .error .notFound
  | some (txCollateral, nBlockHash) => do
    require .noOutputs (txCollateral.vout ≠ [])
    require .lockTime (txCollateral.nLockTime = 0)
    findOpReturn nExpectedHash (if fBudgetFinalization then BUDGET_FEE_TX else PROPOSAL_FEE_TX) txCollateral.vout
    require .unconfirmed (nBlockHash ≠ 0)
    -- the height stays zero if the block is not found
    let nProposalHeight := (e.heightOf nBlockHash).getD 0
    require .notInActiveChain (nProposalHeight ≠ 0)
    require .confirmations (e.nBudgetFeeConfirmations ≤ e.bestHeight - nProposalHeight + 1)

/-! ## The manager -/

/-- The proposals and finalized budgets with their indexes by fee transaction, and the fee transactions that were sent
for finalized budgets to come. -/
structure BudgetStore where
  proposals : TagIndexed uint256 uint256 CBudgetProposal := {}
  budgets : TagIndexed uint256 uint256 PaidBudget := {}
  mapUnconfirmedFeeTx : FinMap uint256 uint256 := ∅

namespace BudgetStore

variable (k : MessageCrypto) (e : FeeEnv) (s : BudgetStore)

/-- The checks of `AddProposal`. -/
def takesProposal (budgetProposal : CBudgetProposal) : Bool :=
  !(s.proposals.items[budgetProposal.getHash k]?).isSome && e.isWellFormed (.inl budgetProposal) &&
    (checkCollateral e budgetProposal.nFeeTXHash (budgetProposal.getHash k) false).isOk &&
    e.updateValid (.inl budgetProposal)

def addProposal (budgetProposal : CBudgetProposal) : BudgetStore :=
  if s.takesProposal k e budgetProposal then
    { s with proposals := s.proposals.add (CBudgetProposal.getHash k) CBudgetProposal.nFeeTXHash budgetProposal }
  else s

variable (finalizedBudget : PaidBudget)

/-- The checks of `AddFinalizedBudget`. -/
def takesBudget : Bool :=
  !(s.budgets.items[finalizedBudget.getHash k]?).isSome && e.isWellFormed (.inr finalizedBudget) &&
    (checkCollateral e finalizedBudget.nFeeTXHash (finalizedBudget.getHash k) true).isOk &&
    e.updateValid (.inr finalizedBudget) && e.checkProposals finalizedBudget

def forceAddFinalizedBudget : BudgetStore :=
  { s with
    budgets := s.budgets.add (PaidBudget.getHash k) PaidBudget.nFeeTXHash finalizedBudget
    mapUnconfirmedFeeTx := s.mapUnconfirmedFeeTx.erase (finalizedBudget.getHash k) }

def addFinalizedBudget : BudgetStore :=
  if s.takesBudget k e finalizedBudget then s.forceAddFinalizedBudget k finalizedBudget else s

/-- The finalized budget that `SubmitFinalBudget` adds: the fee transaction is the one that was sent for it. -/
def promoted (budget : PaidBudget) : Option PaidBudget :=
  if (s.budgets.items[budget.getHash k]?).isSome then none
  else (s.mapUnconfirmedFeeTx[budget.getHash k]?).map fun feeTx => { budget with nFeeTXHash := feeTx }

/-- The end of `SubmitFinalBudget`, for a budget that is due: a fee transaction is sent for it (if the wallet can), or
the budget is added with the one that was. -/
def submitFinalBudget (budget : PaidBudget) (wtx : Option uint256) : BudgetStore :=
  match s.promoted k budget with
  | some fb => s.addFinalizedBudget k e fb
  | none =>
    if (s.budgets.items[budget.getHash k]?).isSome then s
    else match wtx with
      | none => s
      | some collateraltxid =>
        { s with mapUnconfirmedFeeTx := s.mapUnconfirmedFeeTx.emplace (budget.getHash k) collateraltxid }

def checkAndRemove : BudgetStore :=
  { s with
    proposals := s.proposals.sweep (CBudgetProposal.getHash k) CBudgetProposal.nFeeTXHash (e.updateValid ∘ .inl)
    budgets := s.budgets.sweep (PaidBudget.getHash k) PaidBudget.nFeeTXHash (e.updateValid ∘ .inr) }

/-- `RemoveByFeeTxId`: finalized budgets are looked at only if no proposal was found. -/
def removeByFeeTxId (feeTxId : uint256) : BudgetStore :=
  if (s.proposals.index[feeTxId]?).isSome then { s with proposals := s.proposals.removeTag feeTxId }
  else { s with budgets := s.budgets.removeTag feeTxId }

end BudgetStore

/-- What happens to the proposals and finalized budgets. A restart writes them to disk with their indexes and reads
them back, or nothing if the file is not readable. -/
inductive BudgetEvent where
  | addProposal (e : FeeEnv) (budgetProposal : CBudgetProposal)
  | addFinalizedBudget (e : FeeEnv) (finalizedBudget : PaidBudget)
  | submitFinalBudget (e : FeeEnv) (budget : PaidBudget) (wtx : Option uint256)
  | checkAndRemove (e : FeeEnv)
  | removeByFeeTxId (feeTxId : uint256)
  | reload (e : FeeEnv) (readable : Bool)

namespace BudgetStore

variable (k : MessageCrypto)

def step (s : BudgetStore) : BudgetEvent → BudgetStore
  | .addProposal e budgetProposal => s.addProposal k e budgetProposal
  | .addFinalizedBudget e finalizedBudget => s.addFinalizedBudget k e finalizedBudget
  | .submitFinalBudget e budget wtx => s.submitFinalBudget k e budget wtx
  | .checkAndRemove e => s.checkAndRemove k e
  | .removeByFeeTxId feeTxId => s.removeByFeeTxId feeTxId
  | .reload e readable => if readable then s.checkAndRemove k e else {}

/-- The fee transaction of the item that an event adds. -/
def newFee (s : BudgetStore) : BudgetEvent → Option uint256
  | .addProposal e budgetProposal => if s.takesProposal k e budgetProposal then some budgetProposal.nFeeTXHash else none
  | .addFinalizedBudget e finalizedBudget =>
    if s.takesBudget k e finalizedBudget then some finalizedBudget.nFeeTXHash else none
  | .submitFinalBudget e budget _ =>
    (s.promoted k budget).bind fun fb => if s.takesBudget k e fb then some fb.nFeeTXHash else none
  | _ => none

def states (s : BudgetStore) : List BudgetEvent → List BudgetStore
  | [] => [s]
  | ev :: evs => s :: states (s.step k ev) evs

/-! ## Soundness -/

variable {k} {e : FeeEnv} {s : BudgetStore}

def HasFee (s : BudgetStore) (t : uint256) : Prop :=
  s.proposals.HasTag CBudgetProposal.nFeeTXHash t ∨ s.budgets.HasTag PaidBudget.nFeeTXHash t

structure Keyed (k : MessageCrypto) (s : BudgetStore) : Prop where
  proposals : s.proposals.Keyed (CBudgetProposal.getHash k)
  budgets : s.budgets.Keyed (PaidBudget.getHash k)

/-- `mapFeeTxToProposal` and `mapFeeTxToBudget` are the inverse of `nFeeTXHash`. -/
structure IndexesExact (s : BudgetStore) : Prop where
  proposals : s.proposals.Exact CBudgetProposal.nFeeTXHash
  budgets : s.budgets.Exact PaidBudget.nFeeTXHash

/-- Both indexes are exact, and `RemoveByFeeTxId` leaves no item with the transaction. -/
structure Sound (s : BudgetStore) : Prop where
  exact : IndexesExact s
  removes : ∀ t, ¬HasFee (s.removeByFeeTxId t) t

theorem keyed_empty : Keyed k {} := ⟨FinMap.forall_empty, FinMap.forall_empty⟩

/-- With exact indexes, `RemoveByFeeTxId` removes everything if no transaction paid for items of both kinds. -/
theorem sound_iff : Sound s ↔ (s.proposals.Exact CBudgetProposal.nFeeTXHash ∧ s.budgets.Exact PaidBudget.nFeeTXHash) ∧
    ∀ t, s.proposals.HasTag CBudgetProposal.nFeeTXHash t → ¬s.budgets.HasTag PaidBudget.nFeeTXHash t := by
  have hfound : s.proposals.Exact CBudgetProposal.nFeeTXHash → ∀ t, (s.proposals.index[t]?).isSome ↔
      s.proposals.HasTag CBudgetProposal.nFeeTXHash t := fun h t => Option.isSome_iff_exists.trans h.hasTag_iff.symm
  constructor
  · refine fun hs => ⟨⟨hs.exact.proposals, hs.exact.budgets⟩, fun t hp hb => hs.removes t (.inr ?_)⟩
    rw [removeByFeeTxId, if_pos ((hfound hs.exact.proposals t).mpr hp)]
    exact hb
  · rintro ⟨⟨hpe, hbe⟩, hdisjoint⟩
    refine ⟨⟨hpe, hbe⟩, fun t => ?_⟩
    unfold removeByFeeTxId
    split_ifs with hsome
    · rintro (hp | hb)
      · exact (hpe.hasTag_removeTag.mp hp).2 rfl
      · exact hdisjoint t ((hfound hpe t).mp hsome) hb
    · rintro (hp | hb)
      · exact hsome ((hfound hpe t).mpr hp)
      · exact (hbe.hasTag_removeTag.mp hb).2 rfl

theorem sound_empty : Sound {} :=
  sound_iff.mpr ⟨⟨TagIndexed.exact_empty, TagIndexed.exact_empty⟩, fun t hp => (TagIndexed.not_hasTag_empty t hp).elim⟩

theorem Sound.of_fewer {s' : BudgetStore} (hs : Sound s) (hexact : IndexesExact s')
    (hp : ∀ t, s'.proposals.HasTag CBudgetProposal.nFeeTXHash t → s.proposals.HasTag CBudgetProposal.nFeeTXHash t)
    (hb : ∀ t, s'.budgets.HasTag PaidBudget.nFeeTXHash t → s.budgets.HasTag PaidBudget.nFeeTXHash t) : Sound s' :=
  sound_iff.mpr ⟨⟨hexact.proposals, hexact.budgets⟩, fun t hpt hbt => (sound_iff.mp hs).2 t (hp t hpt) (hb t hbt)⟩

/-! ## Single events -/

theorem Sound.checkAndRemove (hs : Sound s) (hk : Keyed k s) : Sound (s.checkAndRemove k e) :=
  hs.of_fewer ⟨hs.exact.proposals.sweep hk.proposals, hs.exact.budgets.sweep hk.budgets⟩
    (fun _ => TagIndexed.hasTag_of_sweep hk.proposals) (fun _ => TagIndexed.hasTag_of_sweep hk.budgets)

theorem Sound.removeByFeeTxId (hs : Sound s) (t : uint256) : Sound (s.removeByFeeTxId t) := by
  unfold BudgetStore.removeByFeeTxId
  split
  · exact hs.of_fewer ⟨hs.exact.proposals.removeTag t, hs.exact.budgets⟩
      (fun _ h => (hs.exact.proposals.hasTag_removeTag.mp h).1) (fun _ h => h)
  · exact hs.of_fewer ⟨hs.exact.proposals, hs.exact.budgets.removeTag t⟩ (fun _ h => h)
      (fun _ h => (hs.exact.budgets.hasTag_removeTag.mp h).1)

theorem not_isSome_of_takesProposal {b : CBudgetProposal} (h : s.takesProposal k e b = true) :
    s.proposals.items[b.getHash k]? = none := by
  simp only [takesProposal, Bool.and_eq_true, Bool.not_eq_true'] at h
  exact Option.isNone_iff_eq_none.mp (Option.isSome_eq_false_iff.mp h.1.1.1)

theorem not_isSome_of_takesBudget {b : PaidBudget} (h : s.takesBudget k e b = true) :
    s.budgets.items[b.getHash k]? = none := by
  simp only [takesBudget, Bool.and_eq_true, Bool.not_eq_true'] at h
  exact Option.isNone_iff_eq_none.mp (Option.isSome_eq_false_iff.mp h.1.1.1.1)

/-- A proposal that is added keeps the store sound exactly if its fee transaction is new. -/
theorem sound_addProposal_iff (hs : Sound s) {b : CBudgetProposal} (h : s.takesProposal k e b = true) :
    Sound (s.addProposal k e b) ↔ ¬HasFee s b.nFeeTXHash := by
  obtain ⟨⟨hpe, hbe⟩, hdisjoint⟩ := sound_iff.mp hs
  have hnew := not_isSome_of_takesProposal h
  rw [addProposal, if_pos h, sound_iff, HasFee, not_or]
  simp only [TagIndexed.exact_add_iff hpe hnew, TagIndexed.hasTag_add hnew, hbe, and_true]
  refine and_congr_right fun _ => ⟨fun hb => hb _ (.inr rfl), fun hb t ht => ?_⟩
  rcases ht with ht | rfl
  · exact hdisjoint t ht
  · exact hb

theorem sound_addFinalizedBudget_iff (hs : Sound s) {b : PaidBudget} (h : s.takesBudget k e b = true) :
    Sound (s.addFinalizedBudget k e b) ↔ ¬HasFee s b.nFeeTXHash := by
  obtain ⟨⟨hpe, hbe⟩, hdisjoint⟩ := sound_iff.mp hs
  have hnew := not_isSome_of_takesBudget h
  rw [addFinalizedBudget, if_pos h, forceAddFinalizedBudget, sound_iff, HasFee, not_or, and_comm (a := ¬_)]
  simp only [TagIndexed.exact_add_iff hbe hnew, TagIndexed.hasTag_add hnew, hpe, true_and]
  refine and_congr_right fun _ => ⟨fun hp ht => hp _ ht (.inr rfl), fun hp t ht => ?_⟩
  rintro (hb | rfl)
  · exact hdisjoint t ht hb
  · exact hp ht

theorem Sound.withUnconfirmed (hs : Sound s) (m : FinMap uint256 uint256) :
    Sound { s with mapUnconfirmedFeeTx := m } :=
  hs.of_fewer ⟨hs.exact.proposals, hs.exact.budgets⟩ (fun _ h => h) (fun _ h => h)

/-- **One event** keeps a sound store sound exactly if no item has the fee transaction of the item that it adds. -/
theorem sound_step_iff (hk : Keyed k s) (hs : Sound s) (ev : BudgetEvent) :
    Sound (s.step k ev) ↔ ∀ t, s.newFee k ev = some t → ¬HasFee s t := by
  have hbudget : ∀ e (b : PaidBudget), Sound (s.addFinalizedBudget k e b) ↔
      ∀ t, (if s.takesBudget k e b then some b.nFeeTXHash else none) = some t → ¬HasFee s t := by
    intro e b
    cases h : s.takesBudget k e b with
    | true =>
      rw [sound_addFinalizedBudget_iff hs h]
      simp
    | false => simp [addFinalizedBudget, h, hs]
  cases ev with
  | addProposal e b =>
    rw [step, newFee]
    cases h : s.takesProposal k e b with
    | true =>
      rw [sound_addProposal_iff hs h]
      simp
    | false => simp [addProposal, h, hs]
  | addFinalizedBudget e b => exact hbudget e b
  | submitFinalBudget e b wtx =>
    rw [step, newFee]
    unfold submitFinalBudget
    cases hfb : s.promoted k b with
    | some fb => exact hbudget e fb
    | none =>
      refine iff_of_true ?_ (by simp)
      dsimp only
      split
      · exact hs
      · cases wtx with
        | none => exact hs
        | some collateraltxid => exact hs.withUnconfirmed _
  | checkAndRemove e => exact iff_of_true (hs.checkAndRemove hk) (by simp [newFee])
  | removeByFeeTxId t => exact iff_of_true (hs.removeByFeeTxId t) (by simp [newFee])
  | reload e readable =>
    refine iff_of_true ?_ (by simp [newFee])
    rw [step]
    split
    · exact hs.checkAndRemove hk
    · exact sound_empty

theorem Keyed.addFinalizedBudget (hk : Keyed k s) (b : PaidBudget) : Keyed k (s.addFinalizedBudget k e b) := by
  unfold BudgetStore.addFinalizedBudget
  split
  · exact ⟨hk.proposals, hk.budgets.add b⟩
  · exact hk

theorem Keyed.checkAndRemove (hk : Keyed k s) : Keyed k (s.checkAndRemove k e) :=
  ⟨hk.proposals.sweep, hk.budgets.sweep⟩

theorem Keyed.step (hk : Keyed k s) (ev : BudgetEvent) : Keyed k (s.step k ev) := by
  cases ev with
  | addProposal e b =>
    unfold BudgetStore.step addProposal
    dsimp only
    split
    · exact ⟨hk.proposals.add b, hk.budgets⟩
    · exact hk
  | addFinalizedBudget e b => exact hk.addFinalizedBudget b
  | submitFinalBudget e b wtx =>
    unfold BudgetStore.step submitFinalBudget
    dsimp only
    split
    · exact hk.addFinalizedBudget _
    · split
      · exact hk
      · cases wtx with
        | none => exact hk
        | some collateraltxid => exact ⟨hk.proposals, hk.budgets⟩
  | checkAndRemove e => exact hk.checkAndRemove
  | removeByFeeTxId t =>
    unfold BudgetStore.step removeByFeeTxId
    dsimp only
    split
    · exact ⟨hk.proposals.removeTag t, hk.budgets⟩
    · exact ⟨hk.proposals, hk.budgets.removeTag t⟩
  | reload e readable =>
    unfold BudgetStore.step
    dsimp only
    split
    · exact hk.checkAndRemove
    · exact keyed_empty

/-! ## Runs -/

/-- No event adds an item with the fee transaction of an item that is there. -/
def FreshFees (k : MessageCrypto) (s : BudgetStore) : List BudgetEvent → Prop
  | [] => True
  | ev :: evs => (∀ t, s.newFee k ev = some t → ¬HasFee s t) ∧ FreshFees k (s.step k ev) evs

theorem mem_states_self (k : MessageCrypto) (s : BudgetStore) (evs : List BudgetEvent) : s ∈ s.states k evs := by
  cases evs with
  | nil => exact List.mem_singleton_self s
  | cons ev evs => exact List.mem_cons_self

theorem states_sound_iff : ∀ {evs : List BudgetEvent} {s : BudgetStore}, Keyed k s → Sound s →
    ((∀ s' ∈ s.states k evs, Sound s') ↔ FreshFees k s evs)
  | [], s, _, hs => by simp [states, FreshFees, hs]
  | ev :: evs, s, hk, hs => by
    rw [states, List.forall_mem_cons, FreshFees, ← sound_step_iff hk hs]
    constructor
    · rintro ⟨-, hall⟩
      have hstep := hall _ (mem_states_self k _ evs)
      exact ⟨hstep, (states_sound_iff (hk.step ev) hstep).mp hall⟩
    · rintro ⟨hstep, hfresh⟩
      exact ⟨hs, (states_sound_iff (hk.step ev) hstep).mpr hfresh⟩

end BudgetStore

/-- **Fee indexes.** Along a run the indexes are always the inverse of the fee transactions, and a fee transaction
always takes its items along, exactly if no item is added with the fee transaction of another. -/
theorem fee_indexes_sound_iff (k : MessageCrypto) (evs : List BudgetEvent) :
    (∀ s ∈ BudgetStore.states k {} evs, s.Sound) ↔ BudgetStore.FreshFees k {} evs :=
  BudgetStore.states_sound_iff BudgetStore.keyed_empty BudgetStore.sound_empty

namespace Sample

def proposal (name : UInt8) : CBudgetProposal where
  strProposalName := [name]
  nBlockStart := 0
  nBlockEnd := 1000
  nAmount := 10 * COIN
  nFeeTXHash := 0xfe

/-- A fee transaction with one output for each of the two proposals. -/
def feeEnv : FeeEnv where
  bestHeight := 100
  getTransaction hash := if hash = 0xfe then some ({
      vout := [⟨PROPOSAL_FEE_TX, opReturnScript ((proposal 1).getHash messageCrypto)⟩,
        ⟨PROPOSAL_FEE_TX, opReturnScript ((proposal 2).getHash messageCrypto)⟩],
      hash := 0xfe }, 0xb0) else none
  heightOf _ := some 10

end Sample

open Sample

/-- After both proposals of one fee transaction were added, the index misses the second, and disconnecting the
transaction leaves it. -/
theorem fee_index_misses_second :
    ∃ s ∈ BudgetStore.states messageCrypto {}
        [.addProposal feeEnv (proposal 1), .addProposal feeEnv (proposal 2)],
      ¬s.Sound ∧ ((s.removeByFeeTxId 0xfe).proposals.items[(proposal 2).getHash messageCrypto]?) =
        some (proposal 2) := by
  refine ⟨_, List.mem_cons_of_mem _ (List.mem_cons_of_mem _ (List.mem_singleton_self _)), fun hs => ?_, by
    decide +kernel⟩
  refine hs.removes 0xfe (.inl ⟨(proposal 2).getHash messageCrypto, proposal 2, ?_, rfl⟩)
  decide +kernel

end TrumpCoin
