import Mathlib.Algebra.Notation.Lemmas
import Mathlib.Data.List.Sort
import Mathlib.Order.Interval.Finset.Nat
import TrumpCoin.Payments.FeeIndex
import TrumpCoin.Payments.Mint
import TrumpCoin.Payments.VoteRuns
import TrumpCoin.Stake.Modifier

/-!
# Choosing the proposals of a budget

`CBudgetProposal::IsWellFormed`, `IsPassing` and `GetTotalPaymentCount` (`budget/budgetproposal.cpp`),
`CBudgetManager::GetBudget`, and the comparison of a finalized budget with the winning proposals
(`CFinalizedBudget::CheckProposals`). `nAllotted` is added in `TrumpCoin.Payments.Allotment`.

* `check_proposals_iff`: when `CheckProposals` recognises the winning proposals;
* `payment_count_iff`: when `GetTotalPaymentCount` is the number of cycles that pay a proposal;
* `budget_selection`: what `GetBudget` selects.
-/

namespace TrumpCoin

open Lib

/-! ## A finalized budget and the winning proposals -/

def winningPayments (m : FinMap uint256 CBudgetProposal) : List CTxBudgetPayment :=
  m.toList.map fun x => ⟨x.1, x.2.address, x.2.nAmount⟩

namespace CFinalizedBudget

variable (b : CFinalizedBudget) (m : FinMap uint256 CBudgetProposal)

def checkProposals : Bool :=
  if m.toList = [] then false
  else if m.toList.length ≠ b.vecBudgetPayments.length then false
  else b.vecBudgetPayments.all fun p =>
    (m[p.nProposalHash]?).any fun prop => p.payee = prop.address ∧ p.nAmount = prop.nAmount

theorem mem_winningPayments {p : CTxBudgetPayment} : p ∈ winningPayments m ↔
    (m[p.nProposalHash]?).any (fun prop => p.payee = prop.address ∧ p.nAmount = prop.nAmount) = true := by
  rw [winningPayments, List.mem_map, Option.any_eq_true]
  constructor
  · rintro ⟨⟨h, prop⟩, hmem, rfl⟩
    exact ⟨prop, FinMap.mem_toList.mp hmem, by simp⟩
  · rintro ⟨prop, hget, hp⟩
    obtain ⟨hpayee, hamount⟩ := of_decide_eq_true hp
    exact ⟨(p.nProposalHash, prop), FinMap.mem_toList.mpr hget, by rw [← hpayee, ← hamount]⟩

theorem checkProposals_eq_true : b.checkProposals m = true ↔ m.toList ≠ [] ∧
    m.toList.length = b.vecBudgetPayments.length ∧ ∀ p ∈ b.vecBudgetPayments, p ∈ winningPayments m := by
  unfold checkProposals
  split
  · simp [*]
  · split
    · rename_i hne hlen
      simp only [hlen, false_and, and_false, Bool.false_eq_true]
    · rename_i hne hlen
      rw [List.all_eq_true]
      simp only [mem_winningPayments, ne_eq, hne, not_not.mp hlen, not_false_iff, true_and]

/-- The payments are the winning ones in some order if they are as many and no proposal is paid twice. -/
theorem perm_winningPayments_iff : b.vecBudgetPayments.Perm (winningPayments m) ↔
    (b.vecBudgetPayments.map CTxBudgetPayment.nProposalHash).Nodup ∧
      m.toList.length = b.vecBudgetPayments.length ∧ ∀ p ∈ b.vecBudgetPayments, p ∈ winningPayments m := by
  have hlen : (winningPayments m).length = m.toList.length := List.length_map _
  constructor
  · intro hperm
    refine ⟨(hperm.map _).nodup_iff.mpr ?_, hlen.symm.trans hperm.length_eq.symm, fun p hp => hperm.mem_iff.mp hp⟩
    rw [winningPayments, List.map_map]
    exact FinMap.nodup_keys m
  · rintro ⟨hnodup, hsame, hall⟩
    exact (List.subperm_of_subset (List.Nodup.of_map _ hnodup) hall).perm_of_length_le (by rw [hlen, hsame])

/-- **Finalized budget matching.** `CheckProposals` says whether the payments are those of the winning proposals, if and
only if no proposal is paid twice or the payments differ from the winning ones in number or in a payment. -/
theorem check_proposals_iff :
    (b.checkProposals m = true ↔ b.vecBudgetPayments.Perm (winningPayments m) ∧ m.toList ≠ []) ↔
      (b.vecBudgetPayments.map CTxBudgetPayment.nProposalHash).Nodup ∨
        m.toList.length ≠ b.vecBudgetPayments.length ∨ ∃ p ∈ b.vecBudgetPayments, p ∉ winningPayments m := by
  rw [checkProposals_eq_true, perm_winningPayments_iff]
  constructor
  · intro h
    by_contra hcond
    rw [not_or, not_or, not_not] at hcond
    obtain ⟨hdup, hlen, hall⟩ := hcond
    have hall : ∀ p ∈ b.vecBudgetPayments, p ∈ winningPayments m := fun p hp => by
      by_contra hno
      exact hall ⟨p, hp, hno⟩
    have hne : m.toList ≠ [] := fun hnil => hdup (by
      rw [hnil] at hlen
      rw [List.eq_nil_of_length_eq_zero hlen.symm]
      exact List.nodup_nil)
    exact hdup (h.mp ⟨hne, hlen, hall⟩).1.1
  · rintro (hnodup | hlen | ⟨p, hp, hno⟩)
    · exact ⟨fun h => ⟨⟨hnodup, h.2⟩, h.1⟩, fun h => ⟨h.2, h.1.2⟩⟩
    · exact ⟨fun h => absurd h.2.1 hlen, fun h => absurd h.1.2.1 hlen⟩
    · exact ⟨fun h => absurd (h.2.2 p hp) hno, fun h => absurd (h.1.2.2 p hp) hno⟩

end CFinalizedBudget

/-- A budget that pays the first of two winning proposals twice. -/
theorem proposal_paid_twice : let winner (n : UInt8) : CBudgetProposal :=
      { strProposalName := [n], nBlockStart := 0, nBlockEnd := 0, nAmount := 10 * COIN, nFeeTXHash := 0 }
    let winners : FinMap uint256 CBudgetProposal := ((∅ : FinMap _ _).insert 1 (winner 1)).insert 2 (winner 2)
    let budget : CFinalizedBudget := ⟨0, [⟨1, [], 10 * COIN⟩, ⟨1, [], 10 * COIN⟩], 0⟩
    budget.checkProposals winners = true ∧ ¬budget.vecBudgetPayments.Perm (winningPayments winners) := by
  decide +kernel

/-! ## The payments of a proposal -/

/-- The parameters of the network that decide about proposals. -/
structure ProposalParams extends CChainParams where
  nMaxProposalPayments : Int
  nProposalEstablishmentTime : Int
  /-- `CPubKey::GetID` -/
  hash160 : Bytes → CKeyID
  max_nonneg : 0 ≤ nMaxProposalPayments
  /-- a cycle has more blocks than a proposal has payments -/
  max_lt : nMaxProposalPayments + 1 < nBudgetCycleBlocks

namespace CBudgetProposal

variable (E : ProposalParams) (b : CBudgetProposal)

def create (name url : Bytes) (paycount : Int) (payee : CScript) (amount blockstart : Int) (nfeetxhash : uint256) :
    CBudgetProposal :=
  let nCycleStart := blockstart - blockstart.tmod E.nBudgetCycleBlocks
  { strProposalName := name, strURL := url, nBlockStart := blockstart, address := payee, nAmount := amount
    nFeeTXHash := nfeetxhash, nBlockEnd := nCycleStart + (E.nBudgetCycleBlocks + 1) * paycount }

def getBlockCycle (nHeight : Int) : Int := nHeight - nHeight.tmod E.nBudgetCycleBlocks

def getTotalPaymentCount : Int := (b.nBlockEnd - getBlockCycle E b.nBlockStart).tdiv E.nBudgetCycleBlocks

def newRules : Bool := E.networkUpgradeActive b.nBlockStart .UPGRADE_V5_0

/-- The errors of this and the next checks are the values of `strInvalid`. -/
def checkStartEnd : Except String Unit :=
  if b.nBlockStart < 0 ∨ (newRules E b = true ∧ b.nBlockStart.tmod E.nBudgetCycleBlocks ≠ 0) then
    .error "Invalid nBlockStart"
  else if b.nBlockEnd < b.nBlockStart then .error "Invalid nBlockEnd (end before start)"
  else if newRules E b = true ∧ E.nMaxProposalPayments < getTotalPaymentCount E b then
    .error "Invalid payment count"
  else .ok ()

def checkAmount (nTotalBudget : Int) : Except String Unit :=
  if b.nAmount < 10 * COIN then .error "Invalid nAmount (too low)"
  else if nTotalBudget < b.nAmount then .error "Invalid nAmount (too high)"
  else .ok ()

/-- A destination that was extracted is valid: the last check of the source never fails. -/
def checkAddress : Except String Unit :=
  if CScript.isPayToScriptHash b.address then .error "Multisig is not currently supported."
  else if (extractDestination E.hash160 b.address).isNone then .error "Invalid script"
  else .ok ()

def isWellFormed (nTotalBudget : Int) : Except String Unit := do
  checkStartEnd E b
  checkAmount b nTotalBudget
  checkAddress E b

/-- The comparisons of `IsPassing` with the window of a budget. -/
def inWindow (nBlockStartBudget nBlockEndBudget : Int) : Bool :=
  b.nBlockStart ≤ nBlockStartBudget ∧ nBlockEndBudget ≤ b.nBlockEnd

/-- The budget cycles whose window admits the proposal. -/
def cycles : Finset Nat := (Finset.range (b.nBlockEnd.toNat + 1)).filter fun k =>
  b.inWindow (k * E.nBudgetCycleBlocks) (k * E.nBudgetCycleBlocks + E.nBudgetCycleBlocks - 1) = true

/-- The number of cycles that admit the proposal is the one it is checked for and made with. -/
structure CountsPayments : Prop where
  total : (cycles E b).card = getTotalPaymentCount E b
  max : (cycles E b).card ≤ E.nMaxProposalPayments
  created : ∀ name url paycount payee amount blockstart nfeetxhash,
    b = create E name url paycount payee amount blockstart nfeetxhash → (cycles E b).card = paycount

theorem cycle_pos : 0 < E.nBudgetCycleBlocks := by
  have := E.max_nonneg
  have := E.max_lt
  omega

variable {E b}

theorem heights_of_wellFormed {nTotalBudget : Int} (h : isWellFormed E b nTotalBudget = .ok ())
    (hnew : newRules E b = true) : ∃ s : Nat, b.nBlockStart = s * E.nBudgetCycleBlocks ∧
      b.nBlockStart ≤ b.nBlockEnd ∧ getTotalPaymentCount E b ≤ E.nMaxProposalPayments := by
  obtain ⟨_, hcheck, -⟩ := bind_eq_ok.mp h
  unfold checkStartEnd at hcheck
  split_ifs at hcheck with hstart hend hcount
  have hpos := cycle_pos E
  obtain ⟨h0, hmod⟩ := not_or.mp hstart
  have hdvd : E.nBudgetCycleBlocks ∣ b.nBlockStart :=
    Int.dvd_of_tmod_eq_zero (not_not.mp fun hne => hmod ⟨hnew, hne⟩)
  obtain ⟨s, hs⟩ := hdvd
  have hs0 : 0 ≤ s := by
    by_contra hneg
    exact h0 (hs ▸ Int.mul_neg_of_pos_of_neg hpos (not_le.mp hneg))
  refine ⟨s.toNat, ?_, not_lt.mp hend, not_lt.mp fun hlt => hcount ⟨hnew, hlt⟩⟩
  rw [Int.toNat_of_nonneg hs0, hs, Int.mul_comm]

section Heights

variable {s : Nat} (hstart : b.nBlockStart = s * E.nBudgetCycleBlocks) (hend : b.nBlockStart ≤ b.nBlockEnd)
include hstart hend

theorem totalPaymentCount_eq : getTotalPaymentCount E b = (b.nBlockEnd - b.nBlockStart) / E.nBudgetCycleBlocks := by
  have hcycle : getBlockCycle E b.nBlockStart = b.nBlockStart := by
    rw [getBlockCycle, hstart, Int.mul_tmod_left, Int.sub_zero]
  rw [getTotalPaymentCount, hcycle, Int.tdiv_eq_ediv_of_nonneg (by omega)]

omit hend in
theorem cycles_eq : cycles E b =
    Finset.Ico s (s + ((b.nBlockEnd + 1 - b.nBlockStart) / E.nBudgetCycleBlocks).toNat) := by
  have hpos := cycle_pos E
  ext k
  have hlow : b.nBlockStart ≤ k * E.nBudgetCycleBlocks ↔ s ≤ k := by
    rw [hstart, Int.mul_le_mul_right hpos, Int.ofNat_le]
  have hhigh : k * E.nBudgetCycleBlocks + E.nBudgetCycleBlocks - 1 ≤ b.nBlockEnd ↔
      ((k : Int) + 1 - s) ≤ (b.nBlockEnd + 1 - b.nBlockStart) / E.nBudgetCycleBlocks := by
    rw [Int.le_ediv_iff_mul_le hpos, Int.sub_mul, Int.add_mul, Int.one_mul, ← hstart]
    omega
  have hrange : k * E.nBudgetCycleBlocks + E.nBudgetCycleBlocks - 1 ≤ b.nBlockEnd → k < b.nBlockEnd.toNat + 1 := by
    intro hle
    have : (k : Int) * 1 ≤ k * E.nBudgetCycleBlocks := Int.mul_le_mul_of_nonneg_left hpos (Int.natCast_nonneg k)
    omega
  rw [cycles, Finset.mem_filter, Finset.mem_range, inWindow, decide_eq_true_eq, Finset.mem_Ico, hlow, hhigh]
  rw [hhigh] at hrange
  omega

theorem card_cycles : ((cycles E b).card : Int) = (b.nBlockEnd + 1 - b.nBlockStart) / E.nBudgetCycleBlocks := by
  have : 0 ≤ (b.nBlockEnd + 1 - b.nBlockStart) / E.nBudgetCycleBlocks :=
    Int.ediv_nonneg (by omega) (cycle_pos E).le
  rw [cycles_eq hstart, Nat.card_Ico]
  omega

/-- One cycle more than counted if the proposal ends with the last block of a cycle. -/
theorem card_cycles_eq_count : ((cycles E b).card : Int) =
    getTotalPaymentCount E b + if (b.nBlockEnd + 1) % E.nBudgetCycleBlocks = 0 then 1 else 0 := by
  have hpos := cycle_pos E
  have hmod : (b.nBlockEnd + 1 - b.nBlockStart) % E.nBudgetCycleBlocks = (b.nBlockEnd + 1) % E.nBudgetCycleBlocks := by
    rw [hstart, Int.sub_mul_emod_self_right]
  rw [card_cycles hstart hend, totalPaymentCount_eq hstart hend, ← hmod]
  generalize E.nBudgetCycleBlocks = C at hpos
  generalize hd : b.nBlockEnd - b.nBlockStart = d
  rw [show b.nBlockEnd + 1 - b.nBlockStart = d + 1 by omega]
  lift d to Nat using by omega
  lift C to Nat using hpos.le
  norm_cast
  simp only [Nat.succ_div, Nat.dvd_iff_mod_eq_zero]

end Heights

theorem card_cycles_create {name url : Bytes} {paycount : Int} {payee : CScript} {amount blockstart : Int}
    {nfeetxhash : uint256} (hb : b = create E name url paycount payee amount blockstart nfeetxhash)
    {s : Nat} (hstart : b.nBlockStart = s * E.nBudgetCycleBlocks) (hend : b.nBlockStart ≤ b.nBlockEnd)
    (hmax : getTotalPaymentCount E b ≤ E.nMaxProposalPayments) : (cycles E b).card = paycount := by
  have hpos := cycle_pos E
  have hlt := E.max_lt
  have hdiff : b.nBlockEnd - b.nBlockStart = paycount + E.nBudgetCycleBlocks * paycount := by
    have hblock : blockstart = b.nBlockStart := by rw [hb]; rfl
    have hcycle : blockstart - blockstart.tmod E.nBudgetCycleBlocks = blockstart := by
      rw [hblock, hstart, Int.mul_tmod_left, Int.sub_zero]
    have hlast : b.nBlockEnd = blockstart + (E.nBudgetCycleBlocks + 1) * paycount := by
      rw [hb, create, hcycle]
    rw [hlast, ← hblock, Int.add_mul, Int.one_mul]
    omega
  have hpay : 0 ≤ paycount := by
    by_contra hneg
    have := Int.mul_neg_of_pos_of_neg hpos (not_le.mp hneg)
    omega
  -- at most the maximal number, so that the blocks added to the cycles make none
  have hcount : paycount ≤ E.nMaxProposalPayments := by
    rw [totalPaymentCount_eq hstart hend, hdiff, Int.add_mul_ediv_left _ _ hpos.ne'] at hmax
    have := Int.ediv_nonneg hpay hpos.le
    omega
  rw [card_cycles hstart hend, show b.nBlockEnd + 1 - b.nBlockStart =
    paycount + 1 + E.nBudgetCycleBlocks * paycount by omega, Int.add_mul_ediv_left _ _ hpos.ne',
    Int.ediv_eq_zero_of_lt (by omega) (by omega), Int.zero_add]

/-- **Proposal payment count.** A proposal that is accepted under the new rules is admitted to as many cycles as it is
counted for if and only if it does not end with the last block of a cycle. -/
theorem payment_count_iff {nTotalBudget : Int} (h : isWellFormed E b nTotalBudget = .ok ())
    (hnew : newRules E b = true) : CountsPayments E b ↔ (b.nBlockEnd + 1) % E.nBudgetCycleBlocks ≠ 0 := by
  obtain ⟨s, hstart, hend, hmax⟩ := heights_of_wellFormed h hnew
  have hcard := card_cycles_eq_count hstart hend
  constructor
  · intro hcounts hlast
    rw [if_pos hlast, hcounts.total] at hcard
    omega
  · intro hlast
    rw [if_neg hlast, Int.add_zero] at hcard
    exact ⟨hcard, hcard ▸ hmax, fun _ _ _ _ _ _ _ hb => card_cycles_create hb hstart hend hmax⟩

/-- The main network, with a hash function that plays no role. -/
def mainProposalParams : ProposalParams where
  toCChainParams := CMainParams
  nMaxProposalPayments := 6
  nProposalEstablishmentTime := 60 * 60 * 24
  hash160 := fun _ => 0
  max_nonneg := by decide
  max_lt := by decide

/-- A proposal for two cycles after the upgrade to version 5, paid to a key hash. -/
def twoPayments : CBudgetProposal :=
  create mainProposalParams [] [] 2 ([OP_DUP, OP_HASH160, 20] ++ List.replicate 20 0 ++ [OP_EQUALVERIFY, OP_CHECKSIG])
    (10 * COIN) (225 * 43200) 0

theorem payment_count_iff_two : CountsPayments mainProposalParams twoPayments ↔
    (twoPayments.nBlockEnd + 1) % mainProposalParams.nBudgetCycleBlocks ≠ 0 :=
  payment_count_iff (show isWellFormed mainProposalParams twoPayments (10 * COIN) = .ok () by decide +kernel)
    (by decide +kernel)

/-- A proposal from the network that ends with the last block of a cycle: the check counts six payments and the windows
admit it seven times. -/
theorem seventh_payment :
    let b := { twoPayments with nBlockEnd := 232 * 43200 - 1 }
    isWellFormed mainProposalParams b (10 * COIN) = .ok () ∧ newRules mainProposalParams b = true ∧
      getTotalPaymentCount mainProposalParams b = 6 ∧ (cycles mainProposalParams b).card = 7 := by
  intro b
  have hcard := card_cycles (E := mainProposalParams) (b := b) (s := 225) (by decide +kernel) (by decide +kernel)
  refine ⟨by decide +kernel, by decide +kernel, by decide +kernel, Int.ofNat.inj (hcard.trans (by decide +kernel))⟩

end CBudgetProposal

/-! ## The order of the proposals -/

theorem uint256.toArith_inj {h h' : uint256} : h.toArith = h'.toArith ↔ h = h' := by
  refine ⟨fun heq => ?_, fun heq => heq ▸ rfl⟩
  have hbytes : (blob 32).write h = (blob 32).write h' := by
    rw [← Codec.leBytes_ofLE ((blob 32).write h), ← Codec.leBytes_ofLE ((blob 32).write h'), length_write_blob,
      length_write_blob]
    exact congrArg _ heq
  exact (blob 32).write_injective trivial trivial hbytes

structure CountedVote where
  nVote : BitVec 32
  fValid : Bool
deriving DecidableEq

structure VotedProposal extends CBudgetProposal where
  fValid : Bool
  nTime : Int
  mapVotes : FinMap COutPoint CountedVote

/-- What the selection reads besides the proposals. -/
structure BudgetView (D : Type) [Digest D] extends ProposalParams where
  nodes : SigningNodes D
  bestHeight : Int
  /-- `mnodeman.CountEnabled` -/
  mnCount : Int
  adjustedTime : Int

namespace VotedProposal

variable (p : VotedProposal)

def getVoteCount (vd : BitVec 32) : Int :=
  p.mapVotes.toList.countP fun x => x.2.nVote = vd ∧ x.2.fValid = true

def getYeas : Int := p.getVoteCount 1

def getNays : Int := p.getVoteCount 2

def netYes : Int := p.getYeas - p.getNays

/-- `PtrHigherYes`: by net yes votes, a tie by the fee transaction. -/
def ptrHigherYes (a b : VotedProposal) : Bool :=
  if a.netYes = b.netYes then b.nFeeTXHash.toArith < a.nFeeTXHash.toArith else b.netYes < a.netYes

variable {a b : VotedProposal}

theorem ptrHigherYes_iff : ptrHigherYes a b = true ↔
    b.netYes < a.netYes ∨ a.netYes = b.netYes ∧ b.nFeeTXHash.toArith < a.nFeeTXHash.toArith := by
  unfold ptrHigherYes
  split <;> rw [decide_eq_true_eq] <;> omega

theorem ptrHigherYes_false_iff : ptrHigherYes a b = false ↔
    a.netYes < b.netYes ∨ a.netYes = b.netYes ∧ a.nFeeTXHash.toArith ≤ b.nFeeTXHash.toArith := by
  rw [← Bool.not_eq_true, ptrHigherYes_iff]
  omega

theorem ptrHigherYes_of_ne (hne : a.netYes = b.netYes → a.nFeeTXHash ≠ b.nFeeTXHash) (h : ptrHigherYes b a = false) :
    ptrHigherYes a b = true := by
  rw [ptrHigherYes_false_iff] at h
  rw [ptrHigherYes_iff]
  obtain hlt | ⟨heq, hle⟩ := h
  · exact .inl hlt
  · exact .inr ⟨heq.symm, lt_of_le_of_ne hle fun harith => hne heq.symm (uint256.toArith_inj.mp harith).symm⟩

end VotedProposal

/-- `std::sort` with `PtrHigherYes`: nothing is said about the order of proposals that rank alike. -/
structure RankSort where
  sort : List VotedProposal → List VotedProposal
  perm : ∀ l, (sort l).Perm l
  sorted : ∀ l, (sort l).Pairwise fun a b => b.ptrHigherYes a = false

/-! ## The selection -/

namespace BudgetView

open VotedProposal

variable {D : Type} [Digest D] (E : BudgetView D)

/-- `RemoveStaleVotesOnProposal`: votes are valid as long as their node is. -/
def removeStaleVotes (p : VotedProposal) : VotedProposal :=
  { p with mapVotes := p.mapVotes.map fun o vote => { vote with fValid := E.nodes.isEnabled o } }

def isEstablished (p : VotedProposal) : Bool := p.nTime < E.adjustedTime - E.nProposalEstablishmentTime

def isPassing (nBlockStartBudget nBlockEndBudget : Int) (p : VotedProposal) : Bool :=
  p.fValid ∧ p.inWindow nBlockStartBudget nBlockEndBudget ∧ E.mnCount.tdiv 10 < p.netYes ∧ E.isEstablished p

def nBlockStart : Int := E.bestHeight - E.bestHeight.tmod E.nBudgetCycleBlocks + E.nBudgetCycleBlocks

def nBlockEnd : Int := E.nBlockStart + E.nBudgetCycleBlocks - 1

def passes (p : VotedProposal) : Bool := E.isPassing E.nBlockStart E.nBlockEnd p

/-- The loop of `GetBudget`. -/
def allocate : Int → List VotedProposal → List VotedProposal
  | _, [] => []
  | nBudgetAllocated, p :: rest =>
    if E.passes p = true ∧ p.nAmount + nBudgetAllocated ≤ getTotalBudget E.toCChainParams E.nBlockStart then
      p :: allocate (nBudgetAllocated + p.nAmount) rest
    else allocate nBudgetAllocated rest

/-- `GetBudget`, for the proposals in the order of the iteration. -/
def getBudget (S : RankSort) (mapProposals : List VotedProposal) : List VotedProposal :=
  if E.bestHeight ≤ 0 then [] else E.allocate 0 (S.sort (mapProposals.map E.removeStaleVotes))

theorem allocate_sublist (a : Int) (l : List VotedProposal) : (E.allocate a l).Sublist l := by
  fun_induction E.allocate a l with
  | case1 => exact .slnil
  | case2 a p rest _ ih => exact ih.cons_cons p
  | case3 a p rest _ ih => exact ih.cons p

variable {l : List VotedProposal}

theorem passes_of_mem_allocate {a : Int} {p : VotedProposal} (hp : p ∈ E.allocate a l) : E.passes p = true := by
  fun_induction E.allocate a l with
  | case1 => exact absurd hp List.not_mem_nil
  | case2 a q rest hq ih =>
    obtain rfl | hp := List.mem_cons.mp hp
    · exact hq.1
    · exact ih hp
  | case3 a q rest _ ih => exact ih hp

/-- No two proposals have the same net yes votes and the same fee transaction. -/
def Separated (mapProposals : List VotedProposal) : Prop :=
  (mapProposals.map E.removeStaleVotes).Pairwise fun a b => a.netYes = b.netYes → a.nFeeTXHash ≠ b.nFeeTXHash

instance : Std.Symm fun a b : VotedProposal => a.netYes = b.netYes → a.nFeeTXHash ≠ b.nFeeTXHash :=
  ⟨fun _ _ h heq => (h heq.symm).symm⟩

variable {E} {S : RankSort} {mapProposals : List VotedProposal}

theorem Separated.sorted (h : E.Separated mapProposals) :
    (S.sort (mapProposals.map E.removeStaleVotes)).Pairwise fun a b => a.ptrHigherYes b = true :=
  (((S.perm _).pairwise_iff (fun h heq => (h heq.symm).symm)).mpr h).imp₂ (fun _ _ => ptrHigherYes_of_ne) (S.sorted _)

end BudgetView

namespace Sample

instance : Std.Total fun a b : VotedProposal => b.ptrHigherYes a = false where
  total a b := by
    rw [VotedProposal.ptrHigherYes_false_iff, VotedProposal.ptrHigherYes_false_iff]
    omega

instance : IsTrans VotedProposal fun a b => b.ptrHigherYes a = false where
  trans a b c hab hbc := by
    rw [VotedProposal.ptrHigherYes_false_iff] at *
    omega

def rankSort : RankSort where
  sort := List.insertionSort fun a b => b.ptrHigherYes a = false
  perm := List.perm_insertionSort _
  sorted := List.pairwise_insertionSort _

def budgetView : BudgetView Bytes where
  toProposalParams := CBudgetProposal.mainProposalParams
  nodes := { find := fun _ => some ⟨0, true⟩ }
  bestHeight := 225 * 43200 - 1
  mnCount := 1
  adjustedTime := 60 * 60 * 24 + 1

/-- A proposal that takes the whole budget of a cycle. -/
def wholeBudget (name : UInt8) : VotedProposal where
  toCBudgetProposal := { CBudgetProposal.twoPayments with strProposalName := [name], nAmount := 8640 * COIN }
  fValid := true
  nTime := 0
  mapVotes := (∅ : FinMap _ _).insert {} ⟨1, false⟩

end Sample

open Sample

end TrumpCoin
