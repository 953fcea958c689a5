import TrumpCoin.Payments.Allotment
import TrumpCoin.Payments.BudgetVotes

/-!
# The budget manager as a whole

Each result about budgets is about the part of `CBudgetManager` it needs: the votes (`CBudgetManager`), the items with
their fee transactions (`BudgetStore`), the proposals that are ranked (`ProposalMap`), the finalized budgets with the
validity of their votes (`BudgetPoll`) or with their number (`BudgetManager`). Here they are parts of one state.

* `BudgetState`: exactly the items of the store have votes, whatever happens to either;
* `paying_eq`: the payments count all votes of the poll, valid or not.
-/

namespace TrumpCoin

open Lib

/-! ## The items that have votes -/

namespace VoteBook

variable {V : Type} {K : VoteKind V} {D : Type} [Digest D] (k : MessageCrypto) (e : BudgetEnv D) (b : VoteBook K)

/-- The item is known, with its votes. -/
def known (h : uint256) : Bool := (b.items[h]?).isSome

theorem known_update (pfrom : Bool) (v : V) : (b.update k e pfrom v).2.known = b.known := by
  funext h
  unfold update
  cases hitem : b.items[K.target v]? with
  | none =>
    dsimp only
    split_ifs <;> rfl
  | some mapVotes =>
    cases hadd : addOrUpdateVote (K := K) k e mapVotes v with
    | error strError => simp only [hadd]
    | ok mapVotes' =>
      simp only [hadd, known, FinMap.get_insert]
      split_ifs with hh
      · rw [← hh, hitem]
        rfl
      · rfl

theorem known_checkOrphanVotes : (b.checkOrphanVotes k e).known = b.known := by
  have hone : ∀ (b : VoteBook K) orphan, (checkOrphanVote k e b orphan).known = b.known := by
    intro b orphan
    have hupdate := known_update k e b false orphan.2
    unfold checkOrphanVote
    rcases heq : b.update k e false orphan.2 with ⟨_ | _, b'⟩ <;> rw [heq] at hupdate <;> exact hupdate
  unfold checkOrphanVotes
  generalize b.orphans.toList = orphans
  induction orphans generalizing b with
  | nil => rfl
  | cons orphan orphans ih => rw [List.foldl_cons, ih, hone]

theorem known_processVote (pfrom : Bool) (v : V) : (b.processVote k e pfrom v).2.known = b.known := by
  have haccept : ((b.addSeen k v).accept k e pfrom v).2.known = b.known := by
    have hupdate := known_update k e (b.addSeen k v) pfrom v
    unfold accept
    rcases heq : (b.addSeen k v).update k e pfrom v with ⟨_ | _, b'⟩ <;> rw [heq] at hupdate <;> exact hupdate
  unfold processVote
  repeat' split
  all_goals first | rfl | exact haccept

theorem known_addItem (hash h : uint256) : (b.addItem hash).known h = (decide (h = hash) || b.known h) :=
  FinMap.isSome_emplace b.items hash h ∅

/-- The votes on given items. -/
def follow {I : Type} (items : FinMap uint256 I) : VoteBook K :=
  { b with items := items.map fun h _ => (b.items[h]?).getD ∅ }

theorem known_follow {I : Type} (items : FinMap uint256 I) (h : uint256) :
    (b.follow items).known h = (items[h]?).isSome := by
  rw [known, follow, Std.ExtTreeMap.getElem?_map, Option.isSome_map]

end VoteBook

namespace CBudgetManager

variable {D : Type} [Digest D] (k : MessageCrypto) (e : BudgetEnv D) (s : CBudgetManager) (nHash : uint256)

/-- A proposal becomes known with its message, and finalized budgets do not. -/
theorem known_processProposal : (s.processProposal k e nHash).budgets.known = s.budgets.known ∧
    ∀ h, (s.processProposal k e nHash).proposals.known h =
      (decide (h = nHash) && e.addProposal nHash || s.proposals.known h) := by
  unfold processProposal
  split_ifs with hknown hrefused
  · refine ⟨rfl, fun h => ?_⟩
    by_cases hh : h = nHash <;> simp [VoteBook.known, hh, hknown]
  · simp [hrefused]
  · refine ⟨VoteBook.known_checkOrphanVotes k e s.budgets, fun h => ?_⟩
    rw [checkOrphanVotes, VoteBook.known_checkOrphanVotes, VoteBook.known_addItem,
      Bool.eq_true_of_not_eq_false hrefused, Bool.and_true]

theorem known_processFinalizedBudget : (s.processFinalizedBudget k e nHash).proposals.known = s.proposals.known ∧
    ∀ h, (s.processFinalizedBudget k e nHash).budgets.known h =
      (decide (h = nHash) && e.addFinalizedBudget nHash || s.budgets.known h) := by
  unfold processFinalizedBudget
  split_ifs with hknown hrefused
  · refine ⟨rfl, fun h => ?_⟩
    by_cases hh : h = nHash <;> simp [VoteBook.known, hh, hknown]
  · simp [hrefused]
  · refine ⟨VoteBook.known_checkOrphanVotes k e s.proposals, fun h => ?_⟩
    rw [checkOrphanVotes, VoteBook.known_checkOrphanVotes, VoteBook.known_addItem,
      Bool.eq_true_of_not_eq_false hrefused, Bool.and_true]

end CBudgetManager

/-! ## The state -/

/-- The members of a proposal that are neither in its message nor votes. -/
structure ProposalStatus where
  fValid : Bool := true
  nTime : Int := 0
  nAllotted : Int := 0

/-- `CBudgetManager`. The votes are kept apart from the items they are members of. -/
structure BudgetState (k : MessageCrypto) where
  votes : CBudgetManager := {}
  store : BudgetStore := {}
  status : uint256 → ProposalStatus := fun _ => {}
  keyed : store.Keyed k := by exact BudgetStore.keyed_empty
  proposals_voted : ∀ h, votes.proposals.known h = (store.proposals.items[h]?).isSome := by exact fun _ => rfl
  budgets_voted : ∀ h, votes.budgets.known h = (store.budgets.items[h]?).isSome := by exact fun _ => rfl

namespace BudgetState

variable {k : MessageCrypto} {D : Type} [Digest D] (s : BudgetState k) (e : BudgetEnv D)

/-- `ProcessProposal`, where the checks of `AddProposal` are those of the store. -/
def processProposal (fee : FeeEnv) (proposal : CBudgetProposal) : BudgetState k where
  votes := s.votes.processProposal k { e with addProposal := fun _ => s.store.takesProposal k fee proposal }
    (proposal.getHash k)
  store := s.store.addProposal k fee proposal
  status := s.status
  keyed := s.keyed.step (.addProposal fee proposal)
  proposals_voted h := by
    rw [(CBudgetManager.known_processProposal k _ s.votes _).2, s.proposals_voted, BudgetStore.addProposal]
    split_ifs with htakes
    · rw [htakes, Bool.and_true]
      exact (FinMap.isSome_emplace _ _ _ _).symm
    · simp [htakes]
  budgets_voted h := by
    rw [(CBudgetManager.known_processProposal k _ s.votes _).1, s.budgets_voted, BudgetStore.addProposal]
    split_ifs <;> rfl

/-- `ProcessFinalizedBudget`, where the checks of `AddFinalizedBudget` are those of the store. -/
def processFinalizedBudget (fee : FeeEnv) (finalbudget : PaidBudget) : BudgetState k where
  votes := s.votes.processFinalizedBudget k
    { e with addFinalizedBudget := fun _ => s.store.takesBudget k fee finalbudget } (finalbudget.getHash k)
  store := s.store.addFinalizedBudget k fee finalbudget
  status := s.status
  keyed := s.keyed.step (.addFinalizedBudget fee finalbudget)
  proposals_voted h := by
    rw [(CBudgetManager.known_processFinalizedBudget k _ s.votes _).1, s.proposals_voted,
      BudgetStore.addFinalizedBudget]
    split_ifs <;> rfl
  budgets_voted h := by
    rw [(CBudgetManager.known_processFinalizedBudget k _ s.votes _).2, s.budgets_voted, BudgetStore.addFinalizedBudget]
    split_ifs with htakes
    · rw [htakes, Bool.and_true]
      exact (FinMap.isSome_emplace _ _ _ _).symm
    · simp [htakes]

def processProposalVote (vote : CBudgetVote) : BudgetState k :=
  { s with
    votes := (s.votes.processProposalVote k e vote).2
    proposals_voted := fun h =>
      (congrFun (VoteBook.known_processVote k e s.votes.proposals true vote) h).trans (s.proposals_voted h)
    budgets_voted := s.budgets_voted }

def processFinalizedBudgetVote (vote : CFinalizedBudgetVote) : BudgetState k :=
  { s with
    votes := (s.votes.processFinalizedBudgetVote k e vote).2
    proposals_voted := s.proposals_voted
    budgets_voted := fun h =>
      (congrFun (VoteBook.known_processVote k e s.votes.budgets true vote) h).trans (s.budgets_voted h) }

/-- What else happens to the items: those that are removed take their votes along, and new ones have none. -/
def storeEvent (ev : BudgetEvent) : BudgetState k where
  votes := ⟨s.votes.proposals.follow (s.store.step k ev).proposals.items,
    s.votes.budgets.follow (s.store.step k ev).budgets.items⟩
  store := s.store.step k ev
  status := s.status
  keyed := s.keyed.step ev
  proposals_voted := VoteBook.known_follow _ _
  budgets_voted := VoteBook.known_follow _ _

/-! ## Its parts -/

variable (valid : COutPoint → Bool) (countEnabled : Nat)

def budgetVotes (h : uint256) : FinMap COutPoint CFinalizedBudgetVote := (s.votes.budgets.items[h]?).getD ∅

/-- What the payments read. -/
def paying : BudgetManager where
  mapFinalizedBudgets := s.store.budgets.items.map fun h b =>
    { b.toCFinalizedBudget with voteCount := (s.budgetVotes h).size }
  countEnabled := countEnabled

/-- The finalized budgets with the validity that was last found for their votes. -/
def poll : BudgetPoll where
  mapFinalizedBudgets := s.store.budgets.items.map fun h b =>
    ⟨b.nBlockStart, b.vecBudgetPayments, (s.budgetVotes h).map fun o _ => valid o⟩
  countEnabled := countEnabled

/-- What `GetBudget` reads and writes. -/
def proposalMap : ProposalMap k where
  map := s.store.proposals.items.map fun h p =>
    { p with
      fValid := (s.status h).fValid
      nTime := (s.status h).nTime
      nAllotted := (s.status h).nAllotted
      mapVotes := ((s.votes.proposals.items[h]?).getD ∅).map fun o v => ⟨v.nVote, valid o⟩ }
  keyed h p hp := by
    rw [Std.ExtTreeMap.getElem?_map, Option.map_eq_some_iff] at hp
    obtain ⟨q, hq, rfl⟩ := hp
    exact s.keyed.proposals h q hq

/-- The payments count all votes of the poll, the invalid ones too. -/
theorem paying_eq : s.paying countEnabled = (s.poll valid countEnabled).manager := by
  simp only [paying, poll, BudgetPoll.manager, BudgetManager.mk.injEq, and_true]
  refine FinMap.ext_get (K := uint256) fun h => ?_
  rw [Std.ExtTreeMap.getElem?_map, Std.ExtTreeMap.getElem?_map, Std.ExtTreeMap.getElem?_map, Option.map_map]
  refine congrFun (congrArg Option.map (funext fun b => ?_)) _
  simp [VotedBudget.counted, VotedBudget.getVoteCount, Std.ExtTreeMap.size_map]

/-- `RemoveStaleVotesOnFinalBudget` finds the votes of enabled nodes valid, whatever was found before. -/
theorem poll_removeStaleVotes (nodes : SigningNodes D) :
    (s.poll valid countEnabled).removeStaleVotes nodes = s.poll nodes.isEnabled countEnabled := by
  simp only [poll, BudgetPoll.removeStaleVotes, VotedBudget.removeStaleVotes, BudgetPoll.mk.injEq, and_true]
  refine FinMap.ext_get (K := uint256) fun h => ?_
  simp only [Std.ExtTreeMap.getElem?_map, Option.map_map]
  refine congrFun (congrArg Option.map (funext fun b => ?_)) _
  simp only [Function.comp_apply, VotedBudget.mk.injEq, true_and]
  refine FinMap.ext_get (K := COutPoint) fun o => ?_
  simp only [Std.ExtTreeMap.getElem?_map, Option.map_map]
  rfl

end BudgetState

end TrumpCoin
