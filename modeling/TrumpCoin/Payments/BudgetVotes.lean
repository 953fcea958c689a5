import TrumpCoin.Payments.Budget
import TrumpCoin.Payments.VoteRuns

/-!
# The votes behind a finalized budget

The votes on a finalized budget carry a flag that `CBudgetManager::RemoveStaleVotesOnFinalBudget` refreshes from the
nodes. The choice of the budget to pay (`GetBudgetWithHighestVoteCount`) goes by `CFinalizedBudget::GetVoteCount`, the
size of `mapVotes`, whatever the flags are.

* `highest_eq_some`: the chosen budget is the one that outpolls all others;
* `invalid_votes_iff`: when the votes marked invalid have no influence.
-/

namespace TrumpCoin

open Lib

structure VotedBudget where
  nBlockStart : Int
  vecBudgetPayments : List CTxBudgetPayment
  /-- `fValid` of the vote of a node -/
  mapVotes : FinMap COutPoint Bool

namespace VotedBudget

variable (b : VotedBudget)

def getVoteCount : Nat := b.mapVotes.size

def counted : CFinalizedBudget := ⟨b.nBlockStart, b.vecBudgetPayments, b.getVoteCount⟩

/-- `RemoveStaleVotesOnFinalBudget` -/
def removeStaleVotes {D : Type} [Digest D] (nodes : SigningNodes D) (b : VotedBudget) : VotedBudget :=
  { b with mapVotes := b.mapVotes.map fun o _ => nodes.isEnabled o }

def validOnly : VotedBudget := { b with mapVotes := b.mapVotes.filter fun _ fValid => fValid }

theorem validOnly_getVoteCount_le : b.validOnly.getVoteCount ≤ b.getVoteCount :=
  Std.ExtTreeMap.size_filter_le_size

end VotedBudget

/-- The finalized budgets with their votes, and the number of enabled nodes. -/
structure BudgetPoll where
  mapFinalizedBudgets : FinMap uint256 VotedBudget
  countEnabled : Nat

namespace BudgetPoll

variable (s : BudgetPoll) (chainHeight : Int)

def manager : BudgetManager := ⟨s.mapFinalizedBudgets.map fun _ b => b.counted, s.countEnabled⟩

def validOnly : BudgetPoll := { s with mapFinalizedBudgets := s.mapFinalizedBudgets.map fun _ b => b.validOnly }

def removeStaleVotes {D : Type} [Digest D] (nodes : SigningNodes D) : BudgetPoll :=
  { s with mapFinalizedBudgets := s.mapFinalizedBudgets.map fun _ b => b.removeStaleVotes nodes }

/-- The body of the loop of `GetBudgetWithHighestVoteCount`, with the hash of the budget. -/
def keepHighest (best : Option (uint256 × VotedBudget)) (x : uint256 × VotedBudget) : Option (uint256 × VotedBudget) :=
  if (best.map fun b => b.2.getVoteCount).getD 0 < x.2.getVoteCount ∧ x.2.counted.inRange chainHeight then some x
  else best

def highest : Option (uint256 × VotedBudget) :=
  s.mapFinalizedBudgets.toList.foldl (keepHighest chainHeight) none

/-- The budget of the highest vote count, with its hash. -/
theorem highest_counted :
    s.manager.getBudgetWithHighestVoteCount chainHeight = (s.highest chainHeight).map fun x => x.2.counted := by
  rw [BudgetManager.getBudgetWithHighestVoteCount, manager, FinMap.vals, Std.ExtTreeMap.toList_map, List.map_map,
    List.foldl_map]
  refine @List.foldl_hom _ _ _ (Option.map fun x : uint256 × VotedBudget => x.2.counted) _ _ _ none fun best x => ?_
  unfold keepHighest
  cases best <;> simp only [Option.map_none, Option.map_some, apply_ite (Option.map _)] <;> rfl

theorem isBudgetPaymentBlock_eq : s.manager.isBudgetPaymentBlock chainHeight =
    (s.highest chainHeight).any fun x => s.countEnabled / 20 < x.2.getVoteCount := by
  rw [BudgetManager.isBudgetPaymentBlock, BudgetManager.getHighestVoteCount, highest_counted]
  cases s.highest chainHeight with
  | none => exact decide_eq_false (by dsimp only [Option.map_none]; omega)
  | some x => exact decide_eq_decide.mpr Nat.cast_lt

/-! ## The chosen budget -/

/-- A budget is preferred to one with fewer votes, and to one with as many that comes later. -/
def outpolls (x y : uint256 × VotedBudget) : Prop :=
  y.2.getVoteCount < x.2.getVoteCount ∨
    y.2.getVoteCount = x.2.getVoteCount ∧ compare x.1 y.1 = .lt

theorem outpolls_asymm {x y : uint256 × VotedBudget} (h : outpolls x y) : ¬outpolls y x := by
  rintro (hlt | ⟨heq, hlt⟩)
  · obtain h | h := h <;> omega
  · obtain h | ⟨-, hxy⟩ := h
    · omega
    · rw [Std.OrientedOrd.eq_swap, hlt] at hxy
      cases hxy

/-- The budget of a payment block that has votes and outpolls the other budgets of that block. -/
structure Leads (l : List (uint256 × VotedBudget)) (x : uint256 × VotedBudget) : Prop where
  mem : x ∈ l
  inRange : x.2.counted.inRange chainHeight
  voted : 0 < x.2.getVoteCount
  outpolls : ∀ y ∈ l, y.2.counted.inRange chainHeight → y ≠ x → outpolls x y

def Unvoted (l : List (uint256 × VotedBudget)) : Prop :=
  ∀ y ∈ l, y.2.counted.inRange chainHeight → y.2.getVoteCount = 0

variable {s chainHeight} {l : List (uint256 × VotedBudget)} {x y : uint256 × VotedBudget}

theorem Leads.unique (hx : Leads chainHeight l x) (hy : Leads chainHeight l y) : x = y := by
  by_contra hne
  exact outpolls_asymm (hx.outpolls y hy.mem hy.inRange (Ne.symm hne)) (hy.outpolls x hx.mem hx.inRange hne)

theorem Leads.not_unvoted (hx : Leads chainHeight l x) : ¬Unvoted chainHeight l := by
  intro h
  have := h x hx.mem hx.inRange
  have := hx.voted
  omega

/-- What the loop keeps of the budgets it has seen. -/
theorem foldl_keepHighest_spec (hl : l.Pairwise fun a b => compare a.1 b.1 = .lt) :
    (l.foldl (keepHighest chainHeight) none).elim (Unvoted chainHeight l) (Leads chainHeight l) := by
  induction l using List.reverseRecOn with
  | nil => exact fun y hy => absurd hy List.not_mem_nil
  | append_singleton l z ih =>
    obtain ⟨hl, -, hz⟩ := List.pairwise_append.mp hl
    have hz : ∀ y ∈ l, compare y.1 z.1 = .lt := fun y hy => hz y hy z (List.mem_singleton_self z)
    have hmem : ∀ y, y ∈ l ++ [z] ↔ y ∈ l ∨ y = z := by simp
    have ih := ih hl
    rw [List.foldl_append, List.foldl_cons, List.foldl_nil]
    cases hbest : l.foldl (keepHighest chainHeight) none with
    | none =>
      rw [hbest] at ih
      unfold keepHighest
      split_ifs with hvote
      · refine ⟨by simp, hvote.2, hvote.1, fun y hy hin hne => .inl ?_⟩
        rw [ih y (((hmem y).mp hy).resolve_right hne) hin]
        exact hvote.1
      · intro y hy hin
        obtain hy | rfl := (hmem y).mp hy
        · exact ih y hy hin
        · by_contra hpos
          exact hvote ⟨Nat.pos_of_ne_zero hpos, hin⟩
    | some x =>
      rw [hbest] at ih
      have hx : Leads chainHeight l x := ih
      unfold keepHighest
      split_ifs with hvote
      · have hmore : x.2.getVoteCount < z.2.getVoteCount := hvote.1
        refine ⟨by simp, hvote.2, by omega, fun y hy hin hne => .inl ?_⟩
        by_cases hyx : y = x
        · rw [hyx]
          exact hmore
        · obtain hlt | ⟨heq, -⟩ := hx.outpolls y (((hmem y).mp hy).resolve_right hne) hin hyx
          · omega
          · omega
      · refine ⟨(hmem x).mpr (.inl hx.mem), hx.inRange, hx.voted, fun y hy hin hne => ?_⟩
        obtain hy | rfl := (hmem y).mp hy
        · exact hx.outpolls y hy hin hne
        · have hle : y.2.getVoteCount ≤ x.2.getVoteCount := not_lt.mp fun hlt => hvote ⟨hlt, hin⟩
          obtain hlt | heq := Nat.lt_or_eq_of_le hle
          · exact .inl hlt
          · exact .inr ⟨heq, hz x hx.mem⟩

variable (s chainHeight) in
theorem highest_spec : (s.highest chainHeight).elim (Unvoted chainHeight s.mapFinalizedBudgets.toList)
    (Leads chainHeight s.mapFinalizedBudgets.toList) :=
  foldl_keepHighest_spec Std.ExtTreeMap.ordered_keys_toList

theorem highest_eq_some : s.highest chainHeight = some x ↔ Leads chainHeight s.mapFinalizedBudgets.toList x := by
  have hspec := highest_spec s chainHeight
  cases h : s.highest chainHeight with
  | none =>
    rw [h] at hspec
    exact ⟨fun hsome => (by cases hsome), fun hx => absurd hspec hx.not_unvoted⟩
  | some y =>
    rw [h] at hspec
    rw [Option.some.injEq]
    exact ⟨fun hyx => hyx ▸ hspec, Leads.unique hspec⟩

theorem highest_eq_none : s.highest chainHeight = none ↔ Unvoted chainHeight s.mapFinalizedBudgets.toList := by
  have hspec := highest_spec s chainHeight
  cases h : s.highest chainHeight with
  | none =>
    rw [h] at hspec
    exact ⟨fun _ => hspec, fun _ => rfl⟩
  | some x =>
    rw [h] at hspec
    exact ⟨fun hnone => (by cases hnone), fun hun => absurd hun (Leads.not_unvoted hspec)⟩

/-! ## The influence of invalid votes -/

/-- Without the invalid votes the same budget is chosen, and a budget is paid all the same. -/
def Uninfluenced (s : BudgetPoll) (chainHeight : Int) : Prop :=
  (s.highest chainHeight).map Prod.fst = (s.validOnly.highest chainHeight).map Prod.fst ∧
    s.manager.isBudgetPaymentBlock chainHeight = s.validOnly.manager.isBudgetPaymentBlock chainHeight

theorem mem_validOnly : x ∈ s.validOnly.mapFinalizedBudgets.toList ↔
    ∃ b, (x.1, b) ∈ s.mapFinalizedBudgets.toList ∧ b.validOnly = x.2 := by
  rw [validOnly, Std.ExtTreeMap.toList_map, List.mem_map]
  grind

theorem Unvoted.validOnly (h : Unvoted chainHeight s.mapFinalizedBudgets.toList) :
    Unvoted chainHeight s.validOnly.mapFinalizedBudgets.toList := by
  rintro ⟨k, b⟩ hy hin
  obtain ⟨b, hb, rfl⟩ := mem_validOnly.mp hy
  exact Nat.le_zero.mp ((b.validOnly_getVoteCount_le).trans (h (k, b) hb hin).le)

/-- **Invalid votes.** The votes that are marked invalid have no influence if and only if no budget of the payment block
has a vote, or its first budget by votes is also the first by valid votes, and above five percent of the enabled nodes
with these if with all. -/
theorem invalid_votes_iff (s : BudgetPoll) (chainHeight : Int) : Uninfluenced s chainHeight ↔
    Unvoted chainHeight s.mapFinalizedBudgets.toList ∨
      ∃ k b, Leads chainHeight s.mapFinalizedBudgets.toList (k, b) ∧
        Leads chainHeight s.validOnly.mapFinalizedBudgets.toList (k, b.validOnly) ∧
        (s.countEnabled / 20 < b.getVoteCount → s.countEnabled / 20 < b.validOnly.getVoteCount) := by
  rw [Uninfluenced, isBudgetPaymentBlock_eq, isBudgetPaymentBlock_eq]
  constructor
  · rintro ⟨hsame, hpaid⟩
    cases h : s.highest chainHeight with
    | none => exact .inl (highest_eq_none.mp h)
    | some x =>
      obtain ⟨k, b⟩ := x
      rw [h] at hsame hpaid
      obtain ⟨⟨k', b'⟩, hvalid, rfl⟩ := Option.map_eq_some_iff.mp hsame.symm
      have hleads := highest_eq_some.mp h
      have hleads' := highest_eq_some.mp hvalid
      -- a hash has one budget
      obtain ⟨b₀, hb₀, hb'⟩ := mem_validOnly.mp hleads'.mem
      have hget := FinMap.mem_toList.mp hleads.mem
      rw [FinMap.mem_toList.mp hb₀] at hget
      cases hget
      subst hb'
      rw [hvalid, Option.any_some, Option.any_some, decide_eq_decide] at hpaid
      exact .inr ⟨k', b, hleads, hleads', hpaid.mp⟩
  · rintro (hun | ⟨k, b, hleads, hleads', hpaid⟩)
    · rw [highest_eq_none.mpr hun, highest_eq_none.mpr hun.validOnly]
      exact ⟨rfl, rfl⟩
    · rw [highest_eq_some.mpr hleads, highest_eq_some.mpr hleads']
      refine ⟨rfl, decide_eq_decide.mpr ⟨hpaid, fun hlt => lt_of_lt_of_le hlt b.validOnly_getVoteCount_le⟩⟩

/-- Two nodes vote for one budget and are removed, a third votes for another one: the first budget is chosen, and paid
though the valid votes reach no more than five percent. -/
theorem removed_nodes_decide :
    let votes (ns : List (BitVec 32)) : FinMap COutPoint Bool := ns.foldl (fun m n => m.insert ⟨0, n⟩ true) ∅
    let budgets := ((∅ : FinMap uint256 VotedBudget).insert 1 ⟨100, [⟨1, [], COIN⟩], votes [1, 2]⟩).insert 2
      ⟨100, [⟨2, [], COIN⟩], votes [3]⟩
    let nodes : SigningNodes Bytes := { find := fun o => if o.n = 1 ∨ o.n = 2 then none else some ⟨0, true⟩ }
    let s := BudgetPoll.removeStaleVotes ⟨budgets, 20⟩ nodes
    (s.highest 100).map Prod.fst = some 1 ∧ (s.validOnly.highest 100).map Prod.fst = some 2 ∧
      s.manager.isBudgetPaymentBlock 100 = true ∧ s.validOnly.manager.isBudgetPaymentBlock 100 = false ∧
      ¬Uninfluenced s 100 := by
  unfold Uninfluenced
  decide +kernel

end BudgetPoll

end TrumpCoin
