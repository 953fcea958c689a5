import TrumpCoin.Payments.BudgetSelection

/-!
# The allotted amounts

`nAllotted` of the stored proposals. `CBudgetManager::GetBudget` (`budget/budgetmanager.cpp`) is its only writer: it sets
the amount of a selected proposal and zero for a passing one that does not fit, and leaves it as it is otherwise. The
field is not serialized, and a new proposal has zero.

* `allot_selected`, `allot_get`: what the loop of `GetBudget` returns and writes;
* `bookkept_getBudget_iff`: when the amounts after a call are those of the proposals it returned;
* `allotment_iff`: when they are after every call of a run.
-/

namespace TrumpCoin

open Lib

structure StoredProposal extends VotedProposal where
  nAllotted : Int := 0

/-- `mapProposals`: a proposal is stored under its hash. -/
structure ProposalMap (k : MessageCrypto) where
  map : FinMap uint256 StoredProposal := ∅
  keyed : ∀ (h : uint256) p, map[h]? = some p → p.getHash k = h := by
    exact FinMap.forall_empty

namespace BudgetView

variable {D : Type} [Digest D] (k : MessageCrypto) (E : BudgetView D)

/-- `SetAllotted`, of the stored proposal that `p` is a copy of. -/
def setAllotted (m : FinMap uint256 StoredProposal) (p : VotedProposal) (nAllotted : Int) :
    FinMap uint256 StoredProposal :=
  m.insert (p.getHash k) { p with nAllotted := nAllotted }

/-- The loop of `GetBudget`, with what it returns and the stored proposals. -/
def allot : Int → List VotedProposal → FinMap uint256 StoredProposal →
    List StoredProposal × FinMap uint256 StoredProposal
  | _, [], m => ([], m)
  | nBudgetAllocated, p :: rest, m =>
    if E.passes p = true then
      if p.nAmount + nBudgetAllocated ≤ getTotalBudget E.toCChainParams E.nBlockStart then
        let (ret, m) := allot (nBudgetAllocated + p.nAmount) rest (setAllotted k m p p.nAmount)
        ({ p with nAllotted := p.nAmount } :: ret, m)
      else allot nBudgetAllocated rest (setAllotted k m p 0)
    else allot nBudgetAllocated rest m

def refreshed (m : FinMap uint256 StoredProposal) : FinMap uint256 StoredProposal :=
  m.map fun _ p => { p with toVotedProposal := E.removeStaleVotes p.toVotedProposal }

/-- The proposals in the order in which the loop takes them. -/
def ranked (S : RankSort) (m : FinMap uint256 StoredProposal) : List VotedProposal :=
  S.sort ((E.refreshed m).vals.map StoredProposal.toVotedProposal)

/-- `GetBudget`, with the stored proposals. -/
def getBudgetStored (S : RankSort) (m : FinMap uint256 StoredProposal) :
    List StoredProposal × FinMap uint256 StoredProposal :=
  if E.bestHeight ≤ 0 then ([], m) else E.allot k 0 (E.ranked S m) (E.refreshed m)

variable {k E} {a : Int} {l : List VotedProposal} {m : FinMap uint256 StoredProposal} {h : uint256} {p : VotedProposal}

theorem allot_selected : (E.allot k a l m).1.map StoredProposal.toVotedProposal = E.allocate a l := by
  induction l generalizing a m with
  | nil => rfl
  | cons q rest ih =>
    unfold allot allocate
    by_cases hpass : E.passes q = true
    · by_cases hfits : q.nAmount + a ≤ getTotalBudget E.toCChainParams E.nBlockStart
      · simp [hpass, hfits, ih]
      · simp [hpass, hfits, ih]
    · simp [hpass, ih]

theorem allot_get_skipped (hskip : ∀ p ∈ l, E.passes p = true → p.getHash k ≠ h) :
    (E.allot k a l m).2[h]? = m[h]? := by
  induction l generalizing a m with
  | nil => rfl
  | cons q rest ih =>
    have hrest : ∀ p ∈ rest, E.passes p = true → p.getHash k ≠ h :=
      fun p hp => hskip p (List.mem_cons_of_mem q hp)
    unfold allot
    by_cases hpass : E.passes q = true
    · have hne := hskip q List.mem_cons_self hpass
      rw [if_pos hpass]
      split
      · exact (ih hrest).trans (FinMap.get_insert_ne m _ hne)
      · exact (ih hrest).trans (FinMap.get_insert_ne m _ hne)
    · rw [if_neg hpass]
      exact ih hrest

/-- A passing proposal has its amount allotted if it is selected and nothing otherwise. -/
theorem allot_get (hnodup : (l.map fun q => q.getHash k).Nodup) (hp : p ∈ l) (hpass : E.passes p = true) :
    (E.allot k a l m).2[p.getHash k]? = some
      { p with nAllotted := if p.getHash k ∈ (E.allocate a l).map (fun q => q.getHash k) then p.nAmount else 0 } := by
  induction l generalizing a m with
  | nil => exact absurd hp List.not_mem_nil
  | cons q rest ih =>
    obtain ⟨hq, hnodup⟩ := List.nodup_cons.mp hnodup
    -- the rest of the loop neither writes nor selects the first proposal
    have hlater : ∀ p ∈ rest, E.passes p = true → p.getHash k ≠ q.getHash k :=
      fun p hp _ heq => hq (List.mem_map.mpr ⟨p, hp, heq⟩)
    have hunselected : ∀ b, q.getHash k ∉ (E.allocate b rest).map fun q => q.getHash k :=
      fun b hmem => hq (List.map_subset _ (E.allocate_sublist b rest).subset hmem)
    have hother : p ∈ rest → p.getHash k ≠ q.getHash k := fun hp heq => hq (List.mem_map.mpr ⟨p, hp, heq⟩)
    unfold allot allocate
    by_cases hqpass : E.passes q = true
    · by_cases hfits : q.nAmount + a ≤ getTotalBudget E.toCChainParams E.nBlockStart
      · simp only [hqpass, hfits, and_self, if_true]
        obtain rfl | hp := List.mem_cons.mp hp
        · exact (allot_get_skipped hlater).trans (by simp [setAllotted])
        · exact (ih hnodup hp).trans (by simp [hother hp])
      · simp only [hqpass, hfits, and_false, if_true, if_false]
        obtain rfl | hp := List.mem_cons.mp hp
        · exact (allot_get_skipped hlater).trans (by simp [setAllotted, hunselected])
        · exact ih hnodup hp
    · simp only [hqpass, false_and, if_false, Bool.false_eq_true]
      obtain rfl | hp := List.mem_cons.mp hp
      · exact absurd hpass hqpass
      · exact ih hnodup hp

/-! ## The amounts after a call -/

section Call

variable (S : RankSort) (s : ProposalMap k)

theorem refreshed_get : (E.refreshed m)[h]? =
    (m[h]?).map fun p => { p with toVotedProposal := E.removeStaleVotes p.toVotedProposal } :=
  Std.ExtTreeMap.getElem?_map

theorem refreshed_keyed {q : StoredProposal} (hq : (E.refreshed s.map)[h]? = some q) : q.getHash k = h := by
  rw [refreshed_get] at hq
  obtain ⟨p, hp, rfl⟩ := Option.map_eq_some_iff.mp hq
  exact s.keyed h p hp

theorem mem_ranked : p ∈ E.ranked S s.map ↔
    ∃ q, (E.refreshed s.map)[p.getHash k]? = some q ∧ q.toVotedProposal = p := by
  rw [ranked, (S.perm _).mem_iff, List.mem_map]
  constructor
  · rintro ⟨q, hq, rfl⟩
    obtain ⟨h, hget⟩ := FinMap.mem_vals.mp hq
    exact ⟨q, (refreshed_keyed s hget).symm ▸ hget, rfl⟩
  · rintro ⟨q, hq, rfl⟩
    exact ⟨q, FinMap.mem_vals.mpr ⟨_, hq⟩, rfl⟩

theorem nodup_ranked : ((E.ranked S s.map).map fun q => q.getHash k).Nodup := by
  refine (((S.perm _).map _).nodup_iff).mpr ?_
  rw [FinMap.vals, List.map_map, List.map_map]
  have hkeys : ∀ x ∈ (E.refreshed s.map).toList, x.2.getHash k = x.1 :=
    fun x hx => refreshed_keyed s (FinMap.mem_toList.mp hx)
  exact (List.map_congr_left hkeys).symm ▸ FinMap.nodup_keys _

variable {s} {p : StoredProposal}

/-- A stored proposal takes part in the loop, and no other one under its hash does. -/
theorem mem_ranked_iff (hp : s.map[h]? = some p) {q : VotedProposal} :
    q ∈ E.ranked S s.map ∧ q.getHash k = h ↔ q = E.removeStaleVotes p.toVotedProposal := by
  have hget : (E.refreshed s.map)[h]? = some { p with toVotedProposal := E.removeStaleVotes p.toVotedProposal } := by
    rw [refreshed_get, hp]
    rfl
  constructor
  · rintro ⟨hq, rfl⟩
    obtain ⟨q', hq', rfl⟩ := (mem_ranked S s).mp hq
    rw [hget] at hq'
    cases hq'
    rfl
  · rintro rfl
    have hhash : (E.removeStaleVotes p.toVotedProposal).getHash k = h := s.keyed h p hp
    exact ⟨(mem_ranked S s).mpr ⟨_, hhash ▸ hget, rfl⟩, hhash⟩

theorem not_selected (hp : s.map[h]? = some p) (hskip : E.passes (E.removeStaleVotes p.toVotedProposal) = false) :
    h ∉ (E.allocate 0 (E.ranked S s.map)).map fun q => q.getHash k := by
  intro hmem
  obtain ⟨q, hq, hh⟩ := List.mem_map.mp hmem
  have hpass := E.passes_of_mem_allocate hq
  rw [(mem_ranked_iff S hp).mp ⟨(E.allocate_sublist 0 _).subset hq, hh⟩, hskip] at hpass
  exact Bool.noConfusion hpass

theorem allot_ranked_get (hp : s.map[h]? = some p) :
    (E.allot k 0 (E.ranked S s.map) (E.refreshed s.map)).2[h]? = some
      { toVotedProposal := E.removeStaleVotes p.toVotedProposal
        nAllotted :=
          if E.passes (E.removeStaleVotes p.toVotedProposal) = true then
            if h ∈ (E.allocate 0 (E.ranked S s.map)).map (fun q => q.getHash k) then p.nAmount else 0
          else p.nAllotted } := by
  obtain ⟨hmem, hhash⟩ := (mem_ranked_iff (E := E) S hp).mpr rfl
  by_cases hpass : E.passes (E.removeStaleVotes p.toVotedProposal) = true
  · rw [if_pos hpass, ← hhash]
    exact allot_get (nodup_ranked S s) hmem hpass
  · rw [if_neg hpass, allot_get_skipped, refreshed_get, hp]
    · rfl
    · intro q hq hqpass hqh
      exact hpass ((mem_ranked_iff S hp).mp ⟨hq, hqh⟩ ▸ hqpass)

theorem allot_ranked_get_none (hnone : s.map[h]? = none) :
    (E.allot k 0 (E.ranked S s.map) (E.refreshed s.map)).2[h]? = none := by
  have hrefreshed : (E.refreshed s.map)[h]? = none := by rw [refreshed_get, hnone, Option.map_none]
  refine (allot_get_skipped fun q hq _ hqh => ?_).trans hrefreshed
  obtain ⟨q', hq', -⟩ := (mem_ranked S s).mp hq
  rw [hqh, hrefreshed] at hq'
  cases hq'

theorem getBudgetStored_keyed {q : StoredProposal} (hq : (E.getBudgetStored k S s.map).2[h]? = some q) :
    q.getHash k = h := by
  unfold getBudgetStored at hq
  split at hq
  · exact s.keyed h q hq
  · cases hp : s.map[h]? with
    | none =>
      rw [allot_ranked_get_none S hp] at hq
      cases hq
    | some p =>
      rw [allot_ranked_get S hp] at hq
      cases hq
      exact s.keyed h p hp

end Call

/-- `GetBudget`, with the stored proposals after it. -/
def getBudgetFrom (E : BudgetView D) (S : RankSort) (s : ProposalMap k) : List StoredProposal × ProposalMap k :=
  ((E.getBudgetStored k S s.map).1, ⟨(E.getBudgetStored k S s.map).2, fun _ _ => getBudgetStored_keyed S⟩)

/-- Every stored proposal has its amount allotted if its hash is among the given ones, and nothing otherwise. -/
def Bookkept (returned : List uint256) (m : FinMap uint256 StoredProposal) : Prop :=
  ∀ (h : uint256) p, m[h]? = some p → (h ∈ returned → p.nAllotted = p.nAmount) ∧ (h ∉ returned → p.nAllotted = 0)

/-- The hashes of the proposals that a call returns. -/
def returned (E : BudgetView D) (S : RankSort) (s : ProposalMap k) : List uint256 :=
  (E.getBudgetFrom S s).1.map fun q => q.getHash k

variable (E) in
/-- A call does not write `nAllotted` of the proposal. -/
def skips (p : StoredProposal) : Bool :=
  E.bestHeight ≤ 0 ∨ E.passes (E.removeStaleVotes p.toVotedProposal) = false

theorem returned_eq (E : BudgetView D) (S : RankSort) (s : ProposalMap k) (h0 : ¬E.bestHeight ≤ 0) :
    E.returned S s = (E.allocate 0 (E.ranked S s.map)).map fun q => q.getHash k := by
  show (E.getBudgetStored k S s.map).1.map (fun q => q.getHash k) = _
  rw [getBudgetStored, if_neg h0, ← allot_selected (k := k) (m := E.refreshed s.map), List.map_map]
  rfl

/-- After a call of `GetBudget` the stored proposals have the amounts that it allotted if and only if those that it
skips had nothing allotted before. -/
theorem bookkept_getBudget_iff (E : BudgetView D) (S : RankSort) (s : ProposalMap k) :
    Bookkept (E.returned S s) (E.getBudgetFrom S s).2.map ↔
      ∀ (h : uint256) p, s.map[h]? = some p → E.skips p = true → p.nAllotted = 0 := by
  unfold Bookkept skips
  by_cases h0 : E.bestHeight ≤ 0
  · simp [returned, getBudgetFrom, getBudgetStored, h0]
  · have hmap : (E.getBudgetFrom S s).2.map = (E.allot k 0 (E.ranked S s.map) (E.refreshed s.map)).2 := by
      simp only [getBudgetFrom, getBudgetStored, if_neg h0]
    rw [returned_eq E S s h0, hmap]
    constructor
    · intro hbook h p hp hskip
      have hskip : E.passes (E.removeStaleVotes p.toVotedProposal) = false := by simpa [h0] using hskip
      have := (hbook h _ (allot_ranked_get S hp)).2 (not_selected S hp hskip)
      rwa [hskip, if_neg Bool.false_ne_true] at this
    · intro hfresh h p' hp'
      cases hp : s.map[h]? with
      | none =>
        rw [allot_ranked_get_none S hp] at hp'
        cases hp'
      | some p =>
        rw [allot_ranked_get S hp] at hp'
        cases hp'
        by_cases hpass : E.passes (E.removeStaleVotes p.toVotedProposal) = true
        · rw [if_pos hpass]
          exact ⟨fun hmem => if_pos hmem, fun hmem => if_neg hmem⟩
        · have hskip := Bool.eq_false_iff.mpr hpass
          rw [if_neg hpass]
          exact ⟨fun hmem => (not_selected S hp hskip hmem).elim, fun _ => hfresh h p hp (by simp [hskip])⟩

/-- A call keeps the stored proposals with their amounts, and returns stored ones. -/
theorem getBudgetFrom_get (E : BudgetView D) (S : RankSort) (s : ProposalMap k) (h : uint256) :
    ((E.getBudgetFrom S s).2.map[h]?).map (fun p => p.nAmount) = (s.map[h]?).map fun p => p.nAmount := by
  simp only [getBudgetFrom, getBudgetStored]
  split
  · rfl
  · cases hp : s.map[h]? with
    | none => rw [allot_ranked_get_none S hp]
    | some p => rw [allot_ranked_get S hp]; rfl

theorem isSome_of_mem_returned {E : BudgetView D} {S : RankSort} {s : ProposalMap k} {h : uint256}
    (hmem : h ∈ E.returned S s) : (s.map[h]?).isSome = true := by
  by_cases h0 : E.bestHeight ≤ 0
  · simp [returned, getBudgetFrom, getBudgetStored, h0] at hmem
  · rw [returned_eq E S s h0] at hmem
    obtain ⟨q, hq, rfl⟩ := List.mem_map.mp hmem
    obtain ⟨q', hq', -⟩ := (mem_ranked S s).mp ((E.allocate_sublist 0 _).subset hq)
    rw [refreshed_get] at hq'
    obtain ⟨p, hp, -⟩ := Option.map_eq_some_iff.mp hq'
    rw [hp]
    rfl

end BudgetView

/-! ## Runs -/

/-- What happens to the stored proposals. -/
inductive ProposalEvent (D : Type) [Digest D] where
  /-- `AddProposal`, of a proposal that passed `CheckAmount` -/
  | add (p : VotedProposal) (hamount : 10 * COIN ≤ p.nAmount)
  | remove (h : uint256)
  /-- votes come in and `UpdateValid` is called -/
  | update (fValid : uint256 → Bool) (mapVotes : uint256 → FinMap COutPoint CountedVote)
  | getBudget (E : BudgetView D) (S : RankSort)

namespace ProposalMap

open BudgetView

variable {k : MessageCrypto} {D : Type} [Digest D] (s : ProposalMap k)

def step : ProposalEvent D → ProposalMap k
  | .add p _ =>
    { map := s.map.emplace (p.getHash k) { p with }
      keyed := fun h q hq => by
        obtain hq | ⟨-, rfl, rfl⟩ := FinMap.get_emplace.mp hq
        · exact s.keyed h q hq
        · rfl }
  | .remove h => { map := s.map.erase h, keyed := FinMap.forall_erase s.keyed }
  | .update fValid mapVotes =>
    { map := s.map.map fun h p => { p with fValid := fValid h, mapVotes := mapVotes h }
      keyed := fun h q hq => by
        rw [Std.ExtTreeMap.getElem?_map] at hq
        obtain ⟨p, hp, rfl⟩ := Option.map_eq_some_iff.mp hq
        exact s.keyed h p hp }
  | .getBudget E S => (E.getBudgetFrom S s).2

/-- After every call of the run the amounts are those of the proposals that it returned. -/
def BookkeptAlong : ProposalMap k → List (ProposalEvent D) → Prop
  | _, [] => True
  | s, ev :: evs =>
    (∀ E S, ev = .getBudget E S → Bookkept (E.returned S s) (E.getBudgetFrom S s).2.map) ∧ BookkeptAlong (s.step ev) evs

/-- The proposals that the last call returned and that are stored since. -/
def held (last : List uint256) : ProposalEvent D → List uint256
  | .remove h => last.filter (· ≠ h)
  | .getBudget E S => E.returned S s
  | _ => last

/-- No call of the run skips a proposal that the call before returned and that is stored since. -/
def UnskippedAlong : ProposalMap k → List uint256 → List (ProposalEvent D) → Prop
  | _, _, [] => True
  | s, last, ev :: evs =>
    (∀ E S, ev = .getBudget E S → ∀ h ∈ last, ∀ p, s.map[h]? = some p → E.skips p = false) ∧
      UnskippedAlong (s.step ev) (s.held last ev) evs

/-- Between two calls: the amounts are those of the last one. -/
structure Allots (last : List uint256) (s : ProposalMap k) : Prop where
  book : Bookkept last s.map
  stored : ∀ h ∈ last, (s.map[h]?).isSome = true
  amount : ∀ (h : uint256) p, s.map[h]? = some p → p.nAmount ≠ 0

variable {s} {last : List uint256}

theorem Allots.skips_iff (hs : Allots last s) (E : BudgetView D) :
    (∀ (h : uint256) p, s.map[h]? = some p → E.skips p = true → p.nAllotted = 0) ↔
      ∀ h ∈ last, ∀ p, s.map[h]? = some p → E.skips p = false := by
  refine ⟨fun hfresh h hmem p hp => ?_, fun hno h p hp hskip => ?_⟩
  · by_contra hskip
    refine hs.amount h p hp ?_
    rw [← (hs.book h p hp).1 hmem]
    exact hfresh h p hp (by simpa using hskip)
  · refine (hs.book h p hp).2 fun hmem => ?_
    rw [hno h hmem p hp] at hskip
    cases hskip

/-- Every event keeps this, a call if it leaves the right amounts. -/
theorem Allots.step (hs : Allots last s) (ev : ProposalEvent D)
    (hcall : ∀ E S, ev = .getBudget E S → Bookkept (E.returned S s) (E.getBudgetFrom S s).2.map) :
    Allots (s.held last ev) (s.step ev) := by
  cases ev with
  | add p hamount =>
    refine ⟨fun h q hq => ?_, fun h hmem => ?_, fun h q hq => ?_⟩
    · obtain hq | ⟨hnone, rfl, rfl⟩ := FinMap.get_emplace.mp hq
      · exact hs.book h q hq
      · refine ⟨fun hmem => ?_, fun _ => rfl⟩
        have := hs.stored _ hmem
        rw [hnone] at this
        cases this
    · exact (FinMap.isSome_emplace ..).trans (by rw [hs.stored h hmem, Bool.or_true])
    · obtain hq | ⟨-, -, rfl⟩ := FinMap.get_emplace.mp hq
      · exact hs.amount h q hq
      · have : (0 : Int) < 10 * COIN := by decide
        show p.nAmount ≠ 0
        omega
  | remove h =>
    have hget : ∀ a, (s.step (D := D) (.remove h)).map[a]? = if h = a then none else s.map[a]? := fun a => FinMap.get_erase ..
    refine ⟨fun a q hq => ?_, fun a hmem => ?_, fun a q hq => ?_⟩
    · rw [hget] at hq
      split_ifs at hq with hne
      simpa [held, Ne.symm hne] using hs.book a q hq
    · obtain ⟨hmem, hne⟩ := List.mem_filter.mp hmem
      rw [hget, if_neg fun heq => by simp [heq] at hne]
      exact hs.stored a hmem
    · rw [hget] at hq
      split_ifs at hq
      exact hs.amount a q hq
  | update fValid mapVotes =>
    have hget : ∀ a, (s.step (D := D) (.update fValid mapVotes)).map[a]? = (s.map[a]?).map fun p : StoredProposal =>
        { p with fValid := fValid a, mapVotes := mapVotes a } := fun a => Std.ExtTreeMap.getElem?_map
    refine ⟨fun a q hq => ?_, fun a hmem => ?_, fun a q hq => ?_⟩
    · rw [hget] at hq
      obtain ⟨p, hp, rfl⟩ := Option.map_eq_some_iff.mp hq
      exact hs.book a p hp
    · rw [hget, Option.isSome_map]
      exact hs.stored a hmem
    · rw [hget] at hq
      obtain ⟨p, hp, rfl⟩ := Option.map_eq_some_iff.mp hq
      exact hs.amount a p hp
  | getBudget E S =>
    have hget := E.getBudgetFrom_get S s
    refine ⟨hcall E S rfl, fun h hmem => ?_, fun h q hq => ?_⟩
    · have hsome := isSome_of_mem_returned hmem
      rwa [← Option.isSome_map (f := fun p : StoredProposal => p.nAmount), ← hget, Option.isSome_map] at hsome
    · have hamount := hget h
      rw [show (E.getBudgetFrom S s).2.map[h]? = some q from hq] at hamount
      obtain ⟨p, hp, heq⟩ := Option.map_eq_some_iff.mp hamount.symm
      exact (show p.nAmount = q.nAmount from heq) ▸ hs.amount h p hp

theorem Allots.along_iff (hs : Allots last s) (evs : List (ProposalEvent D)) :
    BookkeptAlong s evs ↔ UnskippedAlong s last evs := by
  induction evs generalizing s last with
  | nil => exact Iff.rfl
  | cons ev evs ih =>
    unfold BookkeptAlong UnskippedAlong
    have hcall : (∀ E S, ev = .getBudget E S → Bookkept (E.returned S s) (E.getBudgetFrom S s).2.map) ↔
        ∀ E S, ev = .getBudget E S → ∀ h ∈ last, ∀ p, s.map[h]? = some p → E.skips p = false :=
      forall_congr' fun E => forall_congr' fun S => imp_congr_right fun _ =>
        (bookkept_getBudget_iff E S s).trans (hs.skips_iff E)
    rw [← hcall]
    exact and_congr_right fun hbook => ih (hs.step ev hbook)

/-- **Allotment.** In every run of calls of `GetBudget`, new and removed proposals and changes of votes in between, the
amounts after every call are those of the proposals that it returned, if and only if no call skips a proposal that the
call before returned and that is stored since. -/
theorem allotment_iff (evs : List (ProposalEvent D)) :
    BookkeptAlong ({} : ProposalMap k) evs ↔ UnskippedAlong ({} : ProposalMap k) [] evs := by
  have hempty : Allots [] ({} : ProposalMap k) := ⟨FinMap.forall_empty, nofun, FinMap.forall_empty⟩
  exact hempty.along_iff evs

/-- A proposal is selected, its node is removed, and it keeps the amount though the next call does not return it. -/
theorem allotment_kept :
    let k := Sample.messageCrypto
    let p := Sample.wholeBudget 1
    let removed : BudgetView Bytes := { Sample.budgetView with nodes := {} }
    let first := ({} : ProposalMap k).step (D := Bytes) (.add p (by decide))
    let second := first.step (.getBudget Sample.budgetView Sample.rankSort)
    Sample.budgetView.returned Sample.rankSort first = [p.getHash k] ∧
      removed.returned Sample.rankSort second = [] ∧
      (removed.getBudgetFrom Sample.rankSort second).2.map[p.getHash k]?.map StoredProposal.nAllotted =
        some (8640 * COIN) ∧
      ¬BookkeptAlong ({} : ProposalMap k) [.add p (by decide), .getBudget Sample.budgetView Sample.rankSort,
        .getBudget removed Sample.rankSort] := by
  intro k p removed first second
  have hkept : (removed.getBudgetFrom Sample.rankSort second).2.map[p.getHash k]?.map StoredProposal.nAllotted =
      some (8640 * COIN) := by decide +kernel
  have hnone : removed.returned Sample.rankSort second = [] := by decide +kernel
  refine ⟨by decide +kernel, hnone, hkept, ?_⟩
  rintro ⟨-, -, hlast, -⟩
  obtain ⟨q, hq, hallotted⟩ := Option.map_eq_some_iff.mp hkept
  have := (hlast removed Sample.rankSort rfl _ q hq).2 (by
    show _ ∉ removed.returned Sample.rankSort second
    rw [hnone]
    exact List.not_mem_nil)
  rw [hallotted] at this
  exact absurd this (by decide)

end ProposalMap

end TrumpCoin
