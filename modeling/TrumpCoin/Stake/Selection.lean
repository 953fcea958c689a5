import TrumpCoin.Lib.Best
import TrumpCoin.Stake.Modifier

/-!
# The blocks that make a stake modifier

The rounds of `ComputeNextStakeModifier` (`legacy/stakemodifier.cpp`). A round looks through the candidates in the order
of their times, up to a limit that grows from round to round, and goes beyond the limit only while it has found none.

* `selectLoop_chosen`: a round finds a block as long as one is left;
* `selectRounds_chosen`: the rounds, one after the other;
* `computeNextStakeModifier_chosen`: the blocks of all rounds and the bits they give.
-/

namespace TrumpCoin

open Lib

namespace StakeEnv

/-! ## Candidates -/

def timeAndHash (p : StakeIndex) : Int × uint256 := (p.getBlockTime, p.getBlockHash)

/-- The blocks of `vSortedByTimestamp`. -/
def candidates (pindexPrev : StakeIndex) : List StakeIndex :=
  (pindexPrev.ancestors.takeWhile fun a => nSelectionIntervalStart pindexPrev ≤ a.getBlockTime).reverse.mergeSort
    fun a b => sortedByTimestamp (timeAndHash a) (timeAndHash b)

theorem candidatesSince_eq (start : Int) (l : List StakeIndex) :
    candidatesSince start l = (l.takeWhile fun a => start ≤ a.getBlockTime).map timeAndHash := by
  induction l with
  | nil => rfl
  | cons p ps ih =>
    rw [candidatesSince, List.takeWhile_cons]
    by_cases h : start ≤ p.getBlockTime
    · simp [h, ih, timeAndHash]
    · simp [h]

theorem map_candidates (p : StakeIndex) : (candidates p).map timeAndHash = vSortedByTimestamp p := by
  rw [candidates, List.map_mergeSort (s := sortedByTimestamp) fun _ _ _ _ => rfl, List.map_reverse, vSortedByTimestamp,
    candidatesSince_eq]

def Ordered (cs : List StakeIndex) : Prop :=
  cs.Pairwise fun a b => sortedByTimestamp (timeAndHash a) (timeAndHash b) = true

theorem candidates_ordered (p : StakeIndex) : Ordered (candidates p) := by
  refine List.pairwise_mergeSort (fun a b c => ?_) (fun a b => ?_) _
  · simp only [sortedByTimestamp]
    intro hab hbc
    split_ifs at hab hbc ⊢ <;> simp only [decide_eq_true_eq] at * <;> omega
  · simp only [sortedByTimestamp, Bool.or_eq_true]
    split_ifs <;> simp only [decide_eq_true_eq] <;> omega

theorem time_le_of_sortedByTimestamp {a b : StakeIndex}
    (h : sortedByTimestamp (timeAndHash a) (timeAndHash b) = true) : a.getBlockTime ≤ b.getBlockTime := by
  rw [sortedByTimestamp] at h
  split_ifs at h with heq
  · exact heq.le
  · exact (of_decide_eq_true h).le

variable {p : StakeIndex}

theorem nHeight_le_of_mem {a : StakeIndex} (h : a ∈ p.ancestors) : a.nHeight ≤ p.nHeight := by
  induction p with
  | root d => rw [List.mem_singleton.mp h]
  | child p d ih =>
    rcases List.mem_cons.mp h with rfl | h
    · exact le_rfl
    · exact (ih h).trans (Nat.le_succ _)

theorem ancestors_nodup (p : StakeIndex) : p.ancestors.Nodup := by
  induction p with
  | root d => exact List.nodup_singleton _
  | child p d ih =>
    refine List.nodup_cons.mpr ⟨fun h => ?_, ih⟩
    exact absurd (nHeight_le_of_mem h) (Nat.not_succ_le_self _)

theorem mem_candidates {a : StakeIndex} (h : a ∈ candidates p) : a ∈ p.ancestors := by
  rw [candidates, List.mem_mergeSort, List.mem_reverse] at h
  exact (List.takeWhile_sublist _).subset h

/-- Blocks that the index has under their hashes have different hashes. -/
theorem candidates_hashes_nodup {find : uint256 → Option StakeIndex}
    (hfind : ∀ a ∈ p.ancestors, find a.getBlockHash = some a) :
    ((candidates p).map StakeIndex.getBlockHash).Nodup := by
  refine List.Nodup.map_on (fun a ha b hb heq => ?_) ?_
  · have h := hfind a (mem_candidates ha)
    rw [heq, hfind b (mem_candidates hb)] at h
    exact (Option.some.inj h).symm
  · rw [candidates, (List.mergeSort_perm _ _).nodup_iff, List.nodup_reverse]
    exact (ancestors_nodup p).sublist (List.takeWhile_sublist _)

/-! ## One round -/

/-- Whether the hashes of proof-of-stake blocks count: the first candidate's height decides. -/
def modifierV2 (env : StakeEnv) (cs : List StakeIndex) : Bool :=
  cs.head?.any fun c => env.active c.nHeight .UPGRADE_POS_V2

/-- What a round may choose among `cs` when the blocks with the hashes `selected` were chosen before: the least by
selection hash up to the limit, or the first one if all that are left are beyond the limit. -/
structure Chosen (env : StakeEnv) (v2 : Bool) (cs : List StakeIndex) (selected : List uint256) (stop : Int)
    (prev : BitVec 64) (b : StakeIndex) : Prop where
  mem : b ∈ cs
  fresh : b.getBlockHash ∉ selected
  least : b.getBlockTime ≤ stop → ∀ c ∈ cs, c.getBlockHash ∉ selected → c.getBlockTime ≤ stop →
    env.hashSelection v2 prev b ≤ env.hashSelection v2 prev c
  first : stop < b.getBlockTime → ∀ c ∈ cs, c.getBlockHash ∉ selected →
    sortedByTimestamp (timeAndHash b) (timeAndHash c) = true

def lowerHash (env : StakeEnv) (v2 : Bool) (prev : BitVec 64) (a b : StakeIndex) : Bool :=
  env.hashSelection v2 prev a < env.hashSelection v2 prev b

section Round

variable (env : StakeEnv) (stop : Int) (prev : BitVec 64) (v2 : Bool) {find : uint256 → Option StakeIndex}
  {selected : List uint256} {cs : List StakeIndex}

variable (hfind : ∀ c ∈ cs, find c.getBlockHash = some c) (hcs : Ordered cs)
include hfind hcs

/-- The loop once it has found a block: it looks for a better one up to the limit. -/
theorem selectLoop_found (b : StakeIndex) :
    env.selectLoop find selected stop prev (cs.map timeAndHash) (some v2) (some (env.hashSelection v2 prev b, b)) =
      some (((cs.filter fun c => c.getBlockHash ∉ selected ∧ c.getBlockTime ≤ stop).foldl
        (keepBetter (env.lowerHash v2 prev)) (some b)).map fun c => (env.hashSelection v2 prev c, c)) := by
  induction cs generalizing b with
  | nil => rfl
  | cons a as ih =>
    obtain ⟨ha, has⟩ := List.pairwise_cons.mp hcs
    have hrest := ih (fun c hc => hfind c (List.mem_cons_of_mem _ hc)) has
    have hfound : find (timeAndHash a).2 = some a := hfind a List.mem_cons_self
    rw [List.map_cons, selectLoop, hfound]
    by_cases hstop : stop < a.getBlockTime
    · -- the loop ends here, and what follows is not earlier
      have hnil : (a :: as).filter (fun c => c.getBlockHash ∉ selected ∧ c.getBlockTime ≤ stop) = [] := by
        refine List.filter_eq_nil_iff.mpr fun c hc => ?_
        have hle : a.getBlockTime ≤ c.getBlockTime := by
          rcases List.mem_cons.mp hc with rfl | hc
          · exact le_rfl
          · exact time_le_of_sortedByTimestamp (ha c hc)
        simp only [decide_eq_true_eq, not_and, not_le]
        exact fun _ => hstop.trans_le hle
      rw [hnil]
      simp [hstop]
    · simp only [hstop, and_false, if_false, Option.getD_some, List.contains_iff_mem]
      by_cases hsel : a.getBlockHash ∈ selected
      · rw [if_pos hsel, hrest, List.filter_cons_of_neg (by simp [hsel])]
      · rw [if_neg hsel, List.filter_cons_of_pos (by simp [hsel, not_lt.mp hstop]), List.foldl_cons, betterOf, keepBetter,
          lowerHash]
        by_cases hlt : env.hashSelection v2 prev a < env.hashSelection v2 prev b <;> simp [hlt, hrest]

theorem selectLoop_chosen (hleft : ∃ c ∈ cs, c.getBlockHash ∉ selected) :
    ∃ b, env.selectLoop find selected stop prev (cs.map timeAndHash) (some v2) none =
      some (some (env.hashSelection v2 prev b, b)) ∧ Chosen env v2 cs selected stop prev b := by
  induction cs with
  | nil => obtain ⟨c, hc, _⟩ := hleft; cases hc
  | cons a as ih =>
    obtain ⟨ha, has⟩ := List.pairwise_cons.mp hcs
    have hfind' : ∀ c ∈ as, find c.getBlockHash = some c := fun c hc => hfind c (List.mem_cons_of_mem _ hc)
    have hfound : find (timeAndHash a).2 = some a := hfind a List.mem_cons_self
    rw [List.map_cons, selectLoop, hfound]
    simp only [Option.isSome_none, Bool.false_eq_true, false_and, if_false, Option.getD_some, List.contains_iff_mem]
    by_cases hsel : a.getBlockHash ∈ selected
    · have hskip : ∀ c ∈ a :: as, c.getBlockHash ∉ selected → c ∈ as := by
        intro c hc hnew
        refine (List.mem_cons.mp hc).resolve_left ?_
        rintro rfl
        exact hnew hsel
      obtain ⟨c, hc, hnew⟩ := hleft
      obtain ⟨b, hb, hch⟩ := ih hfind' has ⟨c, hskip c hc hnew, hnew⟩
      rw [if_pos hsel]
      exact ⟨b, hb, List.mem_cons_of_mem _ hch.mem, hch.fresh,
        fun h c hc hnew => hch.least h c (hskip c hc hnew) hnew,
        fun h c hc hnew => hch.first h c (hskip c hc hnew) hnew⟩
    · rw [if_neg hsel, betterOf, selectLoop_found env stop prev v2 hfind' has]
      set near := as.filter fun c => c.getBlockHash ∉ selected ∧ c.getBlockTime ≤ stop with hnear
      have hmem : ∀ c, c ∈ near ↔ c ∈ as ∧ c.getBlockHash ∉ selected ∧ c.getBlockTime ≤ stop := by simp [hnear]
      change ∃ b, some ((best (env.lowerHash v2 prev) (a :: near)).map _) = _ ∧ _
      cases hbest : best (env.lowerHash v2 prev) (a :: near) with
      | none => cases best_eq_none.mp hbest
      | some b =>
        have hleast := best_least (fun _ => by simp [lowerHash]) (fun _ _ _ => by simpa [lowerHash] using lt_trans) hbest
        simp only [lowerHash, decide_eq_false_iff_not, not_lt] at hleast
        refine ⟨b, rfl, ?_⟩
        rcases List.mem_cons.mp (best_mem hbest) with rfl | hb
        · refine ⟨List.mem_cons_self, hsel, fun _ c hc hnew htime => ?_, fun _ c hc _ => ?_⟩
          · rcases List.mem_cons.mp hc with rfl | hc
            · exact le_rfl
            · exact hleast c (List.mem_cons_of_mem _ ((hmem c).mpr ⟨hc, hnew, htime⟩))
          · rcases List.mem_cons.mp hc with rfl | hc
            · simp [sortedByTimestamp]
            · exact ha c hc
        · obtain ⟨hbas, hbnew, hbtime⟩ := (hmem b).mp hb
          refine ⟨List.mem_cons_of_mem _ hbas, hbnew, fun _ c hc hnew htime => ?_,
            fun h => absurd hbtime (not_le.mpr h)⟩
          rcases List.mem_cons.mp hc with rfl | hc
          · exact hleast c List.mem_cons_self
          · exact hleast c (List.mem_cons_of_mem _ ((hmem c).mpr ⟨hc, hnew, htime⟩))

theorem selectBlockFromCandidates_chosen (hleft : ∃ c ∈ cs, c.getBlockHash ∉ selected) :
    ∃ b, env.selectBlockFromCandidates find (cs.map timeAndHash) selected stop prev = some b ∧
      Chosen env (env.modifierV2 cs) cs selected stop prev b := by
  obtain ⟨b, hb, hch⟩ := selectLoop_chosen env stop prev (env.modifierV2 cs) hfind hcs hleft
  refine ⟨b, ?_, hch⟩
  -- the flag is that of the first candidate from the first pass on
  have hflag : env.selectLoop find selected stop prev (cs.map timeAndHash) none none =
      env.selectLoop find selected stop prev (cs.map timeAndHash) (some (env.modifierV2 cs)) none := by
    cases cs with
    | nil => rfl
    | cons a as =>
      have hfound : find (timeAndHash a).2 = some a := hfind a List.mem_cons_self
      simp [selectLoop, hfound, modifierV2]
  rw [selectBlockFromCandidates, hflag, hb]
  rfl

end Round

/-! ## All rounds -/

def intervalStop (start : Int) : Nat → Int
  | 0 => start
  | r + 1 => intervalStop start r + getStakeModifierSelectionIntervalSection r

/-- The rounds chose the blocks `bs`, one each, and made `new` of their bits. -/
structure Rounds (env : StakeEnv) (cs : List StakeIndex) (start : Int) (prev : BitVec 64) (bs : List StakeIndex)
    (new : BitVec 64) : Prop where
  chosen : ∀ r b, bs[r]? = some b →
    Chosen env (env.modifierV2 cs) cs ((bs.take r).map StakeIndex.getBlockHash) (intervalStop start (r + 1)) prev b
  bits : ∀ r < 64, new.getLsbD r = bs[r]?.any fun b => b.getStakeEntropyBit = 1

variable {env : StakeEnv} {find : uint256 → Option StakeIndex} {start : Int} {prev : BitVec 64} {cs : List StakeIndex}

theorem Rounds.concat {bs : List StakeIndex} {new : BitVec 64} (h : Rounds env cs start prev bs new) {b : StakeIndex}
    (hb : Chosen env (env.modifierV2 cs) cs (bs.map StakeIndex.getBlockHash).reverse (intervalStop start (bs.length + 1))
      prev b) :
    Rounds env cs start prev (bs ++ [b]) (new ||| BitVec.ofNat 64 b.getStakeEntropyBit <<< bs.length) := by
  refine ⟨fun r c hc => ?_, fun r hr => ?_⟩
  · rcases lt_trichotomy r bs.length with hlt | rfl | hgt
    · rw [List.getElem?_append_left hlt] at hc
      rw [List.take_append_of_le_length hlt.le]
      exact h.chosen r c hc
    · rw [List.getElem?_concat_length, Option.some.injEq] at hc
      subst hc
      rw [List.take_left]
      exact ⟨hb.mem, by simpa using hb.fresh, by simpa using hb.least, by simpa using hb.first⟩
    · rw [List.getElem?_eq_none (by simp; omega)] at hc
      cases hc
  · rw [BitVec.getLsbD_or, BitVec.getLsbD_shiftLeft, BitVec.getLsbD_ofNat, h.bits r hr]
    have hbit : b.getStakeEntropyBit < 2 := Nat.mod_lt _ Nat.two_pos
    rcases lt_trichotomy r bs.length with hlt | rfl | hgt
    · simp [List.getElem?_append_left hlt, hlt]
    · simp [hr, Nat.mod_eq_of_lt hbit]
    · have hzero : b.getStakeEntropyBit.testBit (r - bs.length) = false :=
        Nat.testBit_lt_two_pow (hbit.trans_le (Nat.le_self_pow (by omega) 2))
      rw [List.getElem?_eq_none hgt.le, List.getElem?_eq_none (by simp; omega), hzero]
      simp

theorem selectRounds_chosen (hfind : ∀ c ∈ cs, find c.getBlockHash = some c) (hcs : Ordered cs)
    (hnodup : (cs.map StakeIndex.getBlockHash).Nodup) :
    ∀ (n : Nat) (bs : List StakeIndex) (new : BitVec 64), bs.length + n ≤ cs.length → Rounds env cs start prev bs new →
      ∃ bs' new', env.selectRounds find (cs.map timeAndHash) prev n bs.length (intervalStop start bs.length)
          (bs.map StakeIndex.getBlockHash).reverse new = some new' ∧
        bs'.length = bs.length + n ∧ Rounds env cs start prev bs' new'
  | 0, bs, new, _, h => ⟨bs, new, rfl, rfl, h⟩
  | n + 1, bs, new, hlen, h => by
    have hleft : ∃ c ∈ cs, c.getBlockHash ∉ (bs.map StakeIndex.getBlockHash).reverse := by
      by_contra! hall
      have hsub : cs.map StakeIndex.getBlockHash ⊆ (bs.map StakeIndex.getBlockHash).reverse := by
        intro x hx
        obtain ⟨c, hc, rfl⟩ := List.mem_map.mp hx
        exact hall c hc
      have := (hnodup.subperm hsub).length_le
      simp only [List.length_map, List.length_reverse] at this
      omega
    obtain ⟨b, hb, hch⟩ := selectBlockFromCandidates_chosen env (intervalStop start (bs.length + 1)) prev hfind hcs
      hleft
    obtain ⟨bs', new', hrun, hlen', hrounds⟩ :=
      selectRounds_chosen hfind hcs hnodup n (bs ++ [b]) _ (by simp; omega) (h.concat hch)
    refine ⟨bs', new', ?_, by simp at hlen'; omega, hrounds⟩
    rw [intervalStop] at hb
    rw [selectRounds, hb, ← hrun]
    simp [intervalStop]

theorem lastGenerated_generated (h : ∃ a ∈ p.ancestors, a.data.fGeneratedStakeModifier = true) :
    (lastGenerated p).data.fGeneratedStakeModifier = true := by
  induction p with
  | root d =>
    obtain ⟨a, ha, hgen⟩ := h
    rw [List.mem_singleton.mp ha] at hgen
    exact hgen
  | child p d ih =>
    rw [lastGenerated]
    split
    · assumption
    · rename_i hd
      obtain ⟨a, ha, hgen⟩ := h
      rcases List.mem_cons.mp ha with rfl | ha
      · exact absurd hgen hd
      · exact ih ⟨a, ha, hgen⟩

/-- On a chain that the index holds and on which a modifier was generated, the modifier is kept within an interval of
`MODIFIER_INTERVAL`; after it every round chooses a block. -/
theorem computeNextStakeModifier_chosen (env : StakeEnv) (literalAddress : BitVec 64)
    (find : uint256 → Option StakeIndex) (p : StakeIndex) (hfind : ∀ a ∈ p.ancestors, find a.getBlockHash = some a)
    (hgen : ∃ a ∈ p.ancestors, a.data.fGeneratedStakeModifier = true) :
    if p.nHeight = 0 then env.computeNextStakeModifier literalAddress find p = (literalAddress, true)
    else if p.getBlockTime / MODIFIER_INTERVAL ≤ (lastGenerated p).getBlockTime / MODIFIER_INTERVAL then
      env.computeNextStakeModifier literalAddress find p = (env.getStakeModifierV1 (lastGenerated p), false)
    else
      ∃ bs new, env.computeNextStakeModifier literalAddress find p = (new, true) ∧
        bs.length = min 64 (candidates p).length ∧
        Rounds env (candidates p) (nSelectionIntervalStart p) (env.getStakeModifierV1 (lastGenerated p)) bs new := by
  have hcs : ∀ c ∈ candidates p, find c.getBlockHash = some c := fun c hc => hfind c (mem_candidates hc)
  simp only [computeNextStakeModifier, lastGenerated_generated hgen, Bool.not_true, Bool.false_eq_true, if_false,
    ← map_candidates, List.length_map]
  split_ifs with hpos hdue
  · rfl
  · rfl
  · have hstart : Rounds env (candidates p) (nSelectionIntervalStart p) (env.getStakeModifierV1 (lastGenerated p)) [] 0 :=
      ⟨fun r b hb => (by cases hb), fun r _ => by simp⟩
    obtain ⟨bs, new, hrun, hlen, hrounds⟩ := selectRounds_chosen hcs (candidates_ordered p)
      (candidates_hashes_nodup hfind) (min 64 (candidates p).length) [] 0 (by simp) hstart
    refine ⟨bs, new, ?_, by simpa using hlen, hrounds⟩
    simp only [List.length_nil, intervalStop, List.map_nil, List.reverse_nil] at hrun
    rw [hrun]

end StakeEnv

/-- A chain of three blocks, the second with a generated modifier. -/
def Sample.stakeChain : StakeIndex :=
  .child (.child (.root { hash := 1, nTime := 1000, fProofOfStake := false })
    { hash := 2, nTime := 1060, fProofOfStake := false, fGeneratedStakeModifier := true })
    { hash := 3, nTime := 1200, fProofOfStake := true }

open Sample in
theorem computeNextStakeModifier_chosen_three :
    ∃ bs new, stakeEnv.computeNextStakeModifier 0 (StakeEnv.lookup stakeChain) stakeChain = (new, true) ∧ bs.length = 3 ∧
      StakeEnv.Rounds stakeEnv (StakeEnv.candidates stakeChain) (StakeEnv.nSelectionIntervalStart stakeChain) 0 bs
        new := by
  have h := StakeEnv.computeNextStakeModifier_chosen stakeEnv 0 (StakeEnv.lookup stakeChain) stakeChain (by decide)
    (by decide)
  rw [if_neg (by decide), if_neg (by decide), StakeEnv.candidates, List.length_mergeSort] at h
  exact h

end TrumpCoin
