import TrumpCoin.Consensus

/-!
# Chain navigation

`CBlockIndex::GetAncestor` with the skip pointers of `BuildSkip`, and the chains of `chain.cpp`.

* `ancestorLoop_eq`: the walk over the skip pointers ends where the walk over `pprev` does;
* `getElem?_setLoop`: `SetTip` may stop at the first slot that is right, as those below it are of the same chain;
* `chain_navigation`: the results for every index that `AddToBlockIndex` builds.
-/

namespace TrumpCoin

open Lib

/-! ## Chains by their tip -/

namespace CBlockIndex

/-- `CChain::operator[]` of the chain that ends at a block. -/
def at? : CBlockIndex → Nat → Option CBlockIndex
  | genesis hash, nHeight => if nHeight = 0 then some (genesis hash) else none
  | child pprev hash, nHeight => if nHeight = pprev.nHeight + 1 then some (child pprev hash) else pprev.at? nHeight

/-- `CChain::Contains` of the chain that ends at a block. -/
def contains (tip pindex : CBlockIndex) : Bool := tip.at? pindex.nHeight == some pindex

theorem nHeight_of_at? : ∀ {tip pindex : CBlockIndex} {nHeight : Nat}, tip.at? nHeight = some pindex →
    pindex.nHeight = nHeight ∧ nHeight ≤ tip.nHeight
  | genesis _, pindex, nHeight, h => by
    unfold at? at h
    split at h
    · rename_i hzero
      cases h
      exact ⟨hzero.symm, Nat.le_of_eq hzero⟩
    · cases h
  | child pprev _, pindex, nHeight, h => by
    unfold at? at h
    split_ifs at h with heq
    · cases h
      exact ⟨heq.symm, Nat.le_of_eq heq⟩
    · obtain ⟨hpindex, hle⟩ := nHeight_of_at? h
      exact ⟨hpindex, Nat.le_succ_of_le hle⟩

theorem contains_self (tip : CBlockIndex) : tip.contains tip = true := by
  cases tip <;> simp [contains, at?, nHeight]

theorem contains_child {pprev pindex : CBlockIndex} {hash : uint256} :
    (child pprev hash).contains pindex = true ↔ pindex = child pprev hash ∨ pprev.contains pindex = true := by
  have hat : (child pprev hash).at? pindex.nHeight =
      if pindex.nHeight = pprev.nHeight + 1 then some (child pprev hash) else pprev.at? pindex.nHeight := rfl
  simp only [contains, beq_iff_eq, hat]
  split_ifs with hheight
  · constructor
    · intro h
      exact .inl (Option.some.inj h).symm
    · rintro (h | h)
      · rw [h]
      · have := (nHeight_of_at? h).2
        omega
  · constructor
    · exact .inr
    · rintro (rfl | h)
      · exact (hheight rfl).elim
      · exact h

end CBlockIndex

/-! ## Skip pointers -/

def invertLowestOne (n : Nat) : Nat := n &&& (n - 1)

def getSkipHeight (height : Nat) : Nat :=
  if height < 2 then 0
  else if height % 2 = 1 then invertLowestOne (invertLowestOne (height - 1)) + 1
  else invertLowestOne height

theorem getSkipHeight_lt {height : Nat} (h : 0 < height) : getSkipHeight height < height := by
  have hle : ∀ n, invertLowestOne n ≤ n - 1 := fun n => Nat.and_le_right
  have hone := hle (height - 1)
  have htwo := hle (invertLowestOne (height - 1))
  have hskip := hle height
  unfold getSkipHeight
  split_ifs <;> omega

section Index

variable (pskip : CBlockIndex → Option CBlockIndex)

/-- The loop of `GetAncestor`. -/
def ancestorLoop (height : Nat) (pindexWalk : Option CBlockIndex) (heightWalk : Nat) : Result (Option CBlockIndex) :=
  if height < heightWalk then
    match pindexWalk with
    | none => .error (.nullDeref "GetAncestor: pindexWalk")
    | some walk =>
      let heightSkip := getSkipHeight heightWalk
      let heightSkipPrev := getSkipHeight (heightWalk - 1)
      if heightSkip = height ∨
          height < heightSkip ∧ ¬(heightSkipPrev + 2 < heightSkip ∧ height ≤ heightSkipPrev) then
        ancestorLoop height (pskip walk) heightSkip
      else match walk with
        | .genesis _ => .error (.assertFailure "GetAncestor: pindexWalk->pprev")
        | .child pprev _ => ancestorLoop height (some pprev) (heightWalk - 1)
  else .ok pindexWalk
termination_by heightWalk
decreasing_by
  · exact getSkipHeight_lt (by omega)
  · omega

def getAncestor (pindex : CBlockIndex) (height : Int) : Result (Option CBlockIndex) :=
  if pindex.nHeight < height ∨ height < 0 then .ok none
  else ancestorLoop pskip height.toNat (some pindex) pindex.nHeight

/-- The first step of `FindFork` and of `LastCommonAncestor`. -/
def lowerTo (pindex : CBlockIndex) (height : Int) : Result (Option CBlockIndex) :=
  if height < pindex.nHeight then getAncestor pskip pindex height else .ok (some pindex)

end Index

structure BlockLink where
  hash : uint256
  hashPrevBlock : uint256
  /-- so that the new entry is not found as its own predecessor -/
  prev_ne : hashPrevBlock ≠ hash

structure SkipIndex where
  mapBlockIndex : FinMap uint256 CBlockIndex := ∅
  pskip : CBlockIndex → Option CBlockIndex := fun _ => none

/-- `AddToBlockIndex` with `BuildSkip`. -/
def SkipIndex.addToBlockIndex (t : SkipIndex) (block : BlockLink) : Result SkipIndex :=
  match t.mapBlockIndex[block.hash]? with
  | some _ => .ok t
  | none =>
    match t.mapBlockIndex[block.hashPrevBlock]? with
    | none => .ok { t with mapBlockIndex := t.mapBlockIndex.insert block.hash (.genesis block.hash) }
    | some pprev => do
      let pskip ← getAncestor t.pskip pprev (getSkipHeight (pprev.nHeight + 1))
      return ⟨t.mapBlockIndex.insert block.hash (.child pprev block.hash),
        Function.update t.pskip (.child pprev block.hash) pskip⟩

/-! ## Chains -/

/-- `CChain` -/
abbrev VChain := List (Option CBlockIndex)

namespace VChain

variable (vChain : VChain)

def contains (pindex : CBlockIndex) : Bool := vChain[pindex.nHeight]? == some (some pindex)

def resize (n : Nat) : VChain := (List.range n).map fun i => (vChain[i]?).join

/-- The loop of `SetTip`. -/
def setLoop (pindex : CBlockIndex) (vChain : VChain) : VChain :=
  if vChain.contains pindex then vChain
  else match pindex with
    | .genesis _ => vChain.set pindex.nHeight (some pindex)
    | .child pprev _ => setLoop pprev (vChain.set pindex.nHeight (some pindex))

def setTip : Option CBlockIndex → VChain
  | none => []
  | some pindex => setLoop pindex (vChain.resize (pindex.nHeight + 1))

/-- The loop of `FindFork`. -/
def forkLoop (pindex : CBlockIndex) : Option CBlockIndex :=
  if vChain.contains pindex then some pindex
  else match pindex with
    | .genesis _ => none
    | .child pprev _ => forkLoop pprev

def findFork (pskip : CBlockIndex → Option CBlockIndex) : Option CBlockIndex → Result (Option CBlockIndex)
  | none => .ok none
  | some pindex => do
    let pindex ← lowerTo pskip pindex (vChain.length - 1 : Int)
    return pindex.bind vChain.forkLoop

end VChain

def CBlockIndex.pprev : CBlockIndex → Option CBlockIndex
  | genesis _ => none
  | child pprev _ => some pprev

/-- The loop of `LastCommonAncestor`. -/
def meetLoop (pa : CBlockIndex) (pb : Option CBlockIndex) : Option CBlockIndex × Option CBlockIndex :=
  if some pa = pb ∨ pb = none then (some pa, pb)
  else match pa with
    | .genesis _ => (none, pb.bind CBlockIndex.pprev)
    | .child pprev _ => meetLoop pprev (pb.bind CBlockIndex.pprev)

def lastCommonAncestor (pskip : CBlockIndex → Option CBlockIndex) (pa pb : CBlockIndex) :
    Result (Option CBlockIndex) := do
  let a ← lowerTo pskip pa pb.nHeight
  let b ← lowerTo pskip pb pa.nHeight
  let met := a.elim (none, b) fun a => meetLoop a b
  require (.assertFailure "LastCommonAncestor: pa == pb") (met.1 = met.2)
  return met.1

/-! ## Ancestors -/

namespace CBlockIndex

variable {tip i j : CBlockIndex} {height : Nat}

theorem at?_self (tip : CBlockIndex) : tip.at? tip.nHeight = some tip := beq_iff_eq.mp (contains_self tip)

theorem at?_eq_none (h : tip.nHeight < height) : tip.at? height = none :=
  Option.eq_none_iff_forall_ne_some.mpr fun _ hi => Nat.not_lt.mpr (nHeight_of_at? hi).2 h

theorem nHeight_le_of_contains (h : tip.contains i = true) : i.nHeight ≤ tip.nHeight :=
  (nHeight_of_at? (beq_iff_eq.mp h)).2

theorem at?_child_of_le {hash : uint256} (h : height ≤ tip.nHeight) : (child tip hash).at? height = tip.at? height := by
  rw [at?, if_neg (by omega)]

theorem exists_at? : ∀ {tip : CBlockIndex}, height ≤ tip.nHeight → ∃ i, tip.at? height = some i
  | genesis hash, h => ⟨genesis hash, if_pos (Nat.le_zero.mp h)⟩
  | child pprev hash, h => by
    by_cases heq : height = pprev.nHeight + 1
    · exact ⟨_, if_pos heq⟩
    · have hle : height ≤ pprev.nHeight := Nat.le_of_lt_succ (Nat.lt_of_le_of_ne h heq)
      rw [at?_child_of_le hle]
      exact exists_at? hle

/-- An ancestor has the same ancestors below itself. -/
theorem at?_of_at? {low : Nat} (hlow : low ≤ height) : ∀ {tip : CBlockIndex}, tip.at? height = some i →
    i.at? low = tip.at? low
  | genesis hash, h => by
    unfold at? at h
    split_ifs at h
    cases h
    rfl
  | child pprev hash, h => by
    rw [at?] at h
    split_ifs at h
    · cases h
      rfl
    · rw [at?_of_at? hlow h, at?_child_of_le (hlow.trans (nHeight_of_at? h).2)]

/-- The chain of an ancestor is the lower part of the chain. -/
theorem contains_of_at? (h : tip.at? height = some i) :
    i.contains j = true ↔ tip.contains j = true ∧ j.nHeight ≤ height := by
  have hheight := (nHeight_of_at? h).1
  constructor
  · intro hj
    have hle : j.nHeight ≤ height := hheight ▸ nHeight_le_of_contains hj
    rw [contains, ← at?_of_at? hle h]
    exact ⟨hj, hle⟩
  · rintro ⟨hj, hle⟩
    rw [contains, at?_of_at? hle h]
    exact hj

theorem contains_genesis {hash : uint256} : (genesis hash).contains i = true ↔ i = genesis hash := by
  cases i <;> simp [contains, at?, nHeight, @eq_comm _ hash]

end CBlockIndex

open CBlockIndex

/-! ## The walk over the skip pointers -/

section Linked

variable {pskip : CBlockIndex → Option CBlockIndex} {i pindex : CBlockIndex}

variable (pskip) in
/-- The skip pointers of the blocks of a chain are set. -/
def Linked (tip : CBlockIndex) : Prop :=
  ∀ pprev hash, tip.contains (.child pprev hash) = true →
    pskip (.child pprev hash) = pprev.at? (getSkipHeight (pprev.nHeight + 1))

theorem Linked.of_at? {tip : CBlockIndex} {height : Nat} (h : Linked pskip tip) (hi : tip.at? height = some i) :
    Linked pskip i := fun pprev hash hc => h pprev hash ((contains_of_at? hi).mp hc).1

theorem Linked.update {p : CBlockIndex} {hash : uint256} (h : Linked pskip i) :
    Linked (Function.update pskip (.child p hash) (p.at? (getSkipHeight (p.nHeight + 1)))) i := by
  intro pprev hash' hc
  by_cases heq : child pprev hash' = child p hash
  · cases heq
    rw [Function.update_self]
  · rw [Function.update_of_ne heq, h _ _ hc]

/-- The loop may follow `pskip` or `pprev`; it ends at the same ancestor. -/
theorem ancestorLoop_eq {height heightWalk : Nat} {walk : CBlockIndex} (hwalk : walk.nHeight = heightWalk)
    (hle : height ≤ heightWalk) (h : Linked pskip walk) :
    ancestorLoop pskip height (some walk) heightWalk = .ok (walk.at? height) := by
  induction heightWalk using Nat.strong_induction_on generalizing walk with
  | _ heightWalk ih =>
    unfold ancestorLoop
    split_ifs with hlt
    · cases walk with
      | genesis hash => exact absurd (hwalk ▸ hlt) (Nat.not_lt_zero _)
      | child pprev hash =>
        subst hwalk
        have hskip := getSkipHeight_lt (Nat.zero_lt_of_lt hlt)
        have hpprev : pprev.nHeight + 1 = (child pprev hash).nHeight := rfl
        dsimp only
        split_ifs with hfollow
        · obtain ⟨skip, hat⟩ := exists_at? (Nat.le_of_lt hskip)
          have hpskip : pskip (child pprev hash) = some skip := by
            rw [h _ _ (contains_self _), hpprev, ← hat, at?_child_of_le (by omega)]
          rw [hpskip, ih _ hskip (nHeight_of_at? hat).1 (by omega) (h.of_at? hat), at?_of_at? (by omega) hat]
        · have hat : (child pprev hash).at? pprev.nHeight = some pprev := by
            rw [at?_child_of_le le_rfl, at?_self]
          rw [ih _ (by omega) (by omega) (by omega) (h.of_at? hat), at?_child_of_le (by omega)]
    · obtain rfl : height = walk.nHeight := by omega
      rw [at?_self]

theorem Linked.getAncestor (h : Linked pskip pindex) (height : Int) : getAncestor pskip pindex height =
    .ok (if height < 0 then none else pindex.at? height.toNat) := by
  unfold TrumpCoin.getAncestor
  split_ifs with hrange hneg hneg
  · rfl
  · rw [at?_eq_none (by omega)]
  · omega
  · exact ancestorLoop_eq rfl (by omega) h

theorem Linked.lowerTo (h : Linked pskip pindex) (height : Nat) : ∃ i, lowerTo pskip pindex height = .ok (some i) ∧
    i.nHeight = min height pindex.nHeight ∧
      ∀ j, i.contains j = true ↔ pindex.contains j = true ∧ j.nHeight ≤ height := by
  unfold TrumpCoin.lowerTo
  split_ifs with hlow
  · obtain ⟨i, hi⟩ := exists_at? (Nat.le_of_lt (Int.ofNat_lt.mp hlow))
    refine ⟨i, by rw [h.getAncestor, if_neg (by omega), Int.toNat_natCast, hi], ?_, fun j => contains_of_at? hi⟩
    have := nHeight_of_at? hi
    omega
  · refine ⟨pindex, rfl, by omega, fun j => (and_iff_left_of_imp fun hj => ?_).symm⟩
    have := nHeight_le_of_contains hj
    omega

def SkipIndex.Sound (t : SkipIndex) : Prop :=
  ∀ (hash : uint256) pindex, t.mapBlockIndex[hash]? = some pindex → Linked t.pskip pindex

/-- `BuildSkip` sets the new entry right and disturbs no older one. -/
theorem SkipIndex.Sound.addToBlockIndex {t : SkipIndex} (h : t.Sound) (block : BlockLink) :
    Returns (t.addToBlockIndex block) SkipIndex.Sound := by
  unfold SkipIndex.addToBlockIndex
  split
  · exact h
  · split
    · refine FinMap.forall_insert h fun pprev hash hc => ?_
      cases contains_genesis.mp hc
    · rename_i pprev hpprev
      have hlinked := h _ _ hpprev
      rw [hlinked.getAncestor, if_neg (by omega), Int.toNat_natCast]
      refine FinMap.forall_insert (fun hash i hi => (h hash i hi).update) fun p hash hc => ?_
      rcases contains_child.mp hc with heq | hc
      · cases heq
        exact Function.update_self ..
      · exact hlinked.update p hash hc

end Linked

/-! ## The slots of a chain -/

namespace VChain

variable {vChain : VChain}

def Shows (vChain : VChain) (tip : Option CBlockIndex) : Prop :=
  ∀ height : Nat, vChain[height]? = (tip.bind fun tip => tip.at? height).map some

/-- The slots from a block down are those of one older chain, or empty: the loop may stop at the first that is right. -/
theorem getElem?_setLoop {old : Option CBlockIndex} {i : CBlockIndex}
    (hold : ∀ j ≤ i.nHeight, vChain[j]? = some (old.bind fun old => old.at? j)) (j : Nat) :
    (setLoop i vChain)[j]? = if j ≤ i.nHeight then some (i.at? j) else vChain[j]? := by
  have hlen : i.nHeight < vChain.length := (List.getElem?_eq_some_iff.mp (hold _ (Nat.le_refl _))).1
  fun_induction setLoop i vChain with
  | case1 i vChain hcontains =>
    split_ifs with hj
    · have hown := (hold _ (Nat.le_refl _)).symm.trans (beq_iff_eq.mp hcontains)
      obtain ⟨tip, rfl, htip⟩ := Option.bind_eq_some_iff.mp (Option.some.inj hown)
      rw [hold j hj, Option.bind_some, at?_of_at? hj htip]
    · rfl
  | case2 vChain hash => grind [at?, nHeight]
  | case3 vChain pprev hash _ ih =>
    rw [nHeight_child] at hold hlen ih ⊢
    rw [ih (fun j hj => by rw [List.getElem?_set_ne (by omega), hold j (by omega)]) (by rw [List.length_set]; omega)]
    grind [at?]

theorem Shows.setTip {old : Option CBlockIndex} (h : vChain.Shows old) (tip : Option CBlockIndex) :
    (vChain.setTip tip).Shows tip := by
  cases tip with
  | none => exact fun _ => rfl
  | some tip =>
    intro j
    have hold : ∀ j ≤ tip.nHeight, (vChain.resize (tip.nHeight + 1))[j]? = some (old.bind fun old => old.at? j) := by
      intro j hj
      rw [resize, List.getElem?_map, List.getElem?_range (by omega), Option.map_some, h j]
      cases old.bind fun old => old.at? j <;> rfl
    rw [VChain.setTip, getElem?_setLoop hold, Option.bind_some]
    split_ifs with hj
    · obtain ⟨i, hi⟩ := exists_at? hj
      rw [hi, Option.map_some]
    · rw [at?_eq_none (by omega), List.getElem?_eq_none (by simp [resize]; omega), Option.map_none]

/-- After any sequence of `SetTip` calls the vector shows the last tip. -/
theorem shows_foldl : ∀ {tips : List (Option CBlockIndex)} {vChain : VChain} {old : Option CBlockIndex},
    vChain.Shows old → (tips.foldl setTip vChain).Shows (tips.getLastD old)
  | [], _, _, h => h
  | tip :: tips, _, _, h => by
    rw [List.foldl_cons, List.getLastD_cons]
    exact shows_foldl (h.setTip tip)

end VChain

/-! ## The highest common block -/

section Common

/-- The block is on the chain that ends at `tip`. -/
def OnChainOf (tip : Option CBlockIndex) (i : CBlockIndex) : Prop := ∃ t ∈ tip, t.contains i = true

@[simp] theorem onChainOf_some {t i : CBlockIndex} : OnChainOf (some t) i ↔ t.contains i = true := by simp [OnChainOf]

@[simp] theorem not_onChainOf_none {i : CBlockIndex} : ¬OnChainOf none i := by simp [OnChainOf]

/-- The blocks that two chains have in common are `r` and its ancestors. -/
def HighestCommon (a b r : Option CBlockIndex) : Prop := ∀ i, OnChainOf a i ∧ OnChainOf b i ↔ OnChainOf r i

theorem highestCommon_self {tip pindex : CBlockIndex} (h : tip.contains pindex = true) :
    HighestCommon tip pindex pindex := fun i => by
  simpa using fun hi => ((contains_of_at? (beq_iff_eq.mp h)).mp hi).1

theorem forkLoop_highestCommon {vChain : VChain} {tip : CBlockIndex} (h : ∀ i, vChain.contains i = tip.contains i)
    (pindex : CBlockIndex) : HighestCommon tip pindex (vChain.forkLoop pindex) := by
  fun_induction vChain.forkLoop pindex with
  | case1 pindex hcontains => exact highestCommon_self (h pindex ▸ hcontains)
  | case2 hash hnot =>
    intro i
    simp only [onChainOf_some, contains_genesis, not_onChainOf_none]
    grind
  | case3 pprev hash hnot ih =>
    intro i
    rw [← ih i]
    simp only [onChainOf_some, contains_child]
    grind

/-- Two chains walked down in step meet at their highest common block. -/
theorem meetLoop_highestCommon : ∀ {pa pb : CBlockIndex}, pa.nHeight = pb.nHeight →
    ∃ r, meetLoop pa (some pb) = (r, r) ∧ HighestCommon pa pb r
  | pa, pb, h => by
    unfold meetLoop
    by_cases heq : pa = pb
    · subst heq
      exact ⟨some pa, if_pos (.inl rfl), highestCommon_self (contains_self pa)⟩
    · rw [if_neg (by simpa using heq)]
      match pa, pb with
      | .genesis hash, .genesis hash' =>
        refine ⟨none, rfl, fun i => ?_⟩
        simp only [onChainOf_some, contains_genesis, not_onChainOf_none]
        grind
      | .child pa hash, .child pb hash' =>
        obtain ⟨r, hr, hhighest⟩ := meetLoop_highestCommon (Nat.succ.inj h)
        refine ⟨r, hr, fun i => ?_⟩
        rw [← hhighest i]
        simp only [onChainOf_some, contains_child]
        have ha : ¬pa.contains (child pb hash') = true := fun hc =>
          Nat.not_succ_le_self _ (h.le.trans (nHeight_le_of_contains hc))
        have hb : ¬pb.contains (child pa hash) = true := fun hc =>
          Nat.not_succ_le_self _ (h.ge.trans (nHeight_le_of_contains hc))
        grind

variable {pskip : CBlockIndex → Option CBlockIndex}

theorem VChain.Shows.findFork {vChain : VChain} {tip : Option CBlockIndex} {pindex : CBlockIndex}
    (hshows : vChain.Shows tip) (h : Linked pskip pindex) :
    ∃ r, vChain.findFork pskip (some pindex) = .ok r ∧ HighestCommon tip pindex r := by
  unfold VChain.findFork
  dsimp only
  cases tip with
  | none =>
    obtain rfl : vChain = [] := List.ext_getElem? hshows
    refine ⟨none, ?_, fun i => by simp⟩
    rw [lowerTo, if_pos (by simp; omega), h.getAncestor]
    rfl
  | some tip =>
    have hlow : tip.nHeight < vChain.length := by
      have hslot := hshows tip.nHeight
      rw [Option.bind_some, at?_self] at hslot
      exact (List.getElem?_eq_some_iff.mp hslot).1
    have hhigh : vChain.length ≤ tip.nHeight + 1 := by
      rw [← List.getElem?_eq_none_iff, hshows, Option.bind_some, at?_eq_none (by omega)]
      rfl
    obtain ⟨i, hrun, -, hcontains⟩ := h.lowerTo tip.nHeight
    rw [show (vChain.length - 1 : Int) = tip.nHeight by omega, hrun]
    refine ⟨_, rfl, fun j => ?_⟩
    have hsame : ∀ j, vChain.contains j = tip.contains j := fun j => by
      rw [VChain.contains, hshows]
      simp [CBlockIndex.contains]
    rw [Option.bind_some, ← forkLoop_highestCommon hsame i j]
    simp only [onChainOf_some, hcontains]
    exact and_congr_right fun hj => (and_iff_left (nHeight_le_of_contains hj)).symm

theorem Linked.lastCommonAncestor {pa pb : CBlockIndex} (ha : Linked pskip pa) (hb : Linked pskip pb) :
    ∃ r, lastCommonAncestor pskip pa pb = .ok r ∧ HighestCommon pa pb r := by
  obtain ⟨a, hruna, hheighta, hcontainsa⟩ := ha.lowerTo pb.nHeight
  obtain ⟨b, hrunb, hheightb, hcontainsb⟩ := hb.lowerTo pa.nHeight
  obtain ⟨r, hmeet, hhighest⟩ := meetLoop_highestCommon (show a.nHeight = b.nHeight by omega)
  refine ⟨r, ?_, fun i => Iff.trans ?_ (hhighest i)⟩
  · unfold TrumpCoin.lastCommonAncestor
    rw [hruna, hrunb, ok_bind, ok_bind, Option.elim_some, hmeet]
    exact bind_eq_ok.mpr ⟨(), require_eq_ok.mpr rfl, rfl⟩
  · simp only [onChainOf_some, hcontainsa, hcontainsb]
    exact ⟨fun h => ⟨⟨h.1, nHeight_le_of_contains h.2⟩, h.2, nHeight_le_of_contains h.1⟩, fun h => ⟨h.1.1, h.2.1⟩⟩

end Common

/-- **Chain navigation.** In every index that is built block by block, `GetAncestor` is the walk along `pprev`; after
any calls of `SetTip` the slots are the ancestors of the last tip; `FindFork` and `LastCommonAncestor` find the highest
common block. -/
theorem chain_navigation (blocks : List BlockLink) :
    ∃ t, blocks.foldlM SkipIndex.addToBlockIndex {} = .ok t ∧
      (∀ (hash : uint256) pindex, t.mapBlockIndex[hash]? = some pindex → ∀ height, getAncestor t.pskip pindex height =
        .ok (if height < 0 then none else pindex.at? height.toNat)) ∧
      (∀ tips : List (Option CBlockIndex), (tips.foldl VChain.setTip []).Shows (tips.getLastD none) ∧
        ∀ (hash : uint256) pindex, t.mapBlockIndex[hash]? = some pindex →
          ∃ r, (tips.foldl VChain.setTip []).findFork t.pskip (some pindex) = .ok r ∧
            HighestCommon (tips.getLastD none) pindex r) ∧
      ∀ (hash hash' : uint256) pa pb, t.mapBlockIndex[hash]? = some pa → t.mapBlockIndex[hash']? = some pb →
        ∃ r, lastCommonAncestor t.pskip pa pb = .ok r ∧ HighestCommon pa pb r := by
  have hbuilt : Returns (blocks.foldlM SkipIndex.addToBlockIndex {}) SkipIndex.Sound :=
    .foldlM (I := fun _ (t : SkipIndex) => t.Sound) (fun _ block _ _ _ ht => ht.addToBlockIndex block)
      FinMap.forall_empty
  obtain ⟨t, hrun, hsound⟩ := hbuilt.exists_ok
  refine ⟨t, hrun, fun hash pindex hget => (hsound hash pindex hget).getAncestor, fun tips => ?_,
    fun hash hash' pa pb ha hb => (hsound hash pa ha).lastCommonAncestor (hsound hash' pb hb)⟩
  have hshows : (tips.foldl VChain.setTip []).Shows (tips.getLastD none) :=
    VChain.shows_foldl fun _ => rfl
  exact ⟨hshows, fun hash pindex hget => hshows.findFork (hsound hash pindex hget)⟩

end TrumpCoin
