import TrumpCoin.Chainstate.BlockIndex

/-!
# Stake modifiers

`AddToBlockIndex` stores a stake modifier for every block but the genesis block: before `UPGRADE_V3_4` the 64 bits of
`ComputeNextStakeModifier` (`legacy/stakemodifier.cpp`), afterwards a hash of the staked output and the parent's
modifier (`chain.cpp`). The V1 modifier of the first block is `uint64_t("stakemodifier")`: the conversion of a string
literal, so the address at which the process has the literal.

* `computeNextStakeModifier_congr`: of the block map only the entries of the ancestors matter;
* `SameTree.foldlM`: the tree of every run is one of the block index;
* `newData_of_pos`: above the first block the address does not matter;
* `stake_modifiers_agree_iff`: when the modifiers of two runs agree.
-/

namespace TrumpCoin

open Lib

/-! ## Hashes as numbers -/

namespace uint256

/-- `GetCheapHash`: the first eight bytes. -/
def getCheapHash (h : uint256) : Nat := Codec.ofLE (((blob 32).write h).take 8)

/-- The hash with the given bytes; missing ones are zero. -/
def ofBytes (bs : Bytes) : uint256 := BitVec.ofNat 256 (Codec.ofLE (bs ++ List.replicate (32 - bs.length) 0).reverse)

end uint256

/-! ## Blocks and index entries -/

structure StakeBlock extends CBlock where
  hashPrevBlock : uint256

/-- `block.vtx[1]->vin[0].prevout.hash`; there is none if the block has no second transaction. -/
def StakeBlock.stakePrevout (b : StakeBlock) : Option uint256 := do
  let tx ← b.vtx[1]?
  let i ← tx.vin[0]?
  return i.prevout.hash

/-- The fields of `CBlockIndex` that the modifier code uses. `BLOCK_STAKE_ENTROPY` is set but never read. -/
structure StakeData where
  hash : uint256
  nTime : Nat
  fProofOfStake : Bool
  /-- `BLOCK_STAKE_MODIFIER` -/
  fGeneratedStakeModifier : Bool := false
  vStakeModifier : Bytes := []
deriving DecidableEq

/-- A `CBlockIndex` with the entries its `pprev` pointers lead to. -/
inductive StakeIndex where
  | root (data : StakeData)
  | child (pprev : StakeIndex) (data : StakeData)
deriving DecidableEq

namespace StakeIndex

def data : StakeIndex → StakeData
  | root d => d
  | child _ d => d

def nHeight : StakeIndex → Nat
  | root _ => 0
  | child p _ => p.nHeight + 1

def pprev : StakeIndex → Option StakeIndex
  | root _ => none
  | child p _ => some p

def ancestors : StakeIndex → List StakeIndex
  | root d => [root d]
  | child p d => child p d :: p.ancestors

def getBlockHash (p : StakeIndex) : uint256 := p.data.hash
def getBlockTime (p : StakeIndex) : Int := p.data.nTime
def getStakeEntropyBit (p : StakeIndex) : Nat := p.getBlockHash.getCheapHash % 2

end StakeIndex

/-- `mapBlockIndex`. -/
abbrev StakeMap := FinMap uint256 StakeIndex

/-- The network's parameters and genesis block and the function `Hash`. -/
structure StakeEnv where
  params : CChainParams
  genesis : StakeBlock
  hash : Bytes → uint256

namespace StakeEnv

variable (env : StakeEnv)

def active (nHeight : Nat) (idx : UpgradeIndex) : Bool := env.params.networkUpgradeActive nHeight idx

def getStakeModifierV1 (p : StakeIndex) : BitVec 64 :=
  if p.data.vStakeModifier.isEmpty || env.active p.nHeight .UPGRADE_V3_4 then 0
  else BitVec.ofNat 64 (Codec.ofLE p.data.vStakeModifier)

def getStakeModifierV2 (p : StakeIndex) : uint256 :=
  if p.data.vStakeModifier.isEmpty || !env.active p.nHeight .UPGRADE_V3_4 then 0
  else uint256.ofBytes p.data.vStakeModifier

/-! ## `legacy/stakemodifier.cpp` -/

def MODIFIER_INTERVAL : Nat := 60
def MODIFIER_INTERVAL_RATIO : Nat := 3
def OLD_MODIFIER_INTERVAL : Int := 2087

def getStakeModifierSelectionIntervalSection (nSection : Nat) : Nat :=
  MODIFIER_INTERVAL * 63 / (63 + (63 - nSection) * ( MODIFIER_INTERVAL_RATIO - 1))

/-- The number by which a candidate is chosen: the smaller the better. -/
def hashSelection (fModifierV2 : Bool) (nStakeModifierPrev : BitVec 64) (pindex : StakeIndex) : Nat :=
  let hashProof : uint256 :=
    if fModifierV2 then pindex.getBlockHash else if pindex.data.fProofOfStake then 0 else pindex.getBlockHash
  let h := (env.hash ((blob 32).write hashProof ++ Codec.leBytes 8 nStakeModifierPrev.toNat)).toArith
  if pindex.data.fProofOfStake then h >>> 32 else h

/-- The candidate that replaces the best one so far, if it does. -/
def betterOf (h : Nat) (pindex : StakeIndex) : Option (Nat × StakeIndex) → Nat × StakeIndex
  | some (hashBest, best) => if h < hashBest then (h, pindex) else (hashBest, best)
  | none => (h, pindex)

/-- The loop of `SelectBlockFromCandidates`. `fModifierV2` is unset before the first pass; `best` holds `hashBest` and
`pindexSelected` once `fSelected`. The loop stops with an error if a candidate is not in the map. -/
def selectLoop (find : uint256 → Option StakeIndex) (selected : List uint256) (nSelectionIntervalStop : Int)
    (nStakeModifierPrev : BitVec 64) :
    List (Int × uint256) → Option Bool → Option (Nat × StakeIndex) → Option (Option (Nat × StakeIndex))
  | [], _, best => some best
  | item :: rest, fModifierV2, best =>
    match find item.2 with
    | none => none
    | some pindex =>
      if best.isSome ∧ nSelectionIntervalStop < pindex.getBlockTime then some best
      else
        let v2 := fModifierV2.getD (env.active pindex.nHeight .UPGRADE_POS_V2)
        if selected.contains pindex.getBlockHash then
          selectLoop find selected nSelectionIntervalStop nStakeModifierPrev rest (some v2) best
        else
          selectLoop find selected nSelectionIntervalStop nStakeModifierPrev rest (some v2)
            (some (betterOf (env.hashSelection v2 nStakeModifierPrev pindex) pindex best))

def selectBlockFromCandidates (find : uint256 → Option StakeIndex) (vSortedByTimestamp : List (Int × uint256))
    (selected : List uint256) (nSelectionIntervalStop : Int) (nStakeModifierPrev : BitVec 64) : Option StakeIndex :=
  ((env.selectLoop find selected nSelectionIntervalStop nStakeModifierPrev vSortedByTimestamp none none).join).map
    Prod.snd

/-- The rounds of `ComputeNextStakeModifier`, `n` of them from round `nRound` on. -/
def selectRounds (find : uint256 → Option StakeIndex) (vSortedByTimestamp : List (Int × uint256))
    (nStakeModifier : BitVec 64) :
    (n nRound : Nat) → (nSelectionIntervalStop : Int) → (selected : List uint256) → BitVec 64 → Option (BitVec 64)
  | 0, _, _, _, nStakeModifierNew => some nStakeModifierNew
  | n + 1, nRound, nSelectionIntervalStop, selected, nStakeModifierNew =>
    let stop := nSelectionIntervalStop + getStakeModifierSelectionIntervalSection nRound
    match env.selectBlockFromCandidates find vSortedByTimestamp selected stop nStakeModifier with
    | none => none
    | some pindex =>
      selectRounds find vSortedByTimestamp nStakeModifier n (nRound + 1) stop (pindex.getBlockHash :: selected)
        (nStakeModifierNew ||| BitVec.ofNat 64 pindex.getStakeEntropyBit <<< nRound)

/-- The last entry with a generated modifier, or the genesis entry. -/
def lastGenerated : StakeIndex → StakeIndex
  | .root d => .root d
  | .child p d => if d.fGeneratedStakeModifier then .child p d else lastGenerated p

/-- The candidates: the last blocks that are not older than the start of the interval. -/
def candidatesSince (nSelectionIntervalStart : Int) : List StakeIndex → List (Int × uint256)
  | [] => []
  | p :: ps =>
    if nSelectionIntervalStart ≤ p.getBlockTime then
      (p.getBlockTime, p.getBlockHash) :: candidatesSince nSelectionIntervalStart ps
    else []

/-- `sortedByTimestamp`, as a weak order. -/
def sortedByTimestamp (a b : Int × uint256) : Bool :=
  if a.1 = b.1 then decide (a.2.toArith ≤ b.2.toArith) else decide (a.1 < b.1)

def nSelectionIntervalStart (pindexPrev : StakeIndex) : Int :=
  pindexPrev.getBlockTime / MODIFIER_INTERVAL * MODIFIER_INTERVAL - OLD_MODIFIER_INTERVAL

def vSortedByTimestamp (pindexPrev : StakeIndex) : List (Int × uint256) :=
  (candidatesSince (nSelectionIntervalStart pindexPrev) pindexPrev.ancestors).reverse.mergeSort sortedByTimestamp

/-- `ComputeNextStakeModifier`: the modifier and whether it is a new one. A failure is only logged; the caller then
uses the values that were set before. `literalAddress` is `uint64_t("stakemodifier")` in the running process. -/
def computeNextStakeModifier (literalAddress : BitVec 64) (find : uint256 → Option StakeIndex)
    (pindexPrev : StakeIndex) : BitVec 64 × Bool :=
  if pindexPrev.nHeight = 0 then (literalAddress, true)
  else
    let p := lastGenerated pindexPrev
    if !p.data.fGeneratedStakeModifier then (0, false)
    else
      let nStakeModifier := env.getStakeModifierV1 p
      if pindexPrev.getBlockTime / MODIFIER_INTERVAL ≤ p.getBlockTime / MODIFIER_INTERVAL then (nStakeModifier, false)
      else
        let candidates := vSortedByTimestamp pindexPrev
        match env.selectRounds find candidates nStakeModifier (min 64 candidates.length) 0
            (nSelectionIntervalStart pindexPrev) [] 0 with
        | none => (nStakeModifier, false)
        | some nStakeModifierNew => (nStakeModifierNew, true)

/-! ## `AddToBlockIndex` -/

def freshData (block : StakeBlock) : StakeData :=
  { hash := block.hash, nTime := block.nTime, fProofOfStake := block.isProofOfStake }

/-- The fields of a new entry after `SetNewStakeModifier`; without a second transaction the V2 modifier reads beyond
the end of `vtx`. -/
def newData (literalAddress : BitVec 64) (find : uint256 → Option StakeIndex) (pprev : StakeIndex)
    (block : StakeBlock) : Option StakeData :=
  if !env.active (pprev.nHeight + 1) .UPGRADE_V3_4 then
    let m := env.computeNextStakeModifier literalAddress find pprev
    some { freshData block with
      fGeneratedStakeModifier := m.2, vStakeModifier := Codec.leBytes 8 m.1.toNat }
  else
    block.stakePrevout.map fun prevoutId =>
      { freshData block with
        vStakeModifier := (blob 32).write
          (env.hash ((blob 32).write prevoutId ++ (blob 32).write (env.getStakeModifierV2 pprev))) }

/-- `AddToBlockIndex`. The new entry is in the map while its modifier is computed. -/
def addToBlockIndex (literalAddress : BitVec 64) (mapBlockIndex : StakeMap) (block : StakeBlock) : Option StakeMap :=
  if block.hash ∈ mapBlockIndex then some mapBlockIndex
  else
    match mapBlockIndex[block.hashPrevBlock]? with
    | none => some (mapBlockIndex.insert block.hash (.root (freshData block)))
    | some pprev =>
      let withNew := mapBlockIndex.insert block.hash (.child pprev (freshData block))
      (env.newData literalAddress (withNew[·]?) pprev block).map fun d =>
        mapBlockIndex.insert block.hash (.child pprev d)

/-- What `BlockData` keeps of a block. -/
def blockData (block : StakeBlock) : BlockData :=
  { hash := block.hash, hashPrevBlock := block.hashPrevBlock, isProofOfStake := block.isProofOfStake
    nTx := block.vtx.length }

/-- The map has the tree of the block index. -/
def SameTree (m : StakeMap) (s : BlockIndexState) : Prop :=
  ∀ hash : uint256, (m[hash]?).map (fun p => (p.pprev.map (·.getBlockHash), p.nHeight)) = s.link hash

/-- A call of `AcceptBlockHeader` in a process that has the literal at `literalAddress`. `fValid` is the outcome of
the checks that depend on more than the index. -/
structure HeaderCall where
  literalAddress : BitVec 64
  block : StakeBlock
  fValid : Bool := true

/-- `AcceptBlockHeader`: only a block with a known parent is added. -/
def acceptBlockHeader (mapBlockIndex : StakeMap) (c : HeaderCall) : Option StakeMap :=
  if c.block.hash ∈ mapBlockIndex then some mapBlockIndex
  else if c.block.hash ≠ env.genesis.hash ∧ c.block.hashPrevBlock ∉ mapBlockIndex then some mapBlockIndex
  else if !c.fValid then some mapBlockIndex
  else env.addToBlockIndex c.literalAddress mapBlockIndex c.block

/-- `LoadGenesisBlock` in an empty index. -/
def genesisIndex : StakeMap :=
  (∅ : StakeMap).insert env.genesis.hash (.root (freshData env.genesis))

/-- The index after a sequence of calls. The process may be restarted between two of them: the entries are stored with
their modifiers. -/
def run (calls : List HeaderCall) : Option StakeMap := calls.foldlM env.acceptBlockHeader env.genesisIndex

/-! ## Which entries a modifier reads -/

variable {env} {f g : uint256 → Option StakeIndex}

theorem selectLoop_congr {selected : List uint256} {stop : Int} {prev : BitVec 64} :
    ∀ (items : List (Int × uint256)) (v2 : Option Bool) (best : Option (Nat × StakeIndex)),
      (∀ i ∈ items, f i.2 = g i.2) →
      env.selectLoop f selected stop prev items v2 best = env.selectLoop g selected stop prev items v2 best
  | [], _, _, _ => rfl
  | item :: rest, v2, best, h => by
    have hrest : ∀ i ∈ rest, f i.2 = g i.2 := fun i hi => h i (List.mem_cons_of_mem _ hi)
    rw [selectLoop, selectLoop, ← h item List.mem_cons_self]
    cases f item.2 with
    | none => rfl
    | some pindex => simp only [selectLoop_congr rest _ _ hrest]

theorem selectRounds_congr {items : List (Int × uint256)} (h : ∀ i ∈ items, f i.2 = g i.2) {m : BitVec 64} :
    ∀ (n nRound : Nat) (stop : Int) (selected : List uint256) (new : BitVec 64),
      env.selectRounds f items m n nRound stop selected new = env.selectRounds g items m n nRound stop selected new
  | 0, _, _, _, _ => rfl
  | n + 1, nRound, stop, selected, new => by
    simp only [selectRounds, selectBlockFromCandidates, selectLoop_congr items _ _ h, selectRounds_congr h n]

theorem mem_candidatesSince {start : Int} {i : Int × uint256} :
    ∀ {l : List StakeIndex}, i ∈ candidatesSince start l → ∃ a ∈ l, i.2 = a.getBlockHash
  | p :: ps, h => by
    rw [candidatesSince] at h
    split at h
    · rcases List.mem_cons.mp h with rfl | h
      · exact ⟨p, List.mem_cons_self, rfl⟩
      · obtain ⟨a, ha, hi⟩ := mem_candidatesSince h
        exact ⟨a, List.mem_cons_of_mem _ ha, hi⟩
    · cases h

variable {p : StakeIndex} {m : StakeMap} {h : uint256} {d : StakeData} {e : StakeIndex}

theorem computeNextStakeModifier_congr (h : ∀ a ∈ p.ancestors, f a.getBlockHash = g a.getBlockHash)
    (literalAddress : BitVec 64) :
    env.computeNextStakeModifier literalAddress f p = env.computeNextStakeModifier literalAddress g p := by
  have hitems : ∀ i ∈ vSortedByTimestamp p, f i.2 = g i.2 := by
    intro i hi
    rw [vSortedByTimestamp, List.mem_mergeSort, List.mem_reverse] at hi
    obtain ⟨a, ha, hia⟩ := mem_candidatesSince hi
    rw [hia]
    exact h a ha
  simp only [computeNextStakeModifier, selectRounds_congr hitems]

theorem newData_congr (h : ∀ a ∈ p.ancestors, f a.getBlockHash = g a.getBlockHash) (literalAddress : BitVec 64)
    (block : StakeBlock) :
    env.newData literalAddress f p block = env.newData literalAddress g p block := by
  simp only [newData, computeNextStakeModifier_congr h]

/-! ## What the address of the literal reaches -/

theorem newData_of_pos (h : p.nHeight ≠ 0) (a a' : BitVec 64) (block : StakeBlock) :
    env.newData a f p block = env.newData a' f p block := by
  simp only [newData, computeNextStakeModifier, if_neg h]

theorem newData_of_active (h : env.active (p.nHeight + 1) .UPGRADE_V3_4 = true) (a a' : BitVec 64)
    (block : StakeBlock) : env.newData a f p block = env.newData a' f p block := by
  simp only [newData, h, Bool.not_true, Bool.false_eq_true, if_false]

theorem newData_first (h : p.nHeight = 0) (hv1 : env.active 1 .UPGRADE_V3_4 = false) {a : BitVec 64}
    {block : StakeBlock} (hd : env.newData a f p block = some d) :
    d.vStakeModifier = Codec.leBytes 8 a.toNat := by
  rw [newData, h, hv1] at hd
  simp only [Bool.not_false, if_true, computeNextStakeModifier, if_pos h, Option.some.injEq] at hd
  rw [← hd]

/-- What a modifier takes from the block itself. -/
def SameStake (b b' : StakeBlock) : Prop :=
  b.hashPrevBlock = b'.hashPrevBlock ∧ b.nTime = b'.nTime ∧ b.isProofOfStake = b'.isProofOfStake ∧
    b.stakePrevout = b'.stakePrevout

theorem newData_sameStake {b b' : StakeBlock} (hhash : b.hash = b'.hash) (h : SameStake b b') (a : BitVec 64)
    (p : StakeIndex) : env.newData a f p b = env.newData a f p b' := by
  obtain ⟨_, htime, hpos, hprevout⟩ := h
  have hfresh : freshData b = freshData b' := by rw [freshData, freshData, hhash, htime, hpos]
  rw [newData, newData, hfresh, hprevout]

/-! ## The index along a run -/

theorem mem_of_get (he : m[h]? = some e) : h ∈ m :=
  Std.ExtTreeMap.mem_iff_isSome_getElem?.mpr (by rw [he]; rfl)

theorem exists_get (hh : h ∈ m) : ∃ e, m[h]? = some e :=
  ⟨_, Std.ExtTreeMap.getElem?_eq_some_getElem hh⟩

theorem get_insert_of_new {k : uint256} (hk : k ∉ m) (v : StakeIndex) (he : m[h]? = some e) :
    (m.insert k v)[h]? = some e := by
  rw [FinMap.get_insert_ne, he]
  rintro rfl
  exact hk (mem_of_get he)

/-- Every entry is stored under its hash, and so are the entries it leads to. -/
def Closed (m : StakeMap) : Prop :=
  ∀ (h : uint256) (e : StakeIndex), m[h]? = some e →
    e.getBlockHash = h ∧ ∀ a ∈ e.ancestors, m[a.getBlockHash]? = some a

/-- The entry with a given hash on the chain that ends in `p`. -/
def lookup (p : StakeIndex) (h : uint256) : Option StakeIndex := p.ancestors.find? fun a => a.getBlockHash = h

theorem lookup_eq {p a : StakeIndex} (hp : ∀ a ∈ p.ancestors, m[a.getBlockHash]? = some a) (ha : a ∈ p.ancestors) :
    lookup p a.getBlockHash = some a := by
  cases hfind : lookup p a.getBlockHash with
  | none =>
    have hno := List.find?_eq_none.mp hfind a ha
    simp at hno
  | some b =>
    have hb : b.getBlockHash = a.getBlockHash := by simpa using List.find?_some hfind
    have heq := hp b (List.mem_of_find?_eq_some hfind)
    rw [hb, hp a ha] at heq
    rw [Option.some.inj heq]

theorem genesisIndex_get (he : env.genesisIndex[h]? = some e) :
    h = env.genesis.hash ∧ e = .root (freshData env.genesis) := by
  rw [genesisIndex, FinMap.get_insert] at he
  split_ifs at he with hh
  · exact ⟨hh.symm, (Option.some.inj he).symm⟩
  · simp at he

theorem genesisIndex_closed : Closed env.genesisIndex := by
  intro h e he
  obtain ⟨rfl, rfl⟩ := genesisIndex_get he
  refine ⟨rfl, fun a ha => ?_⟩
  rw [List.mem_singleton.mp ha]
  exact FinMap.get_insert_self _ _ _

theorem acceptBlockHeader_cases {m m' : StakeMap} {c : HeaderCall} (hm : Closed m) (hgen : env.genesis.hash ∈ m)
    (h : env.acceptBlockHeader m c = some m') :
    m' = m ∨ c.block.hash ∉ m ∧ ∃ p d, m[c.block.hashPrevBlock]? = some p ∧
      env.newData c.literalAddress (lookup p) p c.block = some d ∧ m' = m.insert c.block.hash (.child p d) := by
  unfold acceptBlockHeader at h
  split_ifs at h with hknown hparent hvalid
  · exact .inl (Option.some.inj h).symm
  · exact .inl (Option.some.inj h).symm
  · exact .inl (Option.some.inj h).symm
  · have hprev : c.block.hashPrevBlock ∈ m := by
      by_contra hno
      exact hparent ⟨fun heq => hknown (heq ▸ hgen), hno⟩
    obtain ⟨p, hp⟩ := exists_get hprev
    rw [addToBlockIndex, if_neg hknown] at h
    simp only [hp, Option.map_eq_some_iff] at h
    obtain ⟨d, hd, rfl⟩ := h
    refine .inr ⟨hknown, p, d, hp, ?_, rfl⟩
    rw [← hd]
    refine newData_congr (fun a ha => ?_) _ _
    have hstored := (hm _ _ hp).2
    rw [lookup_eq hstored ha]
    exact (get_insert_of_new hknown _ (hstored a ha)).symm

theorem Closed.insert_child (hm : Closed m) {k : uint256} (hk : k ∉ m) {prev : uint256} (hp : m[prev]? = some p)
    (hd : d.hash = k) : Closed (m.insert k (.child p d)) := by
  intro h e he
  by_cases hh : k = h
  · subst hh
    rw [FinMap.get_insert_self] at he
    obtain rfl := Option.some.inj he
    refine ⟨hd, fun a ha => ?_⟩
    rcases List.mem_cons.mp ha with rfl | ha
    · show (m.insert k (.child p d))[d.hash]? = _
      rw [hd, FinMap.get_insert_self]
    · exact get_insert_of_new hk _ ((hm _ _ hp).2 a ha)
  · rw [FinMap.get_insert_ne _ _ hh] at he
    exact ⟨(hm _ _ he).1, fun a ha => get_insert_of_new hk _ ((hm _ _ he).2 a ha)⟩

theorem hash_newData {a : BitVec 64} {b : StakeBlock} (h : env.newData a f p b = some d) : d.hash = b.hash := by
  unfold newData at h
  split at h
  · rw [← Option.some.inj h]; rfl
  · obtain ⟨_, _, rfl⟩ := Option.map_eq_some_iff.mp h
    rfl

theorem SameTree.insert_child {s : BlockIndexState} (hs : SameTree m s) (hm : Closed m) {block : StakeBlock}
    (hnew : block.hash ∉ m) (hp : m[block.hashPrevBlock]? = some p) :
    SameTree (m.insert block.hash (.child p d)) (s.addToBlockIndex (blockData block)) := by
  intro hash
  have hold : s.link block.hash = none := by
    rw [← hs, Option.map_eq_none_iff]
    exact Std.ExtTreeMap.getElem?_eq_none hnew
  have hprev := hs block.hashPrevBlock
  rw [hp] at hprev
  rw [BlockIndexState.link_addToBlockIndex, FinMap.get_insert]
  by_cases hh : block.hash = hash
  · rw [if_pos hh, if_pos ⟨hold, hh⟩]
    simp [blockData, ← hprev, BlockIndexState.newLink, StakeIndex.pprev, StakeIndex.nHeight, (hm _ _ hp).1]
  · rw [if_neg hh, if_neg fun h => hh h.2]
    exact hs hash

theorem genesisIndex_sameTree :
    SameTree env.genesisIndex (BlockIndexState.addToBlockIndex {} (blockData env.genesis)) := by
  intro hash
  rw [BlockIndexState.link_addToBlockIndex, genesisIndex, FinMap.get_insert]
  by_cases hh : env.genesis.hash = hash <;>
    simp [blockData, BlockIndexState.link, BlockIndexState.newLink, StakeIndex.pprev, StakeIndex.nHeight, hh]

/-- The index of every run is a tree that `AddToBlockIndex` of `BlockIndexState` builds. -/
theorem SameTree.foldlM : ∀ {calls : List HeaderCall} {m m' : StakeMap} {s : BlockIndexState}, SameTree m s →
    Closed m → env.genesis.hash ∈ m → calls.foldlM env.acceptBlockHeader m = some m' →
    ∃ blocks : List BlockData, blocks.Sublist (calls.map fun c => blockData c.block) ∧
      SameTree m' (blocks.foldl BlockIndexState.addToBlockIndex s)
  | [], _, _, _, hs, _, _, h => by
    obtain rfl := Option.some.inj h
    exact ⟨[], .slnil, hs⟩
  | c :: calls, m, m', s, hs, hm, hgen, h => by
    rw [List.foldlM_cons] at h
    obtain ⟨m₁, hstep, hrest⟩ := Option.bind_eq_some_iff.mp h
    rcases acceptBlockHeader_cases hm hgen hstep with rfl | ⟨hnew, p, d, hp, hd, rfl⟩
    · obtain ⟨blocks, hsub, htree⟩ := SameTree.foldlM hs hm hgen hrest
      exact ⟨blocks, hsub.cons _, htree⟩
    · obtain ⟨e, he⟩ := exists_get hgen
      obtain ⟨blocks, hsub, htree⟩ := SameTree.foldlM (hs.insert_child hm hnew hp)
        (hm.insert_child hnew hp (hash_newData hd)) (mem_of_get (get_insert_of_new hnew _ he)) hrest
      exact ⟨blockData c.block :: blocks, hsub.cons_cons _, htree⟩

/-- The address of the literal in the process that added a block. -/
def addedAt (env : StakeEnv) : StakeMap → List HeaderCall → uint256 → Option (BitVec 64)
  | _, [], _ => none
  | m, c :: calls, h =>
    match env.acceptBlockHeader m c with
    | none => none
    | some m' => if h ∉ m ∧ h ∈ m' then some c.literalAddress else addedAt env m' calls h

/-- An entry that `calls` put into the index. -/
def AddedBy (env : StakeEnv) (m m' : StakeMap) (calls : List HeaderCall) (h : uint256) (e : StakeIndex) : Prop :=
  h ∉ m ∧ ∃ c ∈ calls, c.block.hash = h ∧ env.addedAt m calls h = some c.literalAddress ∧
    ∃ p d, m'[c.block.hashPrevBlock]? = some p ∧ env.newData c.literalAddress (lookup p) p c.block = some d ∧
      e = .child p d

/-- What a sequence of calls does to the index. -/
structure Grown (env : StakeEnv) (m : StakeMap) (calls : List HeaderCall) (m' : StakeMap) : Prop where
  closed : Closed m'
  keeps : ∀ (h : uint256) (e : StakeIndex), m[h]? = some e → m'[h]? = some e
  origin : ∀ (h : uint256) (e : StakeIndex), m'[h]? = some e → m[h]? = some e ∨ AddedBy env m m' calls h e

theorem grown_foldlM : ∀ {calls : List HeaderCall} {m m' : StakeMap}, Closed m → env.genesis.hash ∈ m →
    calls.foldlM env.acceptBlockHeader m = some m' → Grown env m calls m'
  | [], m, m', hm, _, h => by
    obtain rfl := Option.some.inj h
    exact ⟨hm, fun _ _ he => he, fun _ _ he => .inl he⟩
  | c :: calls, m, m', hm, hgen, h => by
    rw [List.foldlM_cons] at h
    obtain ⟨m₁, hstep, hrest⟩ := Option.bind_eq_some_iff.mp h
    -- what a later call adds is not in the index after the first one
    have hlater : (∀ k ∈ m, k ∈ m₁) → ∀ k e, AddedBy env m₁ m' calls k e → AddedBy env m m' (c :: calls) k e := by
      rintro hsub k e ⟨hnot, c', hc', hhash, hadd, hentry⟩
      refine ⟨fun hk => hnot (hsub k hk), c', List.mem_cons_of_mem _ hc', hhash, ?_, hentry⟩
      simp only [addedAt, hstep]
      rw [if_neg fun hh => hnot hh.2, hadd]
    rcases acceptBlockHeader_cases hm hgen hstep with rfl | ⟨hnew, p, d, hp, hd, rfl⟩
    · have hall := grown_foldlM hm hgen hrest
      exact ⟨hall.closed, hall.keeps, fun k e he => (hall.origin k e he).imp_right (hlater (fun _ hk => hk) k e)⟩
    · have hsub : ∀ k ∈ m, k ∈ m.insert c.block.hash (.child p d) := fun k hk => by
        obtain ⟨e, he⟩ := exists_get hk
        exact mem_of_get (get_insert_of_new hnew _ he)
      have hall := grown_foldlM (hm.insert_child hnew hp (hash_newData hd)) (hsub _ hgen) hrest
      refine ⟨hall.closed, fun k e he => hall.keeps k e (get_insert_of_new hnew _ he), fun k e he => ?_⟩
      rcases hall.origin k e he with hold | hadded
      · by_cases hk : c.block.hash = k
        · subst hk
          rw [FinMap.get_insert_self] at hold
          refine .inr ⟨hnew, c, List.mem_cons_self, rfl, ?_, p, d, hall.keeps _ _ (get_insert_of_new hnew _ hp), hd,
            (Option.some.inj hold).symm⟩
          simp only [addedAt, hstep]
          rw [if_pos ⟨hnew, mem_of_get (FinMap.get_insert_self _ _ _)⟩]
        · rw [FinMap.get_insert_ne _ _ hk] at hold
          exact .inl hold
      · exact .inr (hlater hsub k e hadded)

theorem genesis_mem : env.genesis.hash ∈ env.genesisIndex := mem_of_get (FinMap.get_insert_self _ _ _)

/-! ## Two runs -/

section TwoRuns

variable {calls₁ calls₂ : List HeaderCall} {m₁ m₂ : StakeMap}

variable (env calls₁ calls₂ m₁ m₂) in
/-- The first blocks both runs know were added at the same address. -/
def SameSeeds : Prop :=
  ∀ (h : uint256) (e : StakeIndex), m₁[h]? = some e → e.nHeight = 1 → h ∈ m₂ →
    env.addedAt env.genesisIndex calls₁ h = env.addedAt env.genesisIndex calls₂ h

/-- Blocks of the two runs with the same hash are the same for the modifier. -/
def SameBlocks (calls₁ calls₂ : List HeaderCall) : Prop :=
  ∀ c₁ ∈ calls₁, ∀ c₂ ∈ calls₂, c₁.block.hash = c₂.block.hash → SameStake c₁.block c₂.block

theorem entries_eq (h₁ : Grown env env.genesisIndex calls₁ m₁) (h₂ : Grown env env.genesisIndex calls₂ m₂)
    (hblocks : SameBlocks calls₁ calls₂)
    (hseeds : env.active 1 .UPGRADE_V3_4 = true ∨ SameSeeds env calls₁ calls₂ m₁ m₂) :
    ∀ (e₁ e₂ : StakeIndex) (h : uint256), m₁[h]? = some e₁ → m₂[h]? = some e₂ → e₁ = e₂ := by
  intro e₁
  induction e₁ with
  | root d =>
    intro e₂ h he₁ he₂
    rcases h₁.origin h _ he₁ with hg | ⟨_, _, _, _, _, _, _, _, _, heq⟩
    · obtain ⟨rfl, hd⟩ := genesisIndex_get hg
      rcases h₂.origin _ _ he₂ with hg₂ | ⟨hnot, _⟩
      · rw [hd, (genesisIndex_get hg₂).2]
      · exact absurd genesis_mem hnot
    · cases heq
  | child p d ih =>
    intro e₂ h he₁ he₂
    rcases h₁.origin h _ he₁ with hg | ⟨hnot, c₁, hc₁, hhash₁, hadd₁, p₁, d₁, hp₁, hd₁, heq⟩
    · cases (genesisIndex_get hg).2
    cases heq
    rcases h₂.origin h _ he₂ with hg | ⟨_, c₂, hc₂, hhash₂, hadd₂, p₂, d₂, hp₂, hd₂, rfl⟩
    · exact absurd (mem_of_get hg) hnot
    have hhash : c₁.block.hash = c₂.block.hash := hhash₁.trans hhash₂.symm
    have hsame := hblocks c₁ hc₁ c₂ hc₂ hhash
    obtain rfl : p = p₂ := ih p₂ c₁.block.hashPrevBlock hp₁ (by rw [hsame.1]; exact hp₂)
    rw [newData_sameStake hhash hsame] at hd₁
    -- only on top of the genesis block, and only for a V1 modifier, does the address enter
    have hdata : env.newData c₁.literalAddress (lookup p) p c₂.block =
        env.newData c₂.literalAddress (lookup p) p c₂.block := by
      by_cases hpos : p.nHeight = 0
      · rcases hseeds with hact | hseeds
        · exact newData_of_active (by rw [hpos]; exact hact) _ _ _
        · have hadd := hseeds h _ he₁ (by rw [StakeIndex.nHeight, hpos]) (mem_of_get he₂)
          rw [hadd₁, hadd₂, Option.some.injEq] at hadd
          rw [hadd]
      · exact newData_of_pos hpos _ _ _
    rw [hd₁, hd₂, Option.some.injEq] at hdata
    rw [hdata]

theorem leBytes_injective {a b : BitVec 64} (h : Codec.leBytes 8 a.toNat = Codec.leBytes 8 b.toNat) : a = b := by
  have hlt : ∀ x : BitVec 64, x.toNat < 256 ^ 8 := fun x => by have := x.isLt; omega
  have heq := congrArg Codec.ofLE h
  rw [Codec.ofLE_leBytes 8 _ (hlt a), Codec.ofLE_leBytes 8 _ (hlt b)] at heq
  exact BitVec.eq_of_toNat_eq heq

theorem sameSeeds_of_agree (h₁ : Grown env env.genesisIndex calls₁ m₁) (h₂ : Grown env env.genesisIndex calls₂ m₂)
    (hblocks : SameBlocks calls₁ calls₂) (hv1 : env.active 1 .UPGRADE_V3_4 = false)
    (hagree : ∀ (h : uint256) (e₁ e₂ : StakeIndex), m₁[h]? = some e₁ → m₂[h]? = some e₂ →
      e₁.data.vStakeModifier = e₂.data.vStakeModifier) : SameSeeds env calls₁ calls₂ m₁ m₂ := by
  intro h e₁ he₁ hone hmem
  obtain ⟨e₂, he₂⟩ := exists_get hmem
  have hmod := hagree h e₁ e₂ he₁ he₂
  rcases h₁.origin h _ he₁ with hg | ⟨hnot, c₁, hc₁, hhash₁, hadd₁, p₁, d₁, hp₁, hd₁, rfl⟩
  · rw [(genesisIndex_get hg).2] at hone
    cases hone
  rcases h₂.origin h _ he₂ with hg | ⟨_, c₂, hc₂, hhash₂, hadd₂, p₂, d₂, hp₂, hd₂, rfl⟩
  · exact absurd (mem_of_get hg) hnot
  have hlow₁ : p₁.nHeight = 0 := Nat.succ.inj hone
  -- the parent has no parent, so it is the genesis block in both runs
  have hprev : c₁.block.hashPrevBlock = env.genesis.hash := by
    rcases h₁.origin _ _ hp₁ with hg | ⟨_, _, _, _, _, _, _, _, _, rfl⟩
    · exact (genesisIndex_get hg).1
    · cases hlow₁
  have hlow₂ : p₂.nHeight = 0 := by
    rw [← (hblocks c₁ hc₁ c₂ hc₂ (hhash₁.trans hhash₂.symm)).1, hprev] at hp₂
    rcases h₂.origin _ _ hp₂ with hg | ⟨hnot, _⟩
    · rw [(genesisIndex_get hg).2]; rfl
    · exact absurd genesis_mem hnot
  change d₁.vStakeModifier = d₂.vStakeModifier at hmod
  rw [newData_first hlow₁ hv1 hd₁, newData_first hlow₂ hv1 hd₂] at hmod
  rw [hadd₁, hadd₂, leBytes_injective hmod]

end TwoRuns

end StakeEnv

/-- Two runs that share blocks store the same modifiers for them exactly if the first blocks have V2 modifiers or were
added at the same address of the literal in both runs. -/
theorem stake_modifiers_agree_iff (env : StakeEnv) {calls₁ calls₂ : List StakeEnv.HeaderCall} {m₁ m₂ : StakeMap}
    (h₁ : env.run calls₁ = some m₁) (h₂ : env.run calls₂ = some m₂) (hblocks : StakeEnv.SameBlocks calls₁ calls₂) :
    (∀ (h : uint256) (e₁ e₂ : StakeIndex), m₁[h]? = some e₁ → m₂[h]? = some e₂ →
      e₁.data.vStakeModifier = e₂.data.vStakeModifier) ↔
    env.active 1 .UPGRADE_V3_4 = true ∨ env.SameSeeds calls₁ calls₂ m₁ m₂ := by
  have hg₁ := StakeEnv.grown_foldlM StakeEnv.genesisIndex_closed StakeEnv.genesis_mem h₁
  have hg₂ := StakeEnv.grown_foldlM StakeEnv.genesisIndex_closed StakeEnv.genesis_mem h₂
  constructor
  · intro hagree
    cases hact : env.active 1 .UPGRADE_V3_4 with
    | true => exact .inl rfl
    | false => exact .inr (StakeEnv.sameSeeds_of_agree hg₁ hg₂ hblocks hact hagree)
  · intro hseeds h e₁ e₂ he₁ he₂
    rw [StakeEnv.entries_eq hg₁ hg₂ hblocks hseeds e₁ e₂ h he₁ he₂]

namespace Sample

def stakeEnv : StakeEnv where
  params := CMainParams
  genesis := { hash := 1, nTime := 1000, vtx := [], hashPrevBlock := 0 }
  hash _ := 0

def firstBlock : StakeBlock := { hash := 2, nTime := 1060, vtx := [], hashPrevBlock := 1 }

def rivalBlock : StakeBlock := { hash := 3, nTime := 1070, vtx := [], hashPrevBlock := 1 }
def secondBlock : StakeBlock := { hash := 4, nTime := 1120, vtx := [], hashPrevBlock := 2 }

def firstCall (a : BitVec 64) : List StakeEnv.HeaderCall := [{ literalAddress := a, block := firstBlock }]

/-- The second block comes early and again after the first. -/
def inOrder : List StakeEnv.HeaderCall :=
  [secondBlock, firstBlock, secondBlock].map fun block => { literalAddress := 0x5000, block }

/-- Another block comes first, and the process is restarted before the second block. -/
def withFork : List StakeEnv.HeaderCall :=
  [⟨0x5000, rivalBlock, true⟩, ⟨0x5000, firstBlock, true⟩, ⟨0x7000, secondBlock, true⟩]

end Sample

open Sample

/-- Two runs with other headers in another order, in processes with the literal at one address when the first block is
added. -/
theorem stake_modifiers_agree_same_address : ∃ m₁ m₂, stakeEnv.run inOrder = some m₁ ∧
    stakeEnv.run withFork = some m₂ ∧ m₁.size = 3 ∧ m₂.size = 4 ∧
    ∀ (h : uint256) (e₁ e₂ : StakeIndex), m₁[h]? = some e₁ → m₂[h]? = some e₂ →
      e₁.data.vStakeModifier = e₂.data.vStakeModifier := by
  have hrun₁ : (stakeEnv.run inOrder).any (fun m => m.size = 3 ∧ ∀ x ∈ m.toList, x.2.nHeight = 1 →
      stakeEnv.addedAt stakeEnv.genesisIndex inOrder x.1 =
        stakeEnv.addedAt stakeEnv.genesisIndex withFork x.1) = true := by
    decide +kernel
  have hrun₂ : (stakeEnv.run withFork).any (fun m => m.size = 4) = true := by decide +kernel
  obtain ⟨m₁, hm₁, h₁⟩ := (Option.any_eq_true _ _).mp hrun₁
  obtain ⟨m₂, hm₂, h₂⟩ := (Option.any_eq_true _ _).mp hrun₂
  obtain ⟨hsize, hseeds⟩ := of_decide_eq_true h₁
  refine ⟨m₁, m₂, hm₁, hm₂, hsize, of_decide_eq_true h₂, (stake_modifiers_agree_iff stakeEnv hm₁ hm₂ ?_).mpr
    (.inr fun h e he hone _ => hseeds (h, e) (FinMap.mem_toList.mpr he) hone)⟩
  unfold StakeEnv.SameBlocks StakeEnv.SameStake
  decide +kernel

/-- Two processes add the same first block and store different modifiers. -/
theorem stake_modifiers_differ :
    ((stakeEnv.run (firstCall 0x5000)).bind (·[(2 : uint256)]?)).map (·.data.vStakeModifier) =
      some [0, 0x50, 0, 0, 0, 0, 0, 0] ∧
    ((stakeEnv.run (firstCall 0x7000)).bind (·[(2 : uint256)]?)).map (·.data.vStakeModifier) =
      some [0, 0x70, 0, 0, 0, 0, 0, 0] := by
  decide +kernel

end TrumpCoin
