import TrumpCoin.Evo.Careful
import TrumpCoin.Evo.Determinism

/-!
# Cached and stored lists

`GetListForBlock` answers from whatever lists and differences are cached or stored. For a tree of blocks `Built` says
which list belongs to an entry; it is unique (`Built.unique`). Every cached or stored list is that of its block, every
cached or stored difference leads from the list of the previous block to that of its own (`SoundCache`, `SoundStore`),
so a list that is returned is the one of its block (`getListForBlock_after`).
-/

namespace TrumpCoin

open Lib

/-! ## Blocks and their lists -/

/-- The blocks up to an entry, newest first, without genesis. -/
def blocksTo (block : CBlockIndex → CBlock) : CBlockIndex → List CBlock
  | .genesis _ => []
  | .child pprev hash => block (.child pprev hash) :: blocksTo block pprev

/-- `mapBlockIndex` and the blocks of its entries. Block hashes, and the txids along a chain, are collision free. -/
structure BlockTree where
  mem : CBlockIndex → Prop
  block : CBlockIndex → CBlock
  prev : ∀ {q : CBlockIndex} {hash : uint256}, mem (.child q hash) → mem q
  inj : ∀ {i j : CBlockIndex}, mem i → mem j → i.getBlockHash = j.getBlockHash → i = j
  hash : ∀ {q : CBlockIndex} {hash : uint256}, mem (.child q hash) → (block (.child q hash)).getHash = hash
  height : ∀ {i : CBlockIndex}, mem i → i.nHeight < 2 ^ 31
  txids : ∀ {i : CBlockIndex}, mem i → TxidsSound (blocksTo block i)

variable {D : Type} [Digest D] (T : BlockTree) (p : CChainParams) (c : Crypto)

/-- The list of an entry whose blocks were all accepted: each block by `ProcessSpecialTxsInBlock` against the list of
the block before it, and careful where lists are enforced. -/
inductive Built : CBlockIndex → CDeterministicPNList D → Prop
  | genesis {hash : uint256} (hmem : T.mem (.genesis hash)) : Built (.genesis hash) {}
  | connect {q : CBlockIndex} {hash : uint256} {old new : CDeterministicPNList D} (env : Env) (hprev : Built q old)
      (hmem : T.mem (.child q hash)) (hstart : isDIP3Enforced p q.nHeight = true → q.nHeight ≠ 0)
      (hnew : (⟨p, c, env, T.block (.child q hash), q, old⟩ : BlockInput D).process = .ok new)
      (hcareful : isDIP3Enforced p (q.nHeight + 1) = true →
        Careful (⟨p, c, env, T.block (.child q hash), q, old⟩ : BlockInput D)) :
      Built (.child q hash) new

variable {T p c} {i q : CBlockIndex} {hash : uint256} {l l' old new : CDeterministicPNList D}

namespace Built

variable (h : Built T p c i l)
include h

theorem mem : T.mem i := by
  cases h with
  | genesis hmem => exact hmem
  | connect _ _ hmem => exact hmem

theorem chain : Chain p c (blocksTo T.block i) i l := by
  induction h with
  | genesis => exact .genesis _
  | @connect q hash old new env _ hmem _ hnew _ ih =>
    have hchain := Chain.connect env (T.block (.child q hash)) ih (.refl old) (T.height hmem) hnew
    rwa [T.hash hmem] at hchain

theorem rep : RepInv l := h.chain.rep

theorem storable : Storable l := h.chain.storable

theorem eq_empty (hdip : isDIP3Enforced p i.nHeight = false) : l = {} := by
  cases h with
  | genesis => rfl
  | connect env hprev _ _ hnew =>
    rcases process_cases hprev.rep hnew with ⟨-, rfl⟩ | ⟨hdip', -⟩
    · rfl
    · exact absurd hdip' (by simpa using hdip)

/-- **The list of an entry is unique**, whatever orders and coins the node saw. -/
theorem unique (h' : Built T p c i l') : l = l' := by
  induction h generalizing l' with
  | genesis => cases h'; rfl
  | connect env hprev hmem _ hnew _ ih =>
    cases h' with
    | connect env' hprev' _ _ hnew' =>
      obtain rfl := ih hprev'
      exact process_determined hprev.rep hnew hnew'

omit h

theorem counted (hinj : CollisionFree D) (h : Built T p c i l) : Counted l.nTotalRegisteredCount l := by
  have hempty : Counted 0 ({} : CDeterministicPNList D) :=
    ⟨Nat.le_refl 0, FinMap.forall_empty⟩
  induction h with
  | genesis => exact hempty
  | connect env hprev hmem _ hnew hcareful ih =>
    rcases process_cases hprev.rep hnew with ⟨-, rfl⟩ | ⟨hdip, b, hbuild, -, -, rfl⟩
    · exact hempty
    · have hmax := maxSize_lt
      have hle := (hcareful hdip).count
      obtain ⟨hc, -⟩ := build_count hinj hprev.rep ih (by omega) hbuild
      exact ⟨hc.count_le, hc.ids_lt⟩

end Built

structure Recorded (q : CBlockIndex) (hash : uint256) (old new : CDeterministicPNList D) : Prop where
  succeeds : Succeeds old new
  blockHash : new.blockHash = hash
  nHeight : new.nHeight = q.nHeight + 1
  keyed : ∀ a ∈ removedNodes old new, a.pdmnState.keyIDOperator ≠ 0
  count : ∀ d, IsDiff old new d → countAfter true old.nTotalRegisteredCount d.addedPNs = new.nTotalRegisteredCount
  size : new.mnMap.size ≤ MAX_SIZE
  sizes : DiffSizesFit old new
  operators : (q.nHeight + 1) % DISK_SNAPSHOT_PERIOD = 0 ∨ old.nHeight = -1 →
    ∀ (a : uint256) dmn, new.mnMap[a]? = some dmn → dmn.pdmnState.keyIDOperator ≠ 0

theorem addedNodes_length_le : (addedNodes old new).length ≤ new.mnMap.size := by
  rw [← FinMap.length_vals]
  exact List.length_filter_le _ _

theorem updatedNodes_length_le : (updatedNodes old new).length ≤ new.mnMap.size := by
  rw [← FinMap.length_vals]
  exact List.length_filter_le _ _

/-- A built list succeeds the list of the block before it, and fits its records. -/
theorem Built.recorded (hinj : CollisionFree D)
    (h : Built T p c (.child q hash) new) (hdip : isDIP3Enforced p (q.nHeight + 1) = true) :
    ∃ old, Built T p c q old ∧ Recorded q hash old new := by
  have hc := h.counted hinj
  cases h with
  | @connect _ _ old _ env hprev hmem _ hnew hcareful =>
    have hcare := hcareful hdip
    have hx := hprev.chain.onChain (.refl old) (T.txids hmem) (process_eq_ok.mp hnew).1
    obtain ⟨hsucc, hhash, hheight, hkeyed⟩ := process_succeeds hinj hx hdip hnew
    rcases process_cases hx.rep hnew with ⟨hnot, -⟩ | ⟨-, b, hbuild, -, -, rfl⟩
    · exact absurd hdip (by simpa using hnot)
    have hmax := maxSize_lt
    have hle := hcare.count
    have hcold := hprev.counted hinj
    obtain ⟨-, hcount⟩ := build_count hinj hx.rep hcold (by dsimp only at hle ⊢; omega) hbuild
    have hcount : b.nTotalRegisteredCount = _ := hcount
    have hsize := hsucc.rep_target.size_le hc.ids_lt
    have hsize_old := hprev.rep.size_le hcold.ids_lt
    dsimp only at hcount hsize hle
    refine ⟨old, hprev, hsucc, ?_, hheight, hkeyed.mpr hcare.keyed, fun d hd => ?_, by dsimp only; omega,
      ⟨addedNodes_length_le.trans (by dsimp only; omega), updatedNodes_length_le.trans (by dsimp only; omega),
        addedNodes_length_le.trans (by omega)⟩, fun hwrite => ?_⟩
    · rw [hhash]
      exact T.hash hmem
    · exact hcare.count_eq hinj hx hcold hbuild ⟨hd.nHeight, hd.added, hd.updated, hd.removed⟩
    · intro a dmn hm
      exact hcare.operators hx hwrite hbuild a dmn hm

/-! ## Applying a difference -/

theorem toList_eq_nil {K V : Type} [Ord K] [Std.TransOrd K] {m : FinMap K V} (h : m.size = 0) : m.toList = [] :=
  List.eq_nil_of_length_eq_zero (by rw [Std.ExtTreeMap.length_toList, h])

variable {d : CDeterministicPNListDiff}

/-- The branch for a difference without changes does what `ApplyDiff` would do. -/
theorem applyDiff_of_no_changes (h : d.hasChanges = false) :
    l.applyDiff i d = .ok { l with blockHash := i.getBlockHash, nHeight := i.nHeight } := by
  simp only [CDeterministicPNListDiff.hasChanges, Bool.or_eq_false_iff, Bool.not_eq_false', List.isEmpty_iff,
    bne_eq_false_iff_eq] at h
  unfold CDeterministicPNList.applyDiff
  rw [h.1.1, toList_eq_nil h.1.2, toList_eq_nil h.2]
  rfl

theorem applyCachedDiff_eq {diffs : FinMap uint256 CDeterministicPNListDiff} (h : diffs[i.getBlockHash]? = some d) :
    applyCachedDiff diffs l i = l.applyDiff i d := by
  unfold applyCachedDiff
  rw [h]
  dsimp only
  split_ifs with hno
  · rfl
  · rw [applyDiff_of_no_changes (by simpa using hno)]

theorem Recorded.apply (hinj : CollisionFree D) (hr : Recorded q hash old new)
    (hd : IsDiff old new { d with nHeight := -1 })
    (hsame : l = { old with blockHash := l.blockHash, nHeight := l.nHeight }) :
    l.applyDiff (.child q hash) d = .ok new := by
  -- the header is overwritten, and the height of the difference not read
  have heq : l.applyDiff (.child q hash) d = old.applyDiff (.child q hash) { d with nHeight := -1 } := by
    rw [hsame]
    rfl
  have hout := applyDiff_outcome hinj hr.succeeds hd (.child q hash)
  rw [heq]
  cases hres : old.applyDiff (.child q hash) { d with nHeight := -1 } with
  | error e =>
    obtain ⟨a, ha, h0⟩ := hout.of_error hres
    exact (hr.keyed a ha h0).elim
  | ok r =>
    obtain ⟨rfl, -⟩ := hout.of_ok hres
    rw [hr.count _ hd]
    congr 1
    have hhash := hr.blockHash
    have hheight := hr.nHeight
    cases new
    simp only at hhash hheight
    simp [hhash, hheight]

/-! ## Sound entries -/

section Sound

variable (T p c)

variable (i l) in
/-- The list that the walk of `GetListForBlock` may stop with at an entry: the list of its block, or the empty one right
before enforcement. -/
def ListAt : Prop :=
  (isDIP3Enforced p i.nHeight = true ∧ i.nHeight ≠ 0 ∧ Built T p c i l) ∨
  (p.isActivationHeight (i.nHeight + 1) .UPGRADE_V6_0 = true ∧ l = { blockHash := i.getBlockHash })

variable (hash l) in
def HoldsList : Prop :=
  ∃ i, T.mem i ∧ i.getBlockHash = hash ∧ ListAt T p c i l

def HoldsDiff (D : Type) [Digest D] (hash : uint256) (d : CDeterministicPNListDiff) : Prop :=
  ∃ (q : CBlockIndex) (old new : CDeterministicPNList D), Built T p c q old ∧ Built T p c (.child q hash) new ∧
    isDIP3Enforced p (q.nHeight + 1) = true ∧ IsDiff old new { d with nHeight := -1 }

structure HoldsSnapshot (hash : uint256) (l : CDeterministicPNList D) : Prop where
  built : ∃ q, isDIP3Enforced p (q.nHeight + 1) = true ∧ Built T p c (.child q hash) l
  operators : ∀ (a : uint256) dmn, l.mnMap[a]? = some dmn → dmn.pdmnState.keyIDOperator ≠ 0
  size : l.mnMap.size ≤ MAX_SIZE

structure SoundCache (m : CDeterministicPNManager D) : Prop where
  lists : ∀ (hash : uint256) l, m.mnListsCache[hash]? = some l → HoldsList T p c hash l
  diffs : ∀ (hash : uint256) d, m.mnListDiffsCache[hash]? = some d → HoldsDiff T p c D hash d

structure SoundWrites (w : EvoWrites D) : Prop where
  snapshots : ∀ (hash : uint256) l, w.snapshots[hash]? = some l → HoldsSnapshot T p c hash l
  diffs : ∀ (hash : uint256) d, w.diffs[hash]? = some d → d.nHeight = -1 ∧ HoldsDiff T p c D hash d

structure SoundTable (D : Type) [Digest D] (t : EvoTable) : Prop where
  snapshots : ∀ (hash : uint256) bs, t.snapshots[hash]? = some bs →
    ∃ (l : CDeterministicPNList D) (order : MapOrder), bs = l.serialize order ∧ HoldsSnapshot T p c hash l
  diffs : ∀ (hash : uint256) bs, t.diffs[hash]? = some bs →
    ∃ d : CDeterministicPNListDiff, bs = d.serialize ∧ d.nHeight = -1 ∧ HoldsDiff T p c D hash d

structure SoundStore (e : CEvoDB D) : Prop where
  cur : SoundWrites T p c e.curDBTransaction
  root : SoundWrites T p c e.rootDBTransaction
  db : SoundTable T p c D e.db

end Sound

/-- The difference of a block is in one of the layers. -/
def CEvoDB.HasDiff (e : CEvoDB D) (hash : uint256) : Prop :=
  (e.curDBTransaction.diffs[hash]?.isSome ∨ e.rootDBTransaction.diffs[hash]?.isSome) ∨ e.db.diffs[hash]?.isSome

theorem isDIP3Enforced_iff {n : Nat} : isDIP3Enforced p n = true ↔
    p.nActivationHeight .UPGRADE_V6_0 ≠ NO_ACTIVATION_HEIGHT ∧ p.nActivationHeight .UPGRADE_V6_0 ≤ n := by
  simp [isDIP3Enforced, CChainParams.networkUpgradeActive]

theorem isActivationHeight_iff {n : Nat} : p.isActivationHeight (n + 1) .UPGRADE_V6_0 = true ↔
    isDIP3Enforced p n = false ∧ isDIP3Enforced p (n + 1) = true := by
  rw [← Bool.not_eq_true, isDIP3Enforced_iff, isDIP3Enforced_iff]
  simp only [CChainParams.isActivationHeight, NO_ACTIVATION_HEIGHT, decide_eq_true_eq]
  push_cast
  constructor
  · rintro ⟨-, h0, heq⟩
    omega
  · rintro ⟨hnot, hne, hle⟩
    refine ⟨by decide, by omega, ?_⟩
    by_contra hlt
    exact hnot ⟨hne, by omega⟩

namespace ListAt

variable (h : ListAt T p c i l)
include h

theorem built (hdip : isDIP3Enforced p i.nHeight = true) : i.nHeight ≠ 0 ∧ Built T p c i l := by
  rcases h with ⟨-, h⟩ | ⟨hact, -⟩
  · exact h
  · rw [isActivationHeight_iff, hdip] at hact
    cases hact.1

/-- It is the list of the entry up to its header. -/
theorem eq_header (hold : Built T p c i old) : l = { old with blockHash := l.blockHash, nHeight := l.nHeight } := by
  rcases h with ⟨-, -, hbuilt⟩ | ⟨hact, rfl⟩
  · rw [hbuilt.unique hold]
  · rw [hold.eq_empty (isActivationHeight_iff.mp hact).1]

end ListAt

section Reads

variable (hinj : CollisionFree D)

include hinj in
theorem SoundStore.readSnapshot {e : CEvoDB D} (h : SoundStore T p c e) (hash : uint256) :
    Returns (e.readSnapshot hash) (fun r => ∀ l, r = some l → HoldsSnapshot T p c hash l) := by
  unfold CEvoDB.readSnapshot
  split
  · rename_i l hl
    rintro l' ⟨⟩
    rcases Option.or_eq_some_iff.mp hl with hcur | ⟨-, hroot⟩
    · exact h.cur.snapshots hash l hcur
    · exact h.root.snapshots hash l hroot
  · split
    · exact nofun
    · rename_i bs hbs
      obtain ⟨l, order, rfl, hl⟩ := h.db.snapshots hash bs hbs
      obtain ⟨q, -, hbuilt⟩ := hl.built
      have hout := unserialize_serialize_outcome hinj hbuilt.rep hbuilt.storable order []
      rw [List.append_nil] at hout
      cases hres : CDeterministicPNList.unserialize D (l.serialize order) with
      | error e =>
        rcases hout.of_error hres with ⟨a, dmn, hm, h0⟩ | hbig
        · exact (hl.operators a dmn hm h0).elim
        · exact absurd hl.size (Nat.not_le.mpr hbig)
      | ok r =>
        obtain ⟨rfl, -⟩ := hout.of_ok hres
        rintro l' ⟨⟩
        exact hl

include hinj in
theorem SoundStore.readDiff {e : CEvoDB D} (h : SoundStore T p c e) (hash : uint256) :
    Returns (e.readDiff hash) (fun r => (∀ d, r = some d → HoldsDiff T p c D hash d) ∧ (e.HasDiff hash → r ≠ none)) := by
  unfold CEvoDB.readDiff CEvoDB.HasDiff
  split
  · rename_i d hd
    refine ⟨?_, fun _ => nofun⟩
    rintro d' ⟨⟩
    rcases Option.or_eq_some_iff.mp hd with hcur | ⟨-, hroot⟩
    · exact (h.cur.diffs hash d hcur).2
    · exact (h.root.diffs hash d hroot).2
  · rename_i hnone
    rw [Option.or_eq_none_iff] at hnone
    split
    · rename_i hdb
      refine ⟨nofun, fun hhas => ?_⟩
      simp [hnone, hdb] at hhas
    · rename_i bs hbs
      obtain ⟨d, rfl, hheight, hd⟩ := h.db.diffs hash bs hbs
      obtain ⟨q, old, new, hold, hnew, hdip, hdiff⟩ := hd
      obtain ⟨old', hold', hr⟩ := hnew.recorded hinj hdip
      obtain rfl := hold.unique hold'
      have hdiff' : IsDiff old new d := by rwa [← hheight] at hdiff
      have hout := hdiff'.unserialize_outcome hold.rep hnew.rep hold.storable hnew.storable
      cases hres : CDeterministicPNListDiff.unserialize d.serialize with
      | error e => exact (hout.of_error hres hr.sizes).elim
      | ok r =>
        obtain ⟨rfl, -⟩ := hout.of_ok hres
        refine ⟨?_, fun _ => nofun⟩
        rintro d' ⟨⟩
        exact ⟨q, old, new, hold, hnew, hdip, hdiff⟩

end Reads

/-! ## The walk -/

/-- What the calls of `GetListForBlock` do not touch. -/
structure Extends (m m' : CDeterministicPNManager D) : Prop where
  evoDb : m'.evoDb = m.evoDb
  tipIndex : m'.tipIndex = m.tipIndex
  diffs : ∀ (hash : uint256) d, m.mnListDiffsCache[hash]? = some d → m'.mnListDiffsCache[hash]? = some d

theorem Extends.refl (m : CDeterministicPNManager D) : Extends m m := ⟨rfl, rfl, fun _ _ h => h⟩

theorem Extends.trans {m m' m'' : CDeterministicPNManager D} (h : Extends m m') (h' : Extends m' m'') : Extends m m'' :=
  ⟨h'.evoDb.trans h.evoDb, h'.tipIndex.trans h.tipIndex, fun hash d hd => h'.diffs hash d (h.diffs hash d hd)⟩

section Walk

open CDeterministicPNManager Proc

variable {m : CDeterministicPNManager D}

variable (hash l) in
theorem extends_cacheList : Extends m (cacheList hash l m) :=
  ⟨rfl, rfl, fun _ _ h => h⟩

variable (hash d) in
theorem extends_cacheDiff : Extends m (cacheDiff hash d m) :=
  ⟨rfl, rfl, fun _ _ h => FinMap.get_emplace.mpr (.inl h)⟩

theorem SoundCache.cacheList (h : SoundCache T p c m) (hl : HoldsList T p c hash l) :
    SoundCache T p c (cacheList hash l m) where
  lists a l' hget := by
    rcases FinMap.get_emplace.mp hget with hget | ⟨-, rfl, rfl⟩
    · exact h.lists a l' hget
    · exact hl
  diffs := h.diffs

theorem SoundCache.cacheDiff (h : SoundCache T p c m) {d : CDeterministicPNListDiff} (hd : HoldsDiff T p c D hash d) :
    SoundCache T p c (cacheDiff hash d m) where
  lists := h.lists
  diffs a d' hget := by
    rcases FinMap.get_emplace.mp hget with hget | ⟨-, rfl, rfl⟩
    · exact h.diffs a d' hget
    · exact hd

theorem HoldsList.listAt (h : HoldsList T p c i.getBlockHash l) (hmem : T.mem i) : ListAt T p c i l := by
  obtain ⟨j, hj, hhash, hl⟩ := h
  rwa [T.inj hj hmem hhash] at hl

theorem HoldsSnapshot.holdsList (h : HoldsSnapshot T p c hash l) : HoldsList T p c hash l := by
  obtain ⟨q, hdip, hbuilt⟩ := h.built
  exact ⟨_, hbuilt.mem, rfl, .inl ⟨hdip, Nat.succ_ne_zero _, hbuilt⟩⟩

/-- Every block up to the entry has its difference stored. -/
def Covered (p : CChainParams) (e : CEvoDB D) : CBlockIndex → Prop
  | .genesis _ => True
  | .child q hash => (isDIP3Enforced p (q.nHeight + 1) = true → e.HasDiff hash) ∧ Covered p e q

/-- The walk from the entry comes to an end: its list was built and the differences are stored, or it is the entry
right before enforcement. -/
def Reaches (T : BlockTree) (p : CChainParams) (c : Crypto) (e : CEvoDB D) (i : CBlockIndex) : Prop :=
  (isDIP3Enforced p i.nHeight = true ∧ i.nHeight ≠ 0 ∧ Covered p e i ∧ ∃ l : CDeterministicPNList D, Built T p c i l) ∨
  p.isActivationHeight (i.nHeight + 1) .UPGRADE_V6_0 = true

theorem not_reaches {e : CEvoDB D} (hno : ¬e.HasDiff i.getBlockHash)
    (hact : p.isActivationHeight (i.nHeight + 1) .UPGRADE_V6_0 = false) : ¬Reaches T p c e i := by
  rintro (⟨hdip, hne, hcov, -⟩ | h)
  · cases i with
    | genesis g => exact hne rfl
    | child q h => exact hno (hcov.1 hdip)
  · rw [hact] at h
    cases h

variable (hinj : CollisionFree D)

include hinj in
/-- A list that `lookup` finds is that of the block; where it finds none, the diff is cached. -/
theorem lookup_after (hs : SoundCache T p c m) (he : SoundStore T p c m.evoDb) (hmem : T.mem i) :
    After (lookup p i) m
      (fun r m' => Extends m m' ∧ SoundCache T p c m' ∧ (∀ l, r = some l → ListAt T p c i l) ∧
        (r = none → ∃ d, m'.mnListDiffsCache[i.getBlockHash]? = some d))
      (fun _ m' => Extends m m' ∧ SoundCache T p c m' ∧ ¬Reaches T p c m.evoDb i) := by
  unfold lookup
  simp only [after_bind, after_read]
  cases hlist : m.mnListsCache[i.getBlockHash]? with
  | some l =>
    refine ⟨.refl m, hs, ?_, fun h => by cases h⟩
    rintro l' ⟨⟩
    exact (hs.lists _ l hlist).listAt hmem
  | none =>
    simp only [after_bind, after_read, after_ofExcept]
    refine (he.readSnapshot hinj i.getBlockHash).mono (fun r hr => ?_) fun _ h => h.elim
    cases r with
    | some l =>
      have hl := (hr l rfl).holdsList
      refine ⟨extends_cacheList _ l, hs.cacheList hl, ?_, fun h => by cases h⟩
      rintro l' ⟨⟩
      exact hl.listAt hmem
    | none =>
      simp only [after_bind, after_read]
      cases hdiff : m.mnListDiffsCache[i.getBlockHash]? with
      | some d => exact ⟨.refl m, hs, by rintro _ ⟨⟩, fun _ => ⟨d, hdiff⟩⟩
      | none =>
        simp only [after_bind, after_read, after_ofExcept]
        refine (he.readDiff hinj i.getBlockHash).mono (fun r hr => ?_) fun _ h => h.elim
        cases r with
        | some d =>
          refine ⟨extends_cacheDiff _ _, hs.cacheDiff (hr.1 d rfl), by rintro _ ⟨⟩,
            fun _ => ⟨{ d with nHeight := i.nHeight }, ?_⟩⟩
          exact FinMap.get_emplace.mpr (.inr ⟨hdiff, rfl, rfl⟩)
        | none =>
          split_ifs with hact
          · have hbase : ListAt T p c i ({ blockHash := i.getBlockHash } : CDeterministicPNList D) := .inr ⟨hact, rfl⟩
            refine ⟨extends_cacheList _ _, hs.cacheList ⟨i, hmem, rfl, hbase⟩, ?_, fun h => by cases h⟩
            rintro l' ⟨⟩
            exact hbase
          · exact ⟨.refl m, hs, not_reaches (fun hhas => hr.2 hhas rfl) (by simpa using hact)⟩

/-- `is` are the entries after `j` up to `i`, oldest first. -/
inductive Path (j : CBlockIndex) : List CBlockIndex → CBlockIndex → Prop
  | here : Path j [] j
  | step {is : List CBlockIndex} {q : CBlockIndex} {hash : uint256} (h : Path j is q) :
      Path j (is ++ [.child q hash]) (.child q hash)

theorem HoldsDiff.enforced {d : CDeterministicPNListDiff} (h : HoldsDiff T p c D i.getBlockHash d) (hmem : T.mem i) :
    isDIP3Enforced p i.nHeight = true := by
  obtain ⟨q, old, new, -, hnew, hdip, -⟩ := h
  rw [← T.inj hnew.mem hmem rfl]
  exact hdip

theorem Reaches.prev {e : CEvoDB D} (h : Reaches T p c e (.child q hash))
    (hdip : isDIP3Enforced p (q.nHeight + 1) = true) : Reaches T p c e q := by
  rcases h with ⟨-, -, hcov, l, hbuilt⟩ | hact
  · cases hbuilt with
    | connect env hprev _ hstart =>
      cases hq : isDIP3Enforced p q.nHeight with
      | true => exact .inl ⟨hq, hstart hq, hcov.2, _, hprev⟩
      | false => exact .inr (isActivationHeight_iff.mpr ⟨hq, hdip⟩)
  · rw [isActivationHeight_iff, CBlockIndex.nHeight_child, hdip] at hact
    cases hact.1

include hinj in
/-- The backward search ends at a block whose list is known, with the diffs above it. -/
theorem findSnapshot_after (hs : SoundCache T p c m) (he : SoundStore T p c m.evoDb) (hmem : T.mem i)
    (is : List CBlockIndex) : After (findSnapshot p i is) m
      (fun r m' => Extends m m' ∧ SoundCache T p c m' ∧ ∃ j pre, r.2 = pre ++ is ∧ ListAt T p c j r.1 ∧ Path j pre i ∧
        ∀ k ∈ pre, ∃ d, m'.mnListDiffsCache[k.getBlockHash]? = some d)
      (fun _ m' => Extends m m' ∧ SoundCache T p c m' ∧ ¬Reaches T p c m.evoDb i) := by
  induction i generalizing m is with
  | genesis g =>
    unfold findSnapshot
    rw [after_bind]
    refine (lookup_after hinj hs he hmem).mono (fun r m' ⟨hext, hs', hsome, hnone⟩ => ?_) fun _ _ h => h
    cases r with
    | some l => exact ⟨hext, hs', _, [], rfl, hsome l rfl, .here, nofun⟩
    | none =>
      -- no block has genesis as its own
      obtain ⟨d, hd⟩ := hnone rfl
      obtain ⟨q, old, new, -, hnew, -⟩ := hs'.diffs _ d hd
      cases T.inj hnew.mem hmem rfl
  | child q hash ih =>
    unfold findSnapshot
    rw [after_bind]
    refine (lookup_after hinj hs he hmem).mono (fun r m' ⟨hext, hs', hsome, hnone⟩ => ?_) fun _ _ h => h
    cases r with
    | some l => exact ⟨hext, hs', _, [], rfl, hsome l rfl, .here, nofun⟩
    | none =>
      obtain ⟨d, hd⟩ := hnone rfl
      have hdip := (hs'.diffs _ d hd).enforced (i := .child q hash) hmem
      refine (ih hs' (hext.evoDb ▸ he) (T.prev hmem) (.child q hash :: is)).mono (fun r m'' ⟨hext', hs'', hfound⟩ => ?_)
        fun _ _ ⟨hext', hs'', hnot⟩ => ⟨hext.trans hext', hs'', fun h => hnot (hext.evoDb ▸ h.prev hdip)⟩
      obtain ⟨j, pre, hr, hl, hpath, hcached⟩ := hfound
      refine ⟨hext.trans hext', hs'', j, pre ++ [.child q hash], ?_, hl, hpath.step, fun k hk => ?_⟩
      · rw [hr, List.append_assoc]
        rfl
      · rcases List.mem_append.mp hk with hk | hk
        · exact hcached k hk
        · rw [List.mem_singleton] at hk
          exact ⟨d, hk ▸ hext'.diffs _ d hd⟩

include hinj in
/-- Replaying the collected diffs gives the list of the block asked for. -/
theorem applyCachedDiffs (hs : SoundCache T p c m) {j : CBlockIndex} {is : List CBlockIndex} (hpath : Path j is i)
    (hmem : T.mem i) (hcached : ∀ k ∈ is, ∃ d, m.mnListDiffsCache[k.getBlockHash]? = some d) (hl : ListAt T p c j l) :
    ∃ l', is.foldlM (applyCachedDiff m.mnListDiffsCache) l = .ok l' ∧ ListAt T p c i l' := by
  induction hpath with
  | here => exact ⟨l, rfl, hl⟩
  | @step is q hash _ ih =>
    obtain ⟨lq, hfold, hlq⟩ := ih (T.prev hmem) fun k hk => hcached k (List.mem_append_left _ hk)
    obtain ⟨d, hd⟩ := hcached (.child q hash) (by simp)
    obtain ⟨q', old, new, hold, hnew, hdip, hdiff⟩ := hs.diffs _ d hd
    cases T.inj hnew.mem hmem rfl
    obtain ⟨old', hold', hr⟩ := hnew.recorded hinj hdip
    obtain rfl := hold.unique hold'
    have happly : lq.applyDiff (.child q hash) d = .ok new := hr.apply hinj hdiff (hlq.eq_header hold)
    refine ⟨new, ?_, .inl ⟨hdip, Nat.succ_ne_zero _, hnew⟩⟩
    rw [List.foldlM_append, hfold, ok_bind, List.foldlM_cons, applyCachedDiff_eq hd, happly]
    rfl

/-- What `GetListForBlock` may return for an entry. -/
def Answer (T : BlockTree) (p : CChainParams) (c : Crypto) (i : CBlockIndex) (l : CDeterministicPNList D) : Prop :=
  (isDIP3Enforced p i.nHeight = false ∧ l = {}) ∨
  (isDIP3Enforced p i.nHeight = true ∧ i.nHeight ≠ 0 ∧ Built T p c i l)

/-- The answer is the list that was built, where one was. -/
theorem Answer.eq_of_built (h : Answer T p c i l) (hb : Built T p c i l') : l = l' := by
  rcases h with ⟨hdip, rfl⟩ | ⟨-, -, hb'⟩
  · exact (hb.eq_empty hdip).symm
  · exact hb'.unique hb

include hinj in
/-- **`GetListForBlock`** returns the list of the block, whatever is cached or stored, and finds it where the blocks up
to it have their differences stored. -/
theorem getListForBlock_after (hs : SoundCache T p c m) (he : SoundStore T p c m.evoDb) (hmem : T.mem i) :
    After (getListForBlock p i) m
      (fun l m' => Extends m m' ∧ SoundCache T p c m' ∧ Answer T p c i l)
      (fun _ m' => Extends m m' ∧ SoundCache T p c m' ∧ ¬Reaches T p c m.evoDb i) := by
  unfold getListForBlock
  split_ifs with hdip
  · exact ⟨.refl m, hs, .inl ⟨hdip, rfl⟩⟩
  · rw [Bool.not_eq_false] at hdip
    rw [after_bind]
    refine (findSnapshot_after hinj hs he hmem []).mono (fun r m' ⟨hext, hs', hfound⟩ => ?_) fun _ _ h => h
    obtain ⟨j, pre, hr, hl, hpath, hcached⟩ := hfound
    rw [List.append_nil] at hr
    obtain ⟨l', hfold, hl'⟩ := applyCachedDiffs hinj hs' hpath hmem hcached hl
    obtain ⟨snapshot, is⟩ := r
    obtain rfl : is = pre := hr
    simp only [after_bind, after_read, after_ofExcept, after_modify]
    rw [hfold]
    have hlist := hl'.built hdip
    have hhash : l'.blockHash = i.getBlockHash := by
      cases hlist.2 with
      | genesis => exact (hlist.1 rfl).elim
      | connect env hprev hmem' hstart hnew hcare =>
        obtain ⟨_, -, hrec⟩ := (Built.connect env hprev hmem' hstart hnew hcare).recorded hinj hdip
        exact hrec.blockHash
    refine ⟨?_, ?_, .inr ⟨hdip, hlist⟩⟩
    · split
      · exact hext.trans (extends_cacheList _ _)
      · exact hext
    · split
      · exact hs'.cacheList ⟨i, hmem, hhash.symm, .inl ⟨hdip, hlist⟩⟩
      · exact hs'

end Walk

end TrumpCoin
