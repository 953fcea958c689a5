import TrumpCoin.Evo.ListCache

/-!
# Runs of the manager

A run connects and disconnects blocks, with the transaction of the database committed or rolled back after each, checks
blocks, asks for lists, moves the tip, cleans the caches, flushes the database and restarts. The ghost state keeps the
list that `ProcessBlock` computed for a block, the connected chain and the chain at the last flush.

* `ManagerInv.step`: every step keeps the cached and stored values sound;
* `lists_are_transparent`: in every run of careful blocks `GetListForBlock` returns the list that was computed.
-/

namespace TrumpCoin

open Lib CDeterministicPNManager Proc

variable {D : Type} [Digest D] {T : BlockTree} {p : CChainParams} {c : Crypto} {m m' : CDeterministicPNManager D}
  {q i : CBlockIndex} {hash : uint256} {l old new : CDeterministicPNList D} {block : CBlock}

/-! ## Sound layers -/

theorem SoundCache.cleanupCache (h : SoundCache T p c m) (nHeight : Int) :
    SoundCache T p c (m.cleanupCache nHeight) where
  lists a l' hget := by
    rw [CDeterministicPNManager.cleanupCache, Std.ExtTreeMap.getElem?_filter', Option.filter_eq_some_iff] at hget
    exact h.lists a l' hget.1
  diffs a d hget := by
    rw [CDeterministicPNManager.cleanupCache, Std.ExtTreeMap.getElem?_filter', Option.filter_eq_some_iff] at hget
    exact h.diffs a d hget.1

theorem SoundCache.eraseCached (h : SoundCache T p c m) (hash : uint256) : SoundCache T p c (eraseCached hash m) where
  lists := FinMap.forall_erase h.lists
  diffs := FinMap.forall_erase h.diffs

theorem SoundCache.withDb (h : SoundCache T p c m) (e : CEvoDB D) : SoundCache T p c { m with evoDb := e } :=
  ⟨h.lists, h.diffs⟩

theorem SoundCache.empty : SoundCache T p c ({ evoDb := m.evoDb } : CDeterministicPNManager D) where
  lists := FinMap.forall_empty
  diffs := FinMap.forall_empty

theorem SoundWrites.empty : SoundWrites T p c ({} : EvoWrites D) where
  snapshots := FinMap.forall_empty
  diffs := FinMap.forall_empty

theorem SoundTable.empty : SoundTable T p c D {} where
  snapshots := FinMap.forall_empty
  diffs := FinMap.forall_empty

variable {e e' : CEvoDB D}

theorem SoundStore.commit (h : SoundStore T p c e) : SoundStore T p c e.commitCurTransaction where
  cur := .empty
  root := by
    refine ⟨fun a l' hget => ?_, fun a d hget => ?_⟩ <;>
      rw [CEvoDB.commitCurTransaction, Std.ExtTreeMap.getElem?_union, Option.or_eq_some_iff] at hget
    · exact hget.elim (h.cur.snapshots a l') fun hget => h.root.snapshots a l' hget.2
    · exact hget.elim (h.cur.diffs a d) fun hget => h.root.diffs a d hget.2
  db := h.db

theorem SoundStore.flush (h : SoundStore T p c e) (order : MapOrder) :
    SoundStore T p c (e.commitRootTransaction order) where
  cur := h.cur
  root := .empty
  db := by
    refine ⟨fun a bs hget => ?_, fun a bs hget => ?_⟩ <;>
      rw [CEvoDB.commitRootTransaction, Std.ExtTreeMap.getElem?_union, Option.or_eq_some_iff,
        Std.ExtTreeMap.getElem?_map, Option.map_eq_some_iff] at hget
    · rcases hget with ⟨l, hl, rfl⟩ | ⟨-, hget⟩
      · exact ⟨l, order, rfl, h.root.snapshots a l hl⟩
      · exact h.db.snapshots a bs hget
    · rcases hget with ⟨d, hd, rfl⟩ | ⟨-, hget⟩
      · exact ⟨d, rfl, h.root.diffs a d hd⟩
      · exact h.db.diffs a bs hget

theorem Covered.mono (h : ∀ a, e.HasDiff a → e'.HasDiff a) : ∀ {i : CBlockIndex}, Covered p e i → Covered p e' i
  | .genesis _, _ => trivial
  | .child _ hash, hc => ⟨fun hdip => h hash (hc.1 hdip), Covered.mono h hc.2⟩

theorem hasDiff_commit (h : e.HasDiff hash) : e.commitCurTransaction.HasDiff hash := by
  unfold CEvoDB.HasDiff CEvoDB.commitCurTransaction at *
  simp only [Std.ExtTreeMap.getElem?_union, Option.isSome_or]
  rcases h with (h | h) | h <;> simp [h]

theorem hasDiff_flush (hclean : e.curDBTransaction = {}) (order : MapOrder) (h : e.HasDiff hash) :
    CEvoDB.HasDiff (D := D) { db := (e.commitRootTransaction order).db } hash := by
  unfold CEvoDB.HasDiff CEvoDB.commitRootTransaction at *
  rw [hclean] at h
  simp only [Std.ExtTreeMap.getElem?_union, Option.isSome_or, Std.ExtTreeMap.getElem?_map, Option.isSome_map]
  rcases h with (h | h) | h
  · simp at h
  · simp [h]
  · simp [h]

theorem hasDiff_of_db (h : CEvoDB.HasDiff (D := D) { db := e.db } hash) : e.HasDiff hash := by
  rcases h with (h | h) | h
  · simp at h
  · simp at h
  · exact .inr h

/-! ## `ProcessBlock` -/

variable {d : CDeterministicPNListDiff}

theorem storeList_sound (hinj : CollisionFree D) (hs : SoundCache T p c m)
    (he : SoundStore T p c m.evoDb) (hold : Built T p c q old) (hnew : Built T p c (.child q hash) new)
    (hdip : isDIP3Enforced p (q.nHeight + 1) = true) (hhash : block.getHash = hash) (hd : IsDiff old new d) :
    SoundCache T p c (storeList block q old new d m) ∧ SoundStore T p c (storeList block q old new d m).evoDb ∧
      (storeList block q old new d m).evoDb.HasDiff hash ∧
      (storeList block q old new d m).evoDb.rollbackCurTransaction = m.evoDb.rollbackCurTransaction := by
  obtain ⟨old', hold', hr⟩ := hnew.recorded hinj hdip
  obtain rfl := hold.unique hold'
  have hblock := hr.blockHash
  have hdiff : d.nHeight = -1 ∧ HoldsDiff T p c D hash d :=
    ⟨hd.nHeight, q, old, new, hold, hnew, hdip, by rw [← hd.nHeight]; exact hd⟩
  have hcached : HoldsDiff T p c D hash { d with nHeight := ((q.nHeight + 1 : Nat) : Int) } :=
    ⟨q, old, new, hold, hnew, hdip, by rw [← hd.nHeight]; exact hd⟩
  have hdiffs : ∀ (a : uint256) d', (m.evoDb.curDBTransaction.diffs.insert hash d)[a]? = some d' →
      d'.nHeight = -1 ∧ HoldsDiff T p c D a d' := FinMap.forall_insert he.cur.diffs hdiff
  have hhas : (m.evoDb.curDBTransaction.diffs.insert hash d)[hash]?.isSome = true := by simp
  unfold storeList
  dsimp only
  rw [hblock, hhash]
  split_ifs with hwrite
  · have hsnap : HoldsSnapshot T p c hash new := ⟨⟨q, hdip, hnew⟩, hr.operators (by simpa using hwrite), hr.size⟩
    have hsnaps : ∀ (a : uint256) l', (m.evoDb.curDBTransaction.snapshots.insert hash new)[a]? = some l' →
        HoldsSnapshot T p c a l' := FinMap.forall_insert he.cur.snapshots hsnap
    exact ⟨((hs.withDb _).cacheList hsnap.holdsList).cacheDiff hcached, ⟨⟨hsnaps, hdiffs⟩, he.root, he.db⟩,
      .inl (.inl hhas), rfl⟩
  · exact ⟨(hs.withDb _).cacheDiff hcached, ⟨⟨he.cur.snapshots, hdiffs⟩, he.root, he.db⟩,
      .inl (.inl hhas), rfl⟩

/-- What is known of the manager after a block was processed, successfully or not. -/
structure Processed (T : BlockTree) (p : CChainParams) (c : Crypto) (m m' : CDeterministicPNManager D) : Prop where
  cache : SoundCache T p c m'
  store : SoundStore T p c m'.evoDb
  kept : m'.evoDb.rollbackCurTransaction = m.evoDb.rollbackCurTransaction
  grows : ∀ a, m.evoDb.HasDiff a → m'.evoDb.HasDiff a

theorem Extends.processed (h : Extends m m') (hs : SoundCache T p c m') (he : SoundStore T p c m.evoDb) :
    Processed T p c m m' :=
  ⟨hs, h.evoDb ▸ he, by rw [h.evoDb], fun _ ha => h.evoDb ▸ ha⟩

theorem hasDiff_storeList {a : uint256} (h : m.evoDb.HasDiff a) :
    (storeList block q old new d m).evoDb.HasDiff a := by
  have hins : ∀ k : uint256, m.evoDb.curDBTransaction.diffs[a]?.isSome = true →
      (m.evoDb.curDBTransaction.diffs.insert k d)[a]?.isSome = true := by
    intro k hk
    rw [FinMap.get_insert]
    split
    · rfl
    · exact hk
  unfold storeList
  dsimp only
  split <;> exact h.imp_left (.imp_left (hins _))

section Process

variable (hinj : CollisionFree D) {env : Env}

variable (hs : SoundCache T p c m) (he : SoundStore T p c m.evoDb)
include hs he

include hinj in
/-- **Processing a block.** The list before the block is found first; a list is stored together with its difference, and
nothing is written where processing fails or the block is just checked. -/
theorem processSpecialTxs_spec (hold : Built T p c q old) (fJustCheck : Bool)
    : After (processSpecialTxs p c env block q fJustCheck) m
      (fun new m' => ∃ m₁, Extends m m₁ ∧ SoundCache T p c m₁ ∧ (fJustCheck = true ∧ m' = m₁ ∨
        fJustCheck = false ∧ (isDIP3Enforced p q.nHeight = true → q.nHeight ≠ 0) ∧
        (⟨p, c, env, block, q, old⟩ : BlockInput D).process = .ok new ∧
        (isDIP3Enforced p (q.nHeight + 1) = false ∧ m' = m₁ ∨ isDIP3Enforced p (q.nHeight + 1) = true ∧
          ∃ d, IsDiff old new d ∧ m' = (storeList block q old new d m₁).cleanupCache (q.nHeight + 1))))
      (fun _ m' => Extends m m' ∧ SoundCache T p c m') := by
  unfold processSpecialTxs
  rw [after_bind]
  refine (getListForBlock_after hinj hs he hold.mem).mono (fun l₁ m₁ ⟨hext₁, hs₁, ha₁⟩ => ?_) fun _ _ h => ⟨h.1, h.2.1⟩
  obtain rfl := ha₁.eq_of_built hold
  have hstart : isDIP3Enforced p q.nHeight = true → q.nHeight ≠ 0 := by
    intro hq
    rcases ha₁ with ⟨hnot, -⟩ | ⟨-, hne, -⟩
    · rw [hq] at hnot
      cases hnot
    · exact hne
  rw [after_bind, after_ofExcept]
  refine Outcome.of_forall (fun _ hcheck => ?_) fun _ _ => ⟨hext₁, hs₁⟩
  rw [forM_eq_ok] at hcheck
  unfold processBlock
  cases hdip : isDIP3Enforced p (q.nHeight + 1) with
  | false =>
    have hnew : (⟨p, c, env, block, q, l₁⟩ : BlockInput D).process = .ok {} :=
      process_eq_ok.mpr ⟨hcheck, newListOfBlock_eq_ok.mpr (.inl ⟨hdip, rfl⟩)⟩
    rw [if_pos rfl, after_pure]
    cases fJustCheck with
    | true => exact ⟨m₁, hext₁, hs₁, .inl ⟨rfl, rfl⟩⟩
    | false => exact ⟨m₁, hext₁, hs₁, .inr ⟨rfl, hstart, hnew, .inl ⟨rfl, rfl⟩⟩⟩
  | true =>
    unfold processLists
    rw [if_neg Bool.true_eq_false_eq_False, after_bind, after_mapError, after_bind]
    refine (getListForBlock_after hinj hs₁ (hext₁.evoDb ▸ he) hold.mem).mono (fun l₂ m₂ ⟨hext, hs₂, ha₂⟩ => ?_)
      fun _ _ h => ⟨hext₁.trans h.1, h.2.1⟩
    obtain rfl := ha₂.eq_of_built hold
    have hext₂ := hext₁.trans hext
    rw [after_bind, after_ofExcept]
    refine Outcome.of_forall (fun b hbuild => ?_) fun _ _ => ⟨hext₂, hs₂⟩
    cases fJustCheck with
    | true => exact ⟨m₂, hext₂, hs₂, .inl ⟨rfl, rfl⟩⟩
    | false =>
      rw [if_neg Bool.false_ne_true, after_bind]
      refine (getListForBlock_after hinj hs₂ (hext₂.evoDb ▸ he) hold.mem).mono (fun l₃ m₃ ⟨hext, hs₃, ha₃⟩ => ?_)
        fun _ _ h => ⟨hext₂.trans h.1, h.2.1⟩
      obtain rfl := ha₃.eq_of_built hold
      have hnew : (⟨p, c, env, block, q, l₃⟩ : BlockInput D).process = .ok { b with blockHash := block.getHash } :=
        process_eq_ok.mpr ⟨hcheck, newListOfBlock_eq_ok.mpr (.inr ⟨hdip, b, hbuild, rfl⟩)⟩
      obtain ⟨d, hd, hdiff⟩ := buildDiff_spec env.order hold.rep (process_rep hold.rep hnew)
      rw [after_bind, after_ofExcept, hd, outcome_ok, after_bind, after_modify, after_pure, after_bind, after_modify,
        after_pure]
      exact ⟨m₃, hext₂.trans hext, hs₃, .inr ⟨rfl, hstart, hnew, .inr ⟨rfl, d, hdiff, rfl⟩⟩⟩

include hinj in
/-- **Processing a block** keeps everything sound; a list that is returned and stored is that of the block. -/
theorem processSpecialTxs_after (hold : Built T p c q old) (fJustCheck : Bool)
    (hmem : fJustCheck = false → T.mem (.child q block.getHash) ∧ T.block (.child q block.getHash) = block)
    (hcareful : fJustCheck = false → isDIP3Enforced p (q.nHeight + 1) = true → Careful ⟨p, c, env, block, q, old⟩) :
    After (processSpecialTxs p c env block q fJustCheck) m
      (fun new m' => Processed T p c m m' ∧ (fJustCheck = false → Built T p c (.child q block.getHash) new ∧
        (isDIP3Enforced p (q.nHeight + 1) = true → m'.evoDb.HasDiff block.getHash)))
      (fun _ m' => Processed T p c m m') := by
  refine (processSpecialTxs_spec hinj hs he hold fJustCheck).mono (fun new m' ⟨m₁, hext, hs₁, hres⟩ => ?_)
    fun _ _ h => h.1.processed h.2 he
  have hfirst := hext.processed hs₁ he
  rcases hres with ⟨rfl, rfl⟩ | ⟨rfl, hstart, hnew, hres⟩
  · exact ⟨hfirst, nofun⟩
  obtain ⟨hmem, hblock⟩ := hmem rfl
  have hbuilt : Built T p c (.child q block.getHash) new := by
    refine .connect env hold hmem hstart ?_ fun h => ?_ <;> rw [hblock]
    · exact hnew
    · exact hcareful rfl h
  rcases hres with ⟨hdip, rfl⟩ | ⟨hdip, d, hdiff, rfl⟩
  · exact ⟨hfirst, fun _ => ⟨hbuilt, fun h => by rw [hdip] at h; cases h⟩⟩
  · obtain ⟨hs₂, he₂, hhas, hkept⟩ := storeList_sound hinj hs₁ hfirst.store hold hbuilt hdip rfl hdiff
    have hgrows : ∀ a, m.evoDb.HasDiff a → (storeList block q old new d m₁).evoDb.HasDiff a :=
      fun a ha => hasDiff_storeList (hfirst.grows a ha)
    exact ⟨⟨hs₂.cleanupCache _, he₂, hkept.trans hfirst.kept, hgrows⟩, fun _ => ⟨hbuilt, fun _ => hhas⟩⟩

include hinj in
/-- **Undoing a block** keeps everything sound, and succeeds where the lists can be rebuilt. -/
theorem undoBlock_after (hmem : T.mem (.child q hash)) (hhash : block.getHash = hash) (order : MapOrder) :
    After (undoBlock p block q order) m
      (fun _ m' => SoundCache T p c m' ∧ m'.evoDb = m.evoDb)
      (fun _ m' => SoundCache T p c m' ∧ m'.evoDb = m.evoDb ∧ ¬Reaches T p c m.evoDb (.child q hash)) := by
  unfold undoBlock
  split_ifs with hdip
  · exact ⟨hs, rfl⟩
  · rw [Bool.not_eq_false] at hdip
    simp only [after_bind, after_read, after_ofExcept, hhash]
    refine (he.readDiff hinj hash).mono (fun r _ => ?_) fun _ h => h.elim
    split
    · rw [after_bind]
      refine (getListForBlock_after hinj hs he hmem).mono (fun l₁ m₁ h₁ => ?_) fun _ _ h => ⟨h.2.1, h.1.evoDb, h.2.2⟩
      obtain ⟨hext, hs₁, ha₁⟩ := h₁
      rw [after_bind]
      refine (getListForBlock_after hinj hs₁ (hext.evoDb ▸ he) (T.prev hmem)).mono (fun l₂ m₂ h₂ => ?_)
        fun _ _ h => ⟨h.2.1, h.1.evoDb.trans hext.evoDb, fun hr => h.2.2 (hext.evoDb.symm ▸ hr.prev hdip)⟩
      obtain ⟨hext₂, hs₂, ha₂⟩ := h₂
      have hrep : ∀ {i : CBlockIndex} {l : CDeterministicPNList D}, Answer T p c i l → RepInv l := by
        rintro i l (⟨-, rfl⟩ | ⟨-, -, hb⟩)
        · exact RepInv.init 0 (-1) 0
        · exact hb.rep
      obtain ⟨d, hd, -⟩ := buildDiff_spec order (hrep ha₁) (hrep ha₂)
      rw [after_bind, after_modify, after_bind, after_ofExcept, hd]
      exact ⟨hs₂.eraseCached hash, hext₂.evoDb.trans hext.evoDb⟩
    · exact ⟨hs.eraseCached hash, rfl⟩

end Process

/-! ## Runs -/

def CBlockIndex.chain : CBlockIndex → List CBlockIndex
  | .genesis hash => [.genesis hash]
  | .child pprev hash => .child pprev hash :: pprev.chain

/-- The manager, with the list that `ProcessBlock` computed for each block, the tip and the tip at the last flush. -/
structure ManagerState (D : Type) [Digest D] where
  manager : CDeterministicPNManager D := {}
  computed : CBlockIndex → Option (CDeterministicPNList D) := fun _ => none
  tip : CBlockIndex
  stored : CBlockIndex

namespace ManagerState

def start (D : Type) [Digest D] (hash : uint256) : ManagerState D :=
  { tip := .genesis hash, stored := .genesis hash }

def tipList (s : ManagerState D) : CDeterministicPNList D := (s.computed s.tip).getD {}

end ManagerState

section Run

variable (T p c)

/-- The calls that reach the manager. A block is stored by `ProcessBlock` in a transaction that is committed if the
block connects and rolled back otherwise. -/
inductive ManagerStep : ManagerState D → ManagerState D → Prop
  | connect {s : ManagerState D} {new : CDeterministicPNList D} {m : CDeterministicPNManager D} (env : Env)
      (block : CBlock) (hmem : T.mem (.child s.tip block.getHash)) (hblock : T.block (.child s.tip block.getHash) = block)
      (hcareful : isDIP3Enforced p (s.tip.nHeight + 1) = true → Careful ⟨p, c, env, block, s.tip, s.tipList⟩)
      (h : processSpecialTxs p c env block s.tip false s.manager = (.ok new, m)) :
      ManagerStep s
        { s with
          manager := m.commit
          computed := Function.update s.computed (.child s.tip block.getHash) (some new)
          tip := .child s.tip block.getHash }
  | discard {s : ManagerState D} (env : Env) (block : CBlock) (hmem : T.mem (.child s.tip block.getHash))
      (hblock : T.block (.child s.tip block.getHash) = block)
      (hcareful : isDIP3Enforced p (s.tip.nHeight + 1) = true → Careful ⟨p, c, env, block, s.tip, s.tipList⟩) :
      ManagerStep s { s with manager := (processSpecialTxs p c env block s.tip false s.manager).2.rollback }
  | check {s : ManagerState D} (env : Env) (block : CBlock) :
      ManagerStep s { s with manager := (processSpecialTxs p c env block s.tip true s.manager).2.rollback }
  | disconnect {s : ManagerState D} {q : CBlockIndex} {hash : uint256} {m : CDeterministicPNManager D} (block : CBlock)
      (order : MapOrder) (htip : s.tip = .child q hash) (hblock : T.block s.tip = block)
      (h : undoBlock p block q order s.manager = (.ok (), m)) :
      ManagerStep s { s with manager := m.commit, tip := q }
  | undoRolledBack {s : ManagerState D} {q : CBlockIndex} {hash : uint256} (block : CBlock) (order : MapOrder)
      (htip : s.tip = .child q hash) (hblock : T.block s.tip = block) :
      ManagerStep s { s with manager := (undoBlock p block q order s.manager).2.rollback }
  | updatedBlockTip {s : ManagerState D} (i : CBlockIndex) :
      ManagerStep s { s with manager := s.manager.updatedBlockTip i }
  | cleanupCache {s : ManagerState D} (nHeight : Int) :
      ManagerStep s { s with manager := s.manager.cleanupCache nHeight }
  | getListForBlock {s : ManagerState D} (i : CBlockIndex) (hmem : T.mem i) :
      ManagerStep s { s with manager := (getListForBlock p i s.manager).2 }
  | flush {s : ManagerState D} (order : MapOrder) :
      ManagerStep s
        { s with
          manager := { s.manager with evoDb := s.manager.evoDb.commitRootTransaction order }
          stored := s.tip }
  | restartManager {s : ManagerState D} : ManagerStep s { s with manager := { evoDb := s.manager.evoDb } }
  | restart {s : ManagerState D} :
      ManagerStep s { s with manager := { evoDb := { db := s.manager.evoDb.db } }, tip := s.stored }

/-- Every block of the chain up to the entry was computed. -/
def HasLists (computed : CBlockIndex → Option (CDeterministicPNList D)) : CBlockIndex → Prop
  | .genesis hash => T.mem (.genesis hash)
  | .child q hash => (computed (.child q hash)).isSome ∧ HasLists computed q

structure ManagerInv (s : ManagerState D) : Prop where
  cache : SoundCache T p c s.manager
  store : SoundStore T p c s.manager.evoDb
  clean : s.manager.evoDb.curDBTransaction = {}
  built : ∀ i l, s.computed i = some l → Built T p c i l
  tip : Covered p s.manager.evoDb s.tip ∧ HasLists T s.computed s.tip
  stored : Covered p ({ db := s.manager.evoDb.db } : CEvoDB D) s.stored ∧ HasLists T s.computed s.stored

end Run

variable {f : CBlockIndex → Option (CDeterministicPNList D)}

theorem HasLists.mono {g : CBlockIndex → Option (CDeterministicPNList D)} (h : ∀ i, (f i).isSome → (g i).isSome) :
    ∀ {i : CBlockIndex}, HasLists T f i → HasLists T g i
  | .genesis _, hf => hf
  | .child _ _, hf => ⟨h _ hf.1, HasLists.mono h hf.2⟩

theorem isSome_update {j : CBlockIndex} (h : (f j).isSome) :
    (Function.update f i (some l) j).isSome := by
  rw [Function.update_apply]
  split
  · rfl
  · exact h

theorem rollback_eq_self (h : e.curDBTransaction = {}) : e.rollbackCurTransaction = e := by
  unfold CEvoDB.rollbackCurTransaction
  rw [← h]

namespace ManagerInv

variable {s s' : ManagerState D}

theorem start (hmem : T.mem (.genesis hash)) : ManagerInv T p c (ManagerState.start D hash) where
  cache := .empty (m := {})
  store := ⟨.empty, .empty, .empty⟩
  clean := rfl
  built i l h := by cases h
  tip := ⟨trivial, hmem⟩
  stored := ⟨trivial, hmem⟩

variable (h : ManagerInv T p c s)
include h

theorem builtAt {i : CBlockIndex} (hi : HasLists T s.computed i) : Built T p c i ((s.computed i).getD {}) := by
  cases hcomp : s.computed i with
  | some l => exact h.built i l hcomp
  | none =>
    cases i with
    | genesis g => exact .genesis hi
    | child q a =>
      rw [HasLists, hcomp] at hi
      cases hi.1

theorem tipBuilt : Built T p c s.tip s.tipList := h.builtAt h.tip.2

theorem withCache {m : CDeterministicPNManager D} (hs : SoundCache T p c m)
    (he : m.evoDb = s.manager.evoDb) : ManagerInv T p c { s with manager := m } where
  cache := hs
  store := by rw [he]; exact h.store
  clean := by rw [he]; exact h.clean
  built := h.built
  tip := by rw [he]; exact h.tip
  stored := by rw [he]; exact h.stored

theorem rolledBack {α : Type} {x : ManagerM D α}
    (hx : After x s.manager (fun _ m => Processed T p c s.manager m) fun _ m => Processed T p c s.manager m) :
    ManagerInv T p c { s with manager := (x s.manager).2.rollback } := by
  have hp : Processed T p c s.manager (x s.manager).2 := by
    unfold After at hx
    split at hx <;> rename_i hres <;> rwa [hres]
  exact h.withCache (hp.cache.withDb _) (hp.kept.trans (rollback_eq_self h.clean))

omit h

theorem step (hinj : CollisionFree D) (h : ManagerInv T p c s)
    (hstep : ManagerStep T p c s s') : ManagerInv T p c s' := by
  cases hstep with
  | @connect new m env block hmem hblock hcareful hrun =>
    obtain ⟨hp, hres⟩ := (processSpecialTxs_after hinj h.cache h.store h.tipBuilt false
      (fun _ => ⟨hmem, hblock⟩) fun _ => hcareful).of_ok hrun
    obtain ⟨hbuilt, hhas⟩ := hres rfl
    have hdb : m.evoDb.db = s.manager.evoDb.db := (CEvoDB.mk.inj hp.kept).1
    refine ⟨hp.cache.withDb _, hp.store.commit, rfl, fun i l hi => ?_, ⟨⟨fun hdip => hasDiff_commit (hhas hdip), ?_⟩, ?_⟩,
      ?_, h.stored.2.mono fun j => isSome_update⟩
    · dsimp only at hi
      rw [Function.update_apply] at hi
      split at hi
      · subst i
        cases hi
        exact hbuilt
      · exact h.built i l hi
    · exact h.tip.1.mono fun a ha => hasDiff_commit (hp.grows a ha)
    · exact ⟨by simp, h.tip.2.mono fun j => isSome_update⟩
    · have hstored := h.stored.1
      rw [← hdb] at hstored
      exact hstored
  | discard env block hmem hblock hcareful =>
    exact h.rolledBack ((processSpecialTxs_after hinj h.cache h.store h.tipBuilt false (fun _ => ⟨hmem, hblock⟩)
      fun _ => hcareful).mono (fun _ _ hp => hp.1) fun _ _ hp => hp)
  | check env block =>
    exact h.rolledBack ((processSpecialTxs_after hinj h.cache h.store h.tipBuilt true nofun
      nofun).mono (fun _ _ hp => hp.1) fun _ _ hp => hp)
  | @disconnect q hash m block order htip hblock hrun =>
    have hmem : T.mem (.child q hash) := htip ▸ h.tipBuilt.mem
    obtain ⟨hs, he⟩ := (undoBlock_after hinj h.cache h.store hmem (by rw [← hblock, htip]; exact T.hash hmem) order).of_ok
      hrun
    have hcov := h.tip
    rw [htip] at hcov
    refine ⟨hs.withDb _, (he ▸ h.store).commit, rfl, h.built, ⟨?_, hcov.2.2⟩, ?_, h.stored.2⟩
    · exact hcov.1.2.mono fun a ha => hasDiff_commit (he ▸ ha)
    · have hstored := h.stored.1
      rw [← he] at hstored
      exact hstored
  | @undoRolledBack q hash block order htip hblock =>
    have hmem : T.mem (.child q hash) := htip ▸ h.tipBuilt.mem
    have hprocessed : ∀ {m : CDeterministicPNManager D}, SoundCache T p c m → m.evoDb = s.manager.evoDb →
        Processed T p c s.manager m :=
      fun hs he => ⟨hs, he ▸ h.store, by rw [he], fun _ ha => he ▸ ha⟩
    exact h.rolledBack ((undoBlock_after hinj h.cache h.store hmem (by rw [← hblock, htip]; exact T.hash hmem) order).mono
      (fun _ _ hp => hprocessed hp.1 hp.2) fun _ _ hp => hprocessed hp.1 hp.2.1)
  | updatedBlockTip i => exact h.withCache ⟨h.cache.lists, h.cache.diffs⟩ rfl
  | cleanupCache nHeight => exact h.withCache (h.cache.cleanupCache nHeight) rfl
  | getListForBlock i hmem =>
    have hafter := getListForBlock_after hinj h.cache h.store hmem
    cases hres : getListForBlock p i s.manager with
    | mk r m =>
      cases r with
      | ok l => exact h.withCache (hafter.of_ok hres).2.1 (hafter.of_ok hres).1.evoDb
      | error e => exact h.withCache (hafter.of_error hres).2.1 (hafter.of_error hres).1.evoDb
  | flush order =>
    have hflush : Covered p ({ db := (s.manager.evoDb.commitRootTransaction order).db } : CEvoDB D) s.tip :=
      h.tip.1.mono fun a ha => hasDiff_flush h.clean order ha
    exact ⟨h.cache.withDb _, h.store.flush order, h.clean, h.built, ⟨hflush.mono fun a => hasDiff_of_db, h.tip.2⟩, hflush,
      h.tip.2⟩
  | restartManager => exact h.withCache .empty rfl
  | restart =>
    exact ⟨.empty (m := { evoDb := { db := s.manager.evoDb.db } }), ⟨.empty, .empty, h.store.db⟩, rfl, h.built, h.stored,
      h.stored⟩

theorem run (hinj : CollisionFree D) (hmem : T.mem (.genesis hash))
    (h : Relation.ReflTransGen (ManagerStep T p c) (ManagerState.start D hash) s) : ManagerInv T p c s := by
  induction h with
  | refl => exact start hmem
  | tail _ hstep ih => exact ih.step hinj hstep

end ManagerInv

theorem HasLists.of_mem {t : CBlockIndex} (h : HasLists T f t)
    (hi : i ∈ t.chain) : HasLists T f i := by
  induction t with
  | genesis g => rwa [List.mem_singleton.mp hi]
  | child q a ih =>
    rcases List.mem_cons.mp hi with rfl | hi
    · exact h
    · exact ih h.2 hi

theorem Covered.of_mem {t : CBlockIndex} (h : Covered p e t) (hi : i ∈ t.chain) : Covered p e i := by
  induction t with
  | genesis g => rwa [List.mem_singleton.mp hi]
  | child q a ih =>
    rcases List.mem_cons.mp hi with rfl | hi
    · exact h
    · exact ih h.2 hi

/-- In a run, `GetListForBlock` returns the list that was computed for a connected block. -/
theorem ManagerInv.answers (hinj : CollisionFree D) {s : ManagerState D}
    (h : ManagerInv T p c s) (hi : .child q hash ∈ s.tip.chain) (hdip : isDIP3Enforced p (q.nHeight + 1) = true) :
    ∃ l m, s.computed (.child q hash) = some l ∧ Built T p c (.child q hash) l ∧
      getListForBlock p (.child q hash) s.manager = (.ok l, m) := by
  have hlists := h.tip.2.of_mem hi
  obtain ⟨l, hl⟩ := Option.isSome_iff_exists.mp hlists.1
  have hbuilt := h.built _ l hl
  have hreach : Reaches T p c s.manager.evoDb (.child q hash) :=
    .inl ⟨hdip, Nat.succ_ne_zero _, h.tip.1.of_mem hi, l, hbuilt⟩
  have hafter := getListForBlock_after hinj h.cache h.store hbuilt.mem
  obtain ⟨l', m, hres, -, -, ha⟩ := (hafter.mono (fun _ _ h => h) fun _ _ h => h.2.2 hreach).exists_ok
  exact ⟨l, m, hl, hbuilt, by rw [hres, ha.eq_of_built hbuilt]⟩

/-- **Transparency of the caches.** In every two runs of careful blocks, with whatever reorganisations, rollbacks,
flushes and restarts, `GetListForBlock` returns for a block connected in both the list that `ProcessBlock` computed
for it, and both computed the same one. -/
theorem lists_are_transparent (hinj : Function.Injective (Digest.serializeHash : Bytes → D)) {g : uint256}
    (hmem : T.mem (.genesis g)) {s s' : ManagerState D}
    (h : Relation.ReflTransGen (ManagerStep T p c) (ManagerState.start D g) s)
    (h' : Relation.ReflTransGen (ManagerStep T p c) (ManagerState.start D g) s')
    (hi : .child q hash ∈ s.tip.chain) (hi' : .child q hash ∈ s'.tip.chain)
    (hdip : isDIP3Enforced p (q.nHeight + 1) = true) :
    ∃ l m m', s.computed (.child q hash) = some l ∧ s'.computed (.child q hash) = some l ∧
      getListForBlock p (.child q hash) s.manager = (.ok l, m) ∧
      getListForBlock p (.child q hash) s'.manager = (.ok l, m') := by
  obtain ⟨l, m, hl, hb, hres⟩ := (ManagerInv.run hinj hmem h).answers hinj hi hdip
  obtain ⟨l', m', hl', hb', hres'⟩ := (ManagerInv.run hinj hmem h').answers hinj hi' hdip
  obtain rfl := hb.unique hb'
  exact ⟨l, m, m', hl, hl', hres, hres'⟩

namespace Sample

def registerTree : BlockTree where
  mem i := i = .genesis 0xb0 ∨ i = .child (.genesis 0xb0) 0xb1
  block _ := registerBlock
  prev := by
    rintro q hash (h | h)
    · cases h
    · cases h
      exact .inl rfl
  inj := by
    rintro i j (rfl | rfl) (rfl | rfl) h
    · rfl
    · exact absurd h (by decide)
    · exact absurd h (by decide)
    · rfl
  hash := by
    rintro q hash (h | h)
    · cases h
    · cases h
      rfl
  height := by
    rintro i (rfl | rfl) <;> decide
  txids := by
    rintro i (rfl | rfl)
    · exact ⟨nofun, nofun⟩
    · exact ⟨by decide +kernel, by decide +kernel⟩

theorem registerBlock_careful :
    Careful (⟨params, crypto, env, registerBlock, .genesis 0xb0, {}⟩ : BlockInput Bytes) where
  keyed := FinMap.forall_empty
  lastReg pre tx post pl hsplit _ htx := by
    have hlist : registerBlock.nonCoinbase = [register 0x11 0x51] := rfl
    have hmem : tx ∈ [register 0x11 0x51] := by
      rw [← hlist, show registerBlock.nonCoinbase = _ from hsplit]
      simp
    obtain rfl := List.mem_singleton.mp hmem
    have hall : (getTxPayload ProRegPL.codec (register 0x11 0x51)).all
        (fun pl => proRegCollateral (register 0x11 0x51) pl ∉ registerBlock.prevouts) = true := by decide +kernel
    rw [htx.2.2] at hall
    simpa using hall
  count := by decide +kernel
  written _ := ⟨FinMap.forall_empty, by decide +kernel⟩

end Sample

open Sample

set_option maxRecDepth 10000 in
/-- One run connects the sample registration, the other flushes and restarts after it. -/
theorem lists_are_transparent_sample : ∃ (s s' : ManagerState Bytes) (l : CDeterministicPNList Bytes)
    (m m' : CDeterministicPNManager Bytes),
    s.manager.mnListsCache.size = 1 ∧ s'.manager.mnListsCache.size = 0 ∧ l.mnMap.size = 1 ∧
    s.computed (.child (.genesis 0xb0) 0xb1) = some l ∧
    getListForBlock params (.child (.genesis 0xb0) 0xb1) s.manager = (.ok l, m) ∧
    getListForBlock params (.child (.genesis 0xb0) 0xb1) s'.manager = (.ok l, m') := by
  have hrun : After (processSpecialTxs params crypto env registerBlock (.genesis 0xb0) false)
      ({} : CDeterministicPNManager Bytes) (fun l m => l.mnMap.size = 1 ∧ m.mnListsCache.size = 1)
      (fun _ _ => False) := by decide +kernel
  obtain ⟨l, m, hres, hsize, hcache⟩ := hrun.exists_ok
  have hmem : registerTree.mem (.child (.genesis 0xb0) 0xb1) := .inr rfl
  have hconnect := ManagerStep.connect (T := registerTree) (s := ManagerState.start Bytes 0xb0) env
    registerBlock hmem rfl (fun _ => registerBlock_careful) hres
  have hfirst := Relation.ReflTransGen.single hconnect
  have hgenesis : registerTree.mem (.genesis 0xb0) := .inl rfl
  have hi : CBlockIndex.child (.genesis 0xb0) 0xb1 ∈ CBlockIndex.chain (.child (.genesis 0xb0) 0xb1) := by decide
  obtain ⟨l', m', m'', hl, hl', hget, hget'⟩ := lists_are_transparent (fun _ _ h => h) hgenesis hfirst
    ((hfirst.tail (.flush .byHash)).tail .restart) hi hi (by decide)
  refine ⟨_, _, l', m', m'', ?_, rfl, ?_, hl, hget, hget'⟩
  · exact hcache
  · have hself : Function.update (ManagerState.start Bytes 0xb0).computed (.child (.genesis 0xb0) 0xb1) (some l)
        (.child (.genesis 0xb0) 0xb1) = some l := Function.update_self _ _ _
    obtain rfl : l = l' := Option.some.inj (hself.symm.trans hl)
    exact hsize

namespace Sample

def passingBlock : CBlock :=
  { hash := 0xb2, vtx := [coinbase 0xc2, register 0x21 0x61, spend 0x31 ⟨0x21, 0⟩] }

end Sample

set_option linter.constructorNameAsVariable false in
/-- A node that a block registers and removes again counts in the list that is computed, and not in the one that is
rebuilt from the difference, which has no changes. -/
theorem lists_of_passing_node_differ : ∃ (l new found : CDeterministicPNList Bytes)
    (m₁ m₂ m₃ : CDeterministicPNManager Bytes),
    processSpecialTxs params crypto env registerBlock (.genesis 0xb0) false {} =
      (.ok l, m₁) ∧
    processSpecialTxs params crypto env passingBlock (.child (.genesis 0xb0) 0xb1) false
      m₁.commit = (.ok new, m₂) ∧
    getListForBlock params (.child (.child (.genesis 0xb0) 0xb1) 0xb2) m₂.commit = (.ok found, m₃) ∧
    new.nTotalRegisteredCount = 2 ∧ found.nTotalRegisteredCount = 1 := by
  have hrun : After (processSpecialTxs params crypto env registerBlock (.genesis 0xb0) false)
      ({} : CDeterministicPNManager Bytes)
      (fun _ m₁ => After (processSpecialTxs params crypto env passingBlock
          (.child (.genesis 0xb0) 0xb1) false) m₁.commit
        (fun new m₂ => new.nTotalRegisteredCount = 2 ∧
          After (getListForBlock params (.child (.child (.genesis 0xb0) 0xb1) 0xb2)) m₂.commit
            (fun found _ => found.nTotalRegisteredCount = 1) (fun _ _ => False)) (fun _ _ => False))
      (fun _ _ => False) := by
    decide +kernel
  obtain ⟨l, m₁, hfirst, hrun⟩ := hrun.exists_ok
  obtain ⟨new, m₂, hsecond, hnew, hrun⟩ := hrun.exists_ok
  obtain ⟨found, m₃, hget, hfound⟩ := hrun.exists_ok
  exact ⟨l, new, found, m₁, m₂, m₃, hfirst, hsecond, hget, hnew, hfound⟩

end TrumpCoin
