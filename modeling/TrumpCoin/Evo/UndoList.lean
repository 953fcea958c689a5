import TrumpCoin.Evo.Transparency

/-!
# Undoing the block that was processed last

`UndoBlock` asks for the list of the block, which is rebuilt from the difference that `ProcessBlock` has just stored.
Where the difference removes a node without an operator key this stops the process (`DiffOfBlock`). The entries of such
a block are not sound, so the walk to the list before it is compared with a walk that does not see them
(`forget`, `Lib.Proc.Commutes`).

* `undoBlock_ok_iff`: when undoing the last block succeeds.
-/

namespace TrumpCoin

open Lib CDeterministicPNManager Proc

variable {D : Type} [Digest D] {T : BlockTree} {p : CChainParams} {c : Crypto} {m m' : CDeterministicPNManager D}
  {q i : CBlockIndex} {hash : uint256} {l old new : CDeterministicPNList D} {block : CBlock}

/-! ## Forgetting a block -/

def EvoWrites.forget (hash : uint256) (w : EvoWrites D) : EvoWrites D :=
  ⟨w.diffs.erase hash, w.snapshots.erase hash⟩

def EvoTable.forget (hash : uint256) (t : EvoTable) : EvoTable := ⟨t.diffs.erase hash, t.snapshots.erase hash⟩

def CEvoDB.forget (hash : uint256) (e : CEvoDB D) : CEvoDB D :=
  ⟨e.db.forget hash, e.rootDBTransaction.forget hash, e.curDBTransaction.forget hash⟩

/-- The manager without all that it keeps for a block. -/
def CDeterministicPNManager.forget (hash : uint256) (m : CDeterministicPNManager D) : CDeterministicPNManager D :=
  ⟨m.evoDb.forget hash, m.mnListsCache.erase hash, m.mnListDiffsCache.erase hash, m.tipIndex⟩

/-- None of the blocks up to the entry has the hash. -/
def Avoids (hash : uint256) : CBlockIndex → Prop
  | .genesis h => h ≠ hash
  | .child q h => h ≠ hash ∧ Avoids hash q

variable (h : i.getBlockHash ≠ hash)
include h

theorem readSnapshot_forget :
    (m.forget hash).evoDb.readSnapshot i.getBlockHash = m.evoDb.readSnapshot i.getBlockHash := by
  unfold CEvoDB.readSnapshot
  simp only [CDeterministicPNManager.forget, CEvoDB.forget, EvoWrites.forget, EvoTable.forget,
    FinMap.get_erase_ne _ (Ne.symm h)]

theorem readDiff_forget : (m.forget hash).evoDb.readDiff i.getBlockHash = m.evoDb.readDiff i.getBlockHash := by
  unfold CEvoDB.readDiff
  simp only [CDeterministicPNManager.forget, CEvoDB.forget, EvoWrites.forget, EvoTable.forget,
    FinMap.get_erase_ne _ (Ne.symm h)]

theorem cacheList_forget (l : CDeterministicPNList D) (m : CDeterministicPNManager D) :
    cacheList i.getBlockHash l (m.forget hash) = (cacheList i.getBlockHash l m).forget hash := by
  simp only [cacheList, CDeterministicPNManager.forget, FinMap.emplace_erase_ne _ l h]

theorem lookup_commutes : Commutes (CDeterministicPNManager.forget hash) (lookup p i : ManagerM D _) := by
  unfold lookup
  refine .bind (.read fun m => FinMap.get_erase_ne _ (Ne.symm h)) fun r => ?_
  cases r with
  | some l => exact .pure _
  | none =>
    refine .bind (.read fun m => readSnapshot_forget h) fun stored => .bind (.ofExcept _) fun r => ?_
    cases r with
    | some l => exact .bind (.modify fun m => cacheList_forget h l m) fun _ => .pure _
    | none =>
      refine .bind (.read fun m => FinMap.get_erase_ne _ (Ne.symm h)) fun r => ?_
      cases r with
      | some d => exact .pure _
      | none =>
        refine .bind (.read fun m => readDiff_forget h) fun stored => .bind (.ofExcept _) fun r => ?_
        cases r with
        | some d =>
          refine .bind (.modify fun m => ?_) fun _ => .pure _
          simp only [cacheDiff, CDeterministicPNManager.forget, FinMap.emplace_erase_ne _ _ h]
        | none =>
          dsimp only
          split
          · exact .bind (.modify fun m => cacheList_forget h _ m) fun _ => .pure _
          · exact .fail _

omit h

/-- The search on a chain without `hash` does not notice what is stored for it. -/
theorem findSnapshot_commutes (h : Avoids hash i) (is : List CBlockIndex) :
    Commutes (CDeterministicPNManager.forget hash) (findSnapshot p i is : ManagerM D _) := by
  induction i generalizing is with
  | genesis g =>
    unfold findSnapshot
    refine .bind (lookup_commutes (i := .genesis g) h) fun r => ?_
    cases r with
    | some l => exact .pure _
    | none => exact .fail _
  | child q g ih =>
    unfold findSnapshot
    refine .bind (lookup_commutes (i := .child q g) h.1) fun r => ?_
    cases r with
    | some l => exact .pure _
    | none => exact ih h.2 _

theorem avoids_of_mem (hmem : T.mem (.child q hash)) : Avoids hash q := by
  have key : ∀ {j : CBlockIndex}, T.mem j → j.nHeight ≤ q.nHeight → Avoids hash j := by
    intro j
    induction j with
    | genesis g =>
      rintro hj - rfl
      cases T.inj hj hmem rfl
    | child j g ih =>
      intro hj hle
      rw [CBlockIndex.nHeight_child] at hle
      refine ⟨?_, ih (T.prev hj) (by omega)⟩
      rintro rfl
      cases T.inj hj hmem rfl
      omega
  exact key (T.prev hmem) le_rfl

theorem Path.avoids {j : CBlockIndex} {is : List CBlockIndex} (h : Path j is i) (hi : Avoids hash i) :
    ∀ k ∈ is, k.getBlockHash ≠ hash := by
  induction h with
  | here => exact nofun
  | step _ ih =>
    intro k hk
    rcases List.mem_append.mp hk with hk | hk
    · exact ih hi.2 k hk
    · rw [List.mem_singleton] at hk
      exact hk ▸ hi.1

theorem foldlM_applyCachedDiff_erase (diffs : FinMap uint256 CDeterministicPNListDiff) {is : List CBlockIndex}
    (h : ∀ k ∈ is, k.getBlockHash ≠ hash) (l : CDeterministicPNList D) :
    is.foldlM (applyCachedDiff (diffs.erase hash)) l = is.foldlM (applyCachedDiff diffs) l := by
  induction is generalizing l with
  | nil => rfl
  | cons k is ih =>
    have hk : applyCachedDiff (diffs.erase hash) l k = applyCachedDiff diffs l k := by
      unfold applyCachedDiff
      rw [FinMap.get_erase_ne _ (Ne.symm (h k (List.mem_cons_self ..)))]
    rw [List.foldlM_cons, List.foldlM_cons, hk]
    exact congrArg _ (funext fun l' => ih (fun k hk => h k (List.mem_cons_of_mem _ hk)) l')

/-! ## The walk past a block that is not sound -/

theorem lookup_extends (i : CBlockIndex) (m : CDeterministicPNManager D) :
    After (lookup p i) m (fun _ m' => Extends m m') (fun _ m' => Extends m m') := by
  unfold lookup
  simp only [after_bind, after_read]
  split
  · exact .refl m
  · simp only [after_bind, after_read, after_ofExcept]
    refine Outcome.of_forall (fun r _ => ?_) fun _ _ => .refl m
    cases r with
    | some l => exact extends_cacheList _ l
    | none =>
      simp only [after_bind, after_read]
      split
      · exact .refl m
      · simp only [after_bind, after_read, after_ofExcept]
        refine Outcome.of_forall (fun r _ => ?_) fun _ _ => .refl m
        cases r with
        | some d => exact extends_cacheDiff _ _
        | none =>
          dsimp only
          split
          · exact extends_cacheList _ _
          · exact .refl m

theorem findSnapshot_extends (i : CBlockIndex) (is : List CBlockIndex) (m : CDeterministicPNManager D) :
    After (findSnapshot p i is) m (fun _ m' => Extends m m') (fun _ m' => Extends m m') := by
  induction i generalizing is m with
  | genesis g =>
    unfold findSnapshot
    rw [after_bind]
    refine (lookup_extends _ m).mono (fun r m' h => ?_) fun _ _ h => h
    cases r <;> exact h
  | child q g ih =>
    unfold findSnapshot
    rw [after_bind]
    refine (lookup_extends _ m).mono (fun r m' h => ?_) fun _ _ h => h
    cases r with
    | some l => exact h
    | none => exact (ih _ m').mono (fun _ _ h' => h.trans h') fun _ _ h' => h.trans h'

section Walk

variable (hinj : CollisionFree D)

variable (hs : SoundCache T p c (m.forget hash)) (he : SoundStore T p c (m.forget hash).evoDb) (hav : Avoids hash i)
  (hmem : T.mem i)
include hs he hav hmem

include hinj in
theorem findSnapshot_past (is : List CBlockIndex) : After (findSnapshot p i is) m
      (fun r m' => Extends m m' ∧ SoundCache T p c (m'.forget hash) ∧ ∃ pre l, r.2 = pre ++ is ∧
        pre.foldlM (applyCachedDiff m'.mnListDiffsCache) r.1 = .ok l ∧ ListAt T p c i l)
      (fun _ _ => ¬Reaches T p c (m.forget hash).evoDb i) := by
  have hpast := (findSnapshot_commutes hav is).after_iff.mp (findSnapshot_after hinj hs he hmem is)
  refine ((findSnapshot_extends i is m).and hpast).mono (fun r m' ⟨hext, _, hs', hfound⟩ => ?_) fun _ _ h => h.2.2.2
  obtain ⟨j, pre, hr, hl, hpath, hcached⟩ := hfound
  obtain ⟨l, hfold, hl⟩ := applyCachedDiffs hinj hs' hpath hmem hcached hl
  refine ⟨hext, hs', pre, l, hr, ?_, hl⟩
  rwa [← foldlM_applyCachedDiff_erase _ (hpath.avoids hav)]

include hinj in
theorem getListForBlock_past : After (getListForBlock p i) m (fun l _ => Answer T p c i l)
      (fun _ _ => ¬Reaches T p c (m.forget hash).evoDb i) := by
  unfold getListForBlock
  split_ifs with hdip
  · exact .inl ⟨hdip, rfl⟩
  · rw [Bool.not_eq_false] at hdip
    rw [after_bind]
    refine (findSnapshot_past hinj hs he hav hmem []).mono (fun r m' ⟨_, _, pre, l, hr, hfold, hl⟩ => ?_)
      fun _ _ h => h
    obtain ⟨snapshot, is⟩ := r
    obtain rfl : is = pre := hr.trans (List.append_nil pre)
    simp only [after_bind, after_read, after_ofExcept, after_modify]
    rw [hfold]
    exact .inr ⟨hdip, hl.built hdip⟩

end Walk

/-! ## What processing a block leaves -/

variable (q old) in
/-- `ProcessBlock` writes the list itself besides the difference. -/
def WritesList : Prop :=
  (q.nHeight + 1) % DISK_SNAPSHOT_PERIOD = 0 ∨ old.nHeight = -1

instance : Decidable (WritesList q old) := inferInstanceAs (Decidable (_ ∨ _))

theorem storeList_eq (d : CDeterministicPNListDiff) : storeList block q old new d m =
    cacheDiff block.getHash { d with nHeight := ((q.nHeight + 1 : Nat) : Int) }
      (if WritesList q old then
        cacheList new.blockHash new
          { m with evoDb := (m.evoDb.writeDiff new.blockHash d).writeSnapshot new.blockHash new }
      else { m with evoDb := m.evoDb.writeDiff new.blockHash d }) := rfl

theorem cleanupCache_forget (n : Int) : (m.cleanupCache n).forget hash = (m.forget hash).cleanupCache n := by
  have herase : ∀ {V : Type} (f : FinMap uint256 V) (keep : uint256 → V → Bool),
      (f.filter keep).erase hash = (f.erase hash).filter keep := by
    intro V f keep
    refine FinMap.ext_get fun a => ?_
    simp only [FinMap.get_erase, Std.ExtTreeMap.getElem?_filter']
    split <;> rfl
  simp only [CDeterministicPNManager.forget, CDeterministicPNManager.cleanupCache, herase]

theorem commit_forget : m.commit.forget hash = (m.forget hash).commit := by
  have herase : ∀ {V : Type} (f g : FinMap uint256 V), (f ∪ g).erase hash = f.erase hash ∪ g.erase hash := by
    intro V f g
    refine FinMap.ext_get fun a => ?_
    simp only [FinMap.get_erase, Std.ExtTreeMap.getElem?_union]
    split <;> rfl
  have hempty : ∀ {V : Type}, (∅ : FinMap uint256 V).erase hash = ∅ := FinMap.erase_of_absent (FinMap.get_empty _)
  simp only [CDeterministicPNManager.forget, CDeterministicPNManager.commit, CEvoDB.forget,
    CEvoDB.commitCurTransaction, EvoWrites.forget, herase, hempty]

variable {d : CDeterministicPNListDiff}

/-- Storing a list and forgetting it again leaves nothing of it. -/
theorem storeList_forget (hhash : new.blockHash = block.getHash) :
    (storeList block q old new d m).forget block.getHash = m.forget block.getHash := by
  rw [storeList_eq, hhash]
  split
  · simp only [CDeterministicPNManager.forget, cacheDiff, cacheList, CEvoDB.forget, CEvoDB.writeDiff,
      CEvoDB.writeSnapshot, EvoWrites.forget, FinMap.emplace_erase_self, FinMap.erase_insert_self]
  · simp only [CDeterministicPNManager.forget, cacheDiff, CEvoDB.forget, CEvoDB.writeDiff,
      EvoWrites.forget, FinMap.emplace_erase_self, FinMap.erase_insert_self]

theorem HoldsList.built (h : HoldsList T p c hash l) (hmem : T.mem (.child q hash))
    (hdip : isDIP3Enforced p (q.nHeight + 1) = true) : Built T p c (.child q hash) l :=
  ((h.listAt (i := .child q hash) hmem).built hdip).2

theorem HoldsDiff.built (h : HoldsDiff T p c D hash d) (hmem : T.mem (.child q hash)) :
    ∃ l : CDeterministicPNList D, Built T p c (.child q hash) l := by
  obtain ⟨q', old, new, -, hnew, -⟩ := h
  rw [← T.inj hnew.mem hmem rfl]
  exact ⟨new, hnew⟩

theorem forget_eq_self (hs : SoundCache T p c m) (he : SoundStore T p c m.evoDb) (hmem : T.mem (.child q hash))
    (hdip : isDIP3Enforced p (q.nHeight + 1) = true) (hno : ¬∃ l : CDeterministicPNList D, Built T p c (.child q hash) l) :
    m.forget hash = m := by
  have absent : ∀ {V : Type} {f : FinMap uint256 V}, (∀ v, f[hash]? = some v → ∃ l : CDeterministicPNList D,
      Built T p c (.child q hash) l) → f.erase hash = f :=
    fun h => FinMap.erase_of_absent (Option.eq_none_iff_forall_ne_some.mpr fun v hv => hno (h v hv))
  have hlists := absent fun l hl => ⟨l, (hs.lists hash l hl).built hmem hdip⟩
  have hdiffs := absent fun d hd => (hs.diffs hash d hd).built hmem
  have hsnap : ∀ {l : CDeterministicPNList D}, HoldsSnapshot T p c hash l → ∃ l : CDeterministicPNList D,
      Built T p c (.child q hash) l := fun h => ⟨_, h.holdsList.built hmem hdip⟩
  have hcur₁ := absent fun d hd => (he.cur.diffs hash d hd).2.built hmem
  have hcur₂ := absent fun l hl => hsnap (he.cur.snapshots hash l hl)
  have hroot₁ := absent fun d hd => (he.root.diffs hash d hd).2.built hmem
  have hroot₂ := absent fun l hl => hsnap (he.root.snapshots hash l hl)
  have hdb₁ := absent fun bs hbs => by
    obtain ⟨d, -, -, hd⟩ := he.db.diffs hash bs hbs
    exact hd.built hmem
  have hdb₂ := absent fun bs hbs => by
    obtain ⟨l, order, -, hl⟩ := he.db.snapshots hash bs hbs
    exact hsnap hl
  unfold CDeterministicPNManager.forget CEvoDB.forget EvoWrites.forget EvoTable.forget
  rw [hlists, hdiffs, hcur₁, hcur₂, hroot₁, hroot₂, hdb₁, hdb₂]

section Process

variable (hinj : CollisionFree D) {env : Env}

include hinj in
/-- A connected block is processed on the built list of its parent, and the result stored. -/
theorem processSpecialTxs_stores (hs : SoundCache T p c m) (he : SoundStore T p c m.evoDb) (hold : Built T p c q old)
    (hmem : T.mem (.child q block.getHash)) (hblock : T.block (.child q block.getHash) = block)
    (hdip : isDIP3Enforced p (q.nHeight + 1) = true) :
    After (processSpecialTxs p c env block q false) m
      (fun new m' => ∃ m₁ d, Extends m m₁ ∧ SoundCache T p c m₁ ∧
        (isDIP3Enforced p q.nHeight = true → q.nHeight ≠ 0) ∧
        (⟨p, c, env, block, q, old⟩ : BlockInput D).process = .ok new ∧
        (Succeeds old new ∧ new.blockHash = block.getHash ∧ new.nHeight = q.nHeight + 1 ∧
          ((∀ a ∈ removedNodes old new, a.pdmnState.keyIDOperator ≠ 0) ↔
            KeyedBefore (⟨p, c, env, block, q, old⟩ : BlockInput D))) ∧
        IsDiff old new d ∧ m' = (storeList block q old new d m₁).cleanupCache (q.nHeight + 1))
      (fun _ _ => True) := by
  refine (processSpecialTxs_spec hinj hs he hold false).mono (fun new m' ⟨m₁, hext, hs₁, hres⟩ => ?_)
    fun _ _ _ => trivial
  obtain ⟨hjust, -⟩ | ⟨-, hstart, hnew, hres⟩ := hres
  · cases hjust
  rcases hres with ⟨hnot, -⟩ | ⟨-, d, hdiff, rfl⟩
  · rw [hdip] at hnot
    cases hnot
  have htxids := T.txids hmem
  rw [blocksTo, hblock] at htxids
  have hx := hold.chain.onChain (.refl old) htxids (process_eq_ok.mp hnew).1
  exact ⟨m₁, d, hext, hs₁, hstart, hnew, process_succeeds hinj hx hdip hnew, hdiff, rfl⟩

/-- The manager right after a block whose list was not kept before. -/
structure Stored (T : BlockTree) (p : CChainParams) (c : Crypto) (q : CBlockIndex) (hash : uint256)
    (old new : CDeterministicPNList D) (m : CDeterministicPNManager D) : Prop where
  cache : SoundCache T p c (m.forget hash)
  store : SoundStore T p c (m.forget hash).evoDb
  covered : Covered p (m.forget hash).evoDb q
  list : m.mnListsCache[hash]? = if WritesList q old then some new else none
  snapshot : ¬WritesList q old → m.evoDb.readSnapshot hash = .ok none
  diff : ∃ d, IsDiff old new d ∧ m.evoDb.readDiff hash = .ok (some d) ∧
    m.mnListDiffsCache[hash]? = some { d with nHeight := ((q.nHeight + 1 : Nat) : Int) }

theorem get_emplace_of_absent {V : Type} {f : FinMap uint256 V} (v : V) (h : f[hash]? = none) :
    (FinMap.emplace f hash v)[hash]? = some v :=
  FinMap.get_emplace.mpr (.inr ⟨h, rfl, rfl⟩)

theorem stored_of_storeList (hs : SoundCache T p c m) (he : SoundStore T p c m.evoDb) (hcov : Covered p m.evoDb q)
    (hforget : m.forget block.getHash = m) (hhash : new.blockHash = block.getHash)
    (hheight : new.nHeight = q.nHeight + 1) (hd : IsDiff old new d) :
    Stored T p c q block.getHash old new ((storeList block q old new d m).cleanupCache (q.nHeight + 1)) := by
  have hlist : m.mnListsCache[block.getHash]? = none := by
    rw [← hforget]
    exact FinMap.get_erase_self _ _
  have hdiff : m.mnListDiffsCache[block.getHash]? = none := by
    rw [← hforget]
    exact FinMap.get_erase_self _ _
  have hsnap : m.evoDb.readSnapshot block.getHash = .ok none := by
    rw [← hforget]
    simp [CEvoDB.readSnapshot, CDeterministicPNManager.forget, CEvoDB.forget, EvoWrites.forget, EvoTable.forget]
  have hsame : ((storeList block q old new d m).cleanupCache (q.nHeight + 1)).forget block.getHash =
      m.cleanupCache (q.nHeight + 1) := by
    rw [cleanupCache_forget, storeList_forget hhash, hforget]
  have hkept : (!decide ((q.nHeight : Int) + 1 + LIST_DIFFS_CACHE_SIZE < q.nHeight + 1)) = true := by
    rw [Bool.not_eq_true', decide_eq_false_iff_not]
    omega
  refine ⟨hsame ▸ hs.cleanupCache _, hsame ▸ he, hsame ▸ hcov, ?_, fun hno => ?_, d, hd, ?_, ?_⟩
  · rw [CDeterministicPNManager.cleanupCache, Std.ExtTreeMap.getElem?_filter', storeList_eq, hhash]
    by_cases hw : WritesList q old
    · rw [if_pos hw, if_pos hw]
      dsimp only [cacheDiff, cacheList]
      rw [get_emplace_of_absent _ hlist, Option.filter_some, hheight, if_pos hkept]
    · rw [if_neg hw, if_neg hw]
      dsimp only [cacheDiff]
      rw [hlist, Option.filter_none]
  · rw [storeList_eq, if_neg hno]
    exact hsnap
  · rw [storeList_eq, hhash]
    split <;>
    simp [CEvoDB.readDiff, CDeterministicPNManager.cleanupCache, cacheDiff, cacheList, CEvoDB.writeDiff,
      CEvoDB.writeSnapshot]
  · rw [CDeterministicPNManager.cleanupCache, Std.ExtTreeMap.getElem?_filter', storeList_eq]
    have hget : ∀ m' : CDeterministicPNManager D, m'.mnListDiffsCache = m.mnListDiffsCache →
        (cacheDiff block.getHash { d with nHeight := ((q.nHeight + 1 : Nat) : Int) } m').mnListDiffsCache[block.getHash]? =
          some { d with nHeight := ((q.nHeight + 1 : Nat) : Int) } :=
      fun m' h => get_emplace_of_absent _ (h ▸ hdiff)
    rw [hget _ (by split <;> rfl), Option.filter_some]
    exact if_pos hkept

theorem Stored.commit (h : Stored T p c q hash old new m) : Stored T p c q hash old new m.commit where
  cache := by
    rw [commit_forget]
    exact h.cache.withDb _
  store := by
    rw [commit_forget]
    exact h.store.commit
  covered := by
    rw [commit_forget]
    exact h.covered.mono fun _ => hasDiff_commit
  list := h.list
  snapshot hno := by
    rw [← h.snapshot hno]
    unfold CEvoDB.readSnapshot CDeterministicPNManager.commit CEvoDB.commitCurTransaction
    simp [Std.ExtTreeMap.getElem?_union]
  diff := by
    obtain ⟨d, hd, hread, hcached⟩ := h.diff
    refine ⟨d, hd, ?_, hcached⟩
    rw [← hread]
    unfold CEvoDB.readDiff CDeterministicPNManager.commit CEvoDB.commitCurTransaction
    simp [Std.ExtTreeMap.getElem?_union]

variable (q old new) in
/-- When `UndoBlock` can rebuild the list of the last block. -/
def Rebuilds : Prop :=
  WritesList q old ∨ ∀ a ∈ removedNodes old new, a.pdmnState.keyIDOperator ≠ 0

include hinj in
/-- **The list of the last block** comes from the cache, or from the difference that was stored. -/
theorem Stored.getListForBlock (h : Stored T p c q hash old new m) (hmem : T.mem (.child q hash))
    (hdip : isDIP3Enforced p (q.nHeight + 1) = true) (hold : Built T p c q old)
    (hreach : Reaches T p c (m.forget hash).evoDb q) (hsucc : Succeeds old new) (hhash : new.blockHash = hash) :
    After (getListForBlock p (.child q hash)) m
      (fun l m' => RepInv l ∧ SoundCache T p c (m'.forget hash) ∧ m'.evoDb = m.evoDb ∧ Rebuilds q old new)
      (fun _ _ => ¬Rebuilds q old new) := by
  obtain ⟨d, hd, -, hcached⟩ := h.diff
  have hkeep : ∀ (m' : CDeterministicPNManager D) (l : CDeterministicPNList D) (tip : Bool), l.blockHash = hash →
      ((if tip then cacheList l.blockHash l else id) m').forget hash = m'.forget hash ∧
        ((if tip then cacheList l.blockHash l else id) m').evoDb = m'.evoDb := by
    rintro m' l tip rfl
    cases tip
    · exact ⟨rfl, rfl⟩
    · exact ⟨by simp [cacheList, CDeterministicPNManager.forget, FinMap.emplace_erase_self], rfl⟩
  unfold TrumpCoin.getListForBlock findSnapshot lookup
  rw [CBlockIndex.nHeight_child, hdip, if_neg Bool.true_eq_false_eq_False]
  simp only [after_bind, after_read, CBlockIndex.getBlockHash, h.list]
  by_cases hw : WritesList q old
  · simp only [if_pos hw, after_pure, after_ofExcept, after_modify, List.foldlM_nil]
    obtain ⟨hforget, hdb⟩ := hkeep m new _ hhash
    exact ⟨hsucc.rep_target, hforget ▸ h.cache, hdb, .inl hw⟩
  · have hiff : Rebuilds q old new ↔ ∀ a ∈ removedNodes old new, a.pdmnState.keyIDOperator ≠ 0 := or_iff_right hw
    simp only [if_neg hw, after_bind, after_read, after_ofExcept, h.snapshot hw, outcome_ok, hcached, after_pure]
    refine (findSnapshot_past hinj h.cache h.store (avoids_of_mem hmem) (T.prev hmem) [.child q hash]).mono
      (fun r m' hfound => ?_) fun _ _ hno => (hno hreach).elim
    obtain ⟨hext, hs', pre, l, hr, hfold, hl⟩ := hfound
    obtain ⟨snapshot, is⟩ := r
    obtain rfl : is = pre ++ [.child q hash] := hr
    simp only [after_modify]
    have happly : (pre ++ [CBlockIndex.child q hash]).foldlM (applyCachedDiff m'.mnListDiffsCache) snapshot =
        old.applyDiff (.child q hash) d := by
      rw [List.foldlM_append, hfold, ok_bind, List.foldlM_cons, applyCachedDiff_eq (hext.diffs hash _ hcached),
        hl.eq_header hold]
      exact bind_pure _
    rw [happly]
    refine (applyDiff_outcome hinj hsucc hd (.child q hash)).mono (fun r hres => ?_) fun _ hres => ?_
    · obtain ⟨hr, hkeyed⟩ := hres
      have hrep := hsucc.rep_target
      obtain ⟨hforget, hdb⟩ := hkeep m' r _ (by rw [hr]; rfl)
      refine ⟨?_, hforget ▸ hs', hdb.trans hext.evoDb, hiff.mpr hkeyed⟩
      rw [hr]
      exact ⟨hrep.key, hrep.node, hrep.ids, hrep.props⟩
    · obtain ⟨a, ha, h0⟩ := hres
      exact fun hall => hiff.mp hall a ha h0

include hinj in
/-- `UndoBlock` of a stored block returns exactly where the diff rebuilds the new list. -/
theorem Stored.undoBlock (h : Stored T p c q block.getHash old new m) (hmem : T.mem (.child q block.getHash))
    (hdip : isDIP3Enforced p (q.nHeight + 1) = true) (hold : Built T p c q old)
    (hreach : Reaches T p c (m.forget block.getHash).evoDb q) (hsucc : Succeeds old new)
    (hhash : new.blockHash = block.getHash) (order : MapOrder) :
    After (undoBlock p block q order) m (fun _ _ => Rebuilds q old new) (fun _ _ => ¬Rebuilds q old new) := by
  obtain ⟨d, hd, hread, -⟩ := h.diff
  unfold TrumpCoin.undoBlock
  rw [hdip, if_neg Bool.true_eq_false_eq_False]
  simp only [after_bind, after_read, after_ofExcept, hread, outcome_ok, Option.getD_some]
  split
  swap
  · rename_i hchanges
    -- nothing was removed
    have hnone : removedNodes old new = [] := by
      simp only [CDeterministicPNListDiff.hasChanges, Bool.not_eq_true, Bool.or_eq_false_iff,
        bne_eq_false_iff_eq] at hchanges
      exact List.eq_nil_of_length_eq_zero (hd.sizes.2.2.symm.trans hchanges.2)
    refine .inr fun a ha => ?_
    rw [hnone] at ha
    cases ha
  · rw [after_bind]
    refine (h.getListForBlock hinj hmem hdip hold hreach hsucc hhash).mono (fun l₁ m₁ hfound => ?_) fun _ _ hno => hno
    obtain ⟨hrep₁, hs₁, hdb₁, hres⟩ := hfound
    have hstore : (m₁.forget block.getHash).evoDb = (m.forget block.getHash).evoDb := by
      unfold CDeterministicPNManager.forget
      rw [hdb₁]
    rw [after_bind]
    refine (getListForBlock_past hinj hs₁ (hstore ▸ h.store) (avoids_of_mem hmem) hold.mem).mono
      (fun l₂ m₂ ha₂ => ?_) fun _ _ hno => (hno (hstore ▸ hreach)).elim
    obtain rfl := ha₂.eq_of_built hold
    obtain ⟨d', hd', -⟩ := buildDiff_spec order hrep₁ hold.rep
    rw [after_bind, after_modify, after_bind, after_ofExcept, hd']
    exact hres

include hinj in
/-- **Undoing the last block.** For every block that was accepted and stored, `UndoBlock` succeeds exactly when lists
are not enforced, the list itself was written, or every node whose collateral the block uses had an operator key. -/
theorem undoBlock_ok_iff (hs : SoundCache T p c m) (he : SoundStore T p c m.evoDb) (hcov : Covered p m.evoDb q)
    (hold : Built T p c q old) (hmem : T.mem (.child q block.getHash))
    (hblock : T.block (.child q block.getHash) = block) {m₀ : CDeterministicPNManager D}
    (hproc : processSpecialTxs p c env block q false m = (.ok new, m')) (hm₀ : m₀ = m' ∨ m₀ = m'.commit)
    (order : MapOrder) : (∃ m'', undoBlock p block q order m₀ = (.ok (), m'')) ↔
      isDIP3Enforced p (q.nHeight + 1) = false ∨ WritesList q old ∨
        KeyedBefore (⟨p, c, env, block, q, old⟩ : BlockInput D) := by
  cases hdip : isDIP3Enforced p (q.nHeight + 1) with
  | false => exact ⟨fun _ => .inl rfl, fun _ => ⟨m₀, by unfold undoBlock; rw [if_pos hdip]; rfl⟩⟩
  | true =>
    obtain ⟨m₁, d, hext, hs₁, hstart, -, ⟨hsucc, hhash, hheight, hkeyed⟩, hd, hm'⟩ :=
      (processSpecialTxs_stores hinj hs he hold hmem hblock hdip).of_ok hproc
    have hiff : After (undoBlock p block q order) m₀
        (fun _ _ => WritesList q old ∨ KeyedBefore (⟨p, c, env, block, q, old⟩ : BlockInput D))
        (fun _ _ => ¬(WritesList q old ∨ KeyedBefore (⟨p, c, env, block, q, old⟩ : BlockInput D))) := by
      by_cases hbuilt : ∃ l : CDeterministicPNList D, Built T p c (.child q block.getHash) l
      · -- a block whose list may be kept already: everything stays sound
        have hcare : Careful (⟨p, c, env, block, q, old⟩ : BlockInput D) := by
          obtain ⟨l, hl⟩ := hbuilt
          cases hl with
          | connect env' hprev _ _ _ hcare =>
            obtain rfl := hprev.unique hold
            obtain ⟨h₁, h₂, h₃, h₄⟩ := hcare hdip
            rw [hblock] at h₁ h₂ h₃ h₄
            exact ⟨h₁, h₂, h₃, h₄⟩
        obtain ⟨hp, hres⟩ := (processSpecialTxs_after hinj hs he hold false (fun _ => ⟨hmem, hblock⟩)
          fun _ _ => hcare).of_ok hproc
        obtain ⟨hnewBuilt, hhas⟩ := hres rfl
        have hcov' : Covered p m'.evoDb (.child q block.getHash) := ⟨hhas, hcov.mono hp.grows⟩
        have hsound : SoundCache T p c m₀ ∧ SoundStore T p c m₀.evoDb ∧ Covered p m₀.evoDb (.child q block.getHash) := by
          rcases hm₀ with rfl | rfl
          · exact ⟨hp.cache, hp.store, hcov'⟩
          · exact ⟨hp.cache.withDb _, hp.store.commit, hcov'.mono fun _ => hasDiff_commit⟩
        obtain ⟨hs₀, he₀, hcov₀⟩ := hsound
        refine (undoBlock_after hinj hs₀ he₀ hmem rfl order).mono (fun _ _ _ => .inr hcare.keyed) fun _ _ hno => ?_
        exact (hno.2.2 (.inl ⟨hdip, Nat.succ_ne_zero _, hcov₀, new, hnewBuilt⟩)).elim
      · have he₁ : SoundStore T p c m₁.evoDb := hext.evoDb ▸ he
        have hstored : Stored T p c q block.getHash old new m₀ := by
          have h := stored_of_storeList hs₁ he₁ (hext.evoDb ▸ hcov) (forget_eq_self hs₁ he₁ hmem hdip hbuilt)
            hhash hheight hd
          rcases hm₀ with rfl | rfl
          · exact hm' ▸ h
          · exact (hm' ▸ h).commit
        have hreach : Reaches T p c (m₀.forget block.getHash).evoDb q := by
          cases hq : isDIP3Enforced p q.nHeight with
          | true => exact .inl ⟨hq, hstart hq, hstored.covered, old, hold⟩
          | false => exact .inr (isActivationHeight_iff.mpr ⟨hq, hdip⟩)
        rw [← hkeyed]
        exact hstored.undoBlock hinj hmem hdip hold hreach hsucc hhash order
    constructor
    · rintro ⟨m'', h⟩
      exact .inr (hiff.of_ok h)
    · intro hcond
      have hcond := hcond.resolve_left nofun
      have hok : After (undoBlock p block q order) m₀ (fun _ _ => True) (fun _ _ => False) :=
        hiff.mono (fun _ _ _ => trivial) fun _ _ hno => hno hcond
      obtain ⟨_, m'', h, -⟩ := hok.exists_ok
      exact ⟨m'', h⟩

end Process

end TrumpCoin
