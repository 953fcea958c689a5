import TrumpCoin.Evo.Transparency
import TrumpCoin.Patriotnodes.Manager

/-!
# What checking a block changes

`ProcessSpecialTxsInBlock` with `fJustCheck`, or with a result that is thrown away, should leave no trace. The database
and the lists of connected blocks are kept (`processSpecialTxs_kept`), but `BuildNewListFromBlock` removes the legacy
node of every collateral that a registration names, before it knows whether the block is valid and whatever
`fJustCheck` says (`checking_is_pure_iff`). The requests to peers that `CheckAndRemove` forgets are left out.
-/

namespace TrumpCoin

open Lib CDeterministicPNManager Proc

variable {D : Type} [Digest D]

/-! ## The legacy manager -/

def registeredCollateral (tx : CTransaction) : Option COutPoint :=
  if tx.nType = TxType.PROREG then (getTxPayload ProRegPL.codec tx).map (proRegCollateral tx) else none

namespace CPatriotnodeMan

variable (p : CChainParams) (e : ManEnv) (now : Int64) (g : CPatriotnodeMan)

/-- What a transaction of the block does to the legacy manager: the node of a registered collateral is removed. -/
def touch (tx : CTransaction) : CPatriotnodeMan :=
  match registeredCollateral tx with
  | none => g
  | some o =>
    match g.find o with
    | none => g
    | some mn => (g.setNode o { mn with fCollateralSpent := true }).checkAndRemove p e now

variable {p e now g}
variable {o : COutPoint}

theorem find_checkAndRemove :
    (g.checkAndRemove p e now).find o = if e.legacyPNObsolete then none else (g.find o).filter (!removes p e ·) := by
  unfold checkAndRemove
  split
  · rfl
  · exact Std.ExtTreeMap.getElem?_filter'

theorem find_touch_eq_none (h : g.find o = none) (tx : CTransaction) : (g.touch p e now tx).find o = none := by
  unfold touch
  split
  · exact h
  · split
    · exact h
    · rename_i o' _ _ mn hmn
      have hne : o' ≠ o := by
        rintro rfl
        rw [h] at hmn
        cases hmn
      rw [find_checkAndRemove]
      split
      · rfl
      · rw [show (g.setNode o' _).find o = g.find o from FinMap.get_insert_ne _ _ hne, h]
        rfl

theorem find_touch_self {tx : CTransaction} (h : registeredCollateral tx = some o) :
    (g.touch p e now tx).find o = none := by
  unfold touch
  rw [h]
  dsimp only
  split
  · assumption
  · rename_i mn _
    rw [find_checkAndRemove]
    split
    · rfl
    · have hspent : removes p e { mn with fCollateralSpent := true } = true :=
        decide_eq_true (.inr (.inl rfl))
      rw [show (g.setNode o _).find o = some _ from FinMap.get_insert_self _ _ _, Option.filter_some, hspent]
      rfl

theorem foldl_touch_eq_iff {txs : List CTransaction} : txs.foldl (touch p e now) g = g ↔
    ∀ tx ∈ txs, ∀ o, registeredCollateral tx = some o → g.find o = none := by
  have hgone : ∀ {txs : List CTransaction} {g : CPatriotnodeMan} {o : COutPoint}, g.find o = none →
      (txs.foldl (touch p e now) g).find o = none := by
    intro txs
    induction txs with
    | nil => exact fun h => h
    | cons tx txs ih => exact fun h => ih (find_touch_eq_none h tx)
  induction txs with
  | nil => simp
  | cons tx txs ih =>
    rw [List.foldl_cons, List.forall_mem_cons]
    by_cases hfree : ∀ o, registeredCollateral tx = some o → g.find o = none
    · have hself : g.touch p e now tx = g := by
        unfold touch
        split
        · rfl
        · rename_i o ho
          rw [hfree o ho]
      rw [hself]
      exact ih.trans (and_iff_right hfree).symm
    · refine iff_of_false (fun heq => hfree fun o ho => ?_) fun h => hfree h.1
      rw [← heq]
      exact hgone (find_touch_self ho)

end CPatriotnodeMan

/-! ## The transactions that are reached -/

section Reached

variable (p : CChainParams) (c : Crypto) (env : Env) (block : CBlock) (pindexPrev : CBlockIndex)

/-- The transactions that the loop of `BuildNewListFromBlock` comes to: up to the first that fails. -/
def reachedTxs : List CTransaction → CDeterministicPNList D → List CTransaction
  | [], _ => []
  | tx :: txs, newList =>
    tx :: match applySpecialTx p env (pindexPrev.nHeight + 1) newList tx with
      | .ok newList => reachedTxs txs newList
      | .error _ => []

/-- The transactions that `ProcessSpecialTxsInBlock` comes to in a state of the manager. -/
def reached (m : CDeterministicPNManager D) : List CTransaction :=
  match getListForBlock p pindexPrev m with
  | (.error _, _) => []
  | (.ok mnList, m) =>
    match block.vtx.forM fun tx => checkSpecialTx p c env tx { pindexPrev := pindexPrev, mnList := mnList } with
    | .error _ => []
    | .ok () =>
      if isDIP3Enforced p (pindexPrev.nHeight + 1) = false then []
      else match getListForBlock p pindexPrev m with
        | (.error _, _) => []
        | (.ok oldList, _) =>
          match (do
            let newList ← confirmPNs p c env pindexPrev oldList
              { oldList with blockHash := 0, nHeight := pindexPrev.nHeight + 1 }
            newList.decreasePoSePenalties env.order : Result (CDeterministicPNList D)) with
          | .error _ => []
          | .ok newList => reachedTxs p env pindexPrev block.nonCoinbase newList

def legacyAfter (e : ManEnv) (now : Int64) (m : CDeterministicPNManager D) (g : CPatriotnodeMan) : CPatriotnodeMan :=
  (reached p c env block pindexPrev m).foldl (CPatriotnodeMan.touch p e now) g

end Reached

/-! ## The manager of the lists -/

variable {T : BlockTree} {p : CChainParams} {c : Crypto} {m m' : CDeterministicPNManager D} {q : CBlockIndex}

structure SameStore (T : BlockTree) (p : CChainParams) (c : Crypto) (m m' : CDeterministicPNManager D) : Prop where
  cache : SoundCache T p c m'
  evoDb : m'.evoDb = m.evoDb

/-- **Processing a block** changes the database only if it returns a list and does not just check. -/
theorem processSpecialTxs_kept (hinj : CollisionFree D) (hs : SoundCache T p c m)
    (he : SoundStore T p c m.evoDb) {old : CDeterministicPNList D} (hold : Built T p c q old) (env : Env)
    (block : CBlock) (fJustCheck : Bool) :
    After (processSpecialTxs p c env block q fJustCheck) m (fun _ m' => fJustCheck = true → SameStore T p c m m')
      (fun _ m' => SameStore T p c m m') := by
  refine (processSpecialTxs_spec hinj hs he hold fJustCheck).mono (fun _ _ ⟨m₁, hext, hs₁, hres⟩ hjust => ?_)
    fun _ _ h => ⟨h.2, h.1.evoDb⟩
  rcases hres with ⟨-, rfl⟩ | ⟨hno, -⟩
  · exact ⟨hs₁, hext.evoDb⟩
  · rw [hjust] at hno
    cases hno

/-- The ways in which a block is only checked: `fJustCheck`, also under the transaction that `TestBlockValidity` lets
roll back, a block that fails, and a block whose transaction is rolled back. -/
inductive OnlyChecked (T : BlockTree) (p : CChainParams) (c : Crypto) (env : Env) (block : CBlock) (s : ManagerState D) :
    CDeterministicPNManager D → Prop
  | justCheck : OnlyChecked T p c env block s (processSpecialTxs p c env block s.tip true s.manager).2
  | testBlockValidity :
      OnlyChecked T p c env block s (processSpecialTxs p c env block s.tip true s.manager).2.rollback
  | failed {fault : Fault} {m : CDeterministicPNManager D}
      (h : processSpecialTxs p c env block s.tip false s.manager = (.error fault, m)) : OnlyChecked T p c env block s m
  | rolledBack (hmem : T.mem (.child s.tip block.getHash)) (hblock : T.block (.child s.tip block.getHash) = block)
      (hcareful : isDIP3Enforced p (s.tip.nHeight + 1) = true → Careful ⟨p, c, env, block, s.tip, s.tipList⟩) :
      OnlyChecked T p c env block s (processSpecialTxs p c env block s.tip false s.manager).2.rollback

/-- The node is the same for everyone who asks about connected blocks. -/
structure Unchanged (p : CChainParams) (s : ManagerState D) (m : CDeterministicPNManager D) (g g' : CPatriotnodeMan) :
    Prop where
  legacy : g' = g
  evoDb : m.evoDb = s.manager.evoDb
  lists : ∀ pprev hash, CBlockIndex.child pprev hash ∈ s.tip.chain →
    (getListForBlock p (.child pprev hash) m).1 = (getListForBlock p (.child pprev hash) s.manager).1

variable {s : ManagerState D} {env : Env} {block : CBlock}

theorem OnlyChecked.sameStore (hinj : CollisionFree D) (hs : ManagerInv T p c s)
    (h : OnlyChecked T p c env block s m) : SameStore T p c s.manager m := by
  have hafter := processSpecialTxs_kept hinj hs.cache hs.store hs.tipBuilt env block
  have hjust : SameStore T p c s.manager (processSpecialTxs p c env block s.tip true s.manager).2 := by
    have hafter := hafter true
    unfold After at hafter
    split at hafter <;> rename_i hres <;> rw [hres]
    · exact hafter rfl
    · exact hafter
  cases h with
  | justCheck => exact hjust
  | testBlockValidity =>
    refine ⟨hjust.cache.withDb _, ?_⟩
    show CEvoDB.rollbackCurTransaction _ = _
    rw [hjust.evoDb, rollback_eq_self hs.clean]
  | failed h => exact (hafter false).of_error h
  | rolledBack hmem hblock hcareful =>
    have hafter := processSpecialTxs_after hinj hs.cache hs.store hs.tipBuilt false (fun _ => ⟨hmem, hblock⟩)
      fun _ => hcareful
    have hp : Processed T p c s.manager (processSpecialTxs p c env block s.tip false s.manager).2 := by
      unfold After at hafter
      split at hafter <;> rename_i hres <;> rw [hres]
      · exact hafter.1
      · exact hafter
    exact ⟨hp.cache.withDb _, hp.kept.trans (rollback_eq_self hs.clean)⟩

/-- **Checking has no side effects.** In every run of careful blocks, checking a block leaves the node unchanged if and
only if no registration that the loop over its transactions comes to names the collateral of a legacy node. -/
theorem checking_is_pure_iff (hinj : Function.Injective (Digest.serializeHash : Bytes → D)) {genesis : uint256}
    (hmem : T.mem (.genesis genesis)) (hrun : Relation.ReflTransGen (ManagerStep T p c) (ManagerState.start D genesis) s)
    (h : OnlyChecked T p c env block s m) (e : ManEnv) (now : Int64) (g : CPatriotnodeMan) :
    Unchanged p s m g (legacyAfter p c env block s.tip e now s.manager g) ↔
      ∀ tx ∈ reached p c env block s.tip s.manager, ∀ o, registeredCollateral tx = some o → g.find o = none := by
  have hs := ManagerInv.run hinj hmem hrun
  have hstore := h.sameStore hinj hs
  rw [← CPatriotnodeMan.foldl_touch_eq_iff]
  refine ⟨fun hu => hu.legacy, fun hlegacy => ⟨hlegacy, hstore.evoDb, fun pprev hash hi => ?_⟩⟩
  cases hdip : isDIP3Enforced p (pprev.nHeight + 1) with
  | false =>
    have hempty : ∀ m : CDeterministicPNManager D, (getListForBlock p (.child pprev hash) m).1 = .ok {} := by
      intro m
      rw [getListForBlock, CBlockIndex.nHeight_child, hdip, if_pos rfl]
      rfl
    rw [hempty, hempty]
  | true =>
    obtain ⟨l, m₁, hl, -, hres⟩ := hs.answers hinj hi hdip
    obtain ⟨l', m₂, hl', -, hres'⟩ := (hs.withCache hstore.cache hstore.evoDb).answers hinj hi hdip
    obtain rfl : l = l' := Option.some.inj (hl.symm.trans hl')
    rw [hres, show getListForBlock p _ m = _ from hres']

namespace Sample

/-- A registration of the collateral `⟨0x11, 0⟩`, which has a coin. -/
def migrateBlock : CBlock :=
  { hash := 0xb1
    vtx := [coinbase 0xc1, { register 0x21 0x61 with
      extraPayload := some (ProRegPL.codec.write
        { collateralOutpoint := ⟨0x11, 0⟩, keyIDOwner := 0x61, keyIDOperator := 0x62, keyIDVoting := 0x63,
          scriptPayout := p2pkh 0x64, inputsHash := 0 }) }] }

def legacyNode (o : COutPoint) : CPatriotnode where
  vin := { prevout := o }
  addr := .v1 {}
  pubKeyCollateralAddress := []
  pubKeyPatriotnode := []
  sigTime := 0
  protocolVersion := 0

/-- A legacy manager with one node. -/
def legacyMan (o : COutPoint) : CPatriotnodeMan := ({} : CPatriotnodeMan).setNode o (legacyNode o)

end Sample

open Sample

set_option maxRecDepth 10000 in
/-- After a connected registration a second one is checked, with a legacy node of another collateral. -/
theorem checking_is_pure_iff_register : ∃ s : ManagerState Bytes, s.tip = .child (.genesis 0xb0) 0xb1 ∧
    s.tipList.mnMap.size = 1 ∧ (reached params crypto Sample.env laterBlock s.tip s.manager).length = 1 ∧
    Unchanged params s (processSpecialTxs params crypto Sample.env laterBlock s.tip true s.manager).2 (legacyMan ⟨0x31, 0⟩)
      (legacyAfter params crypto Sample.env laterBlock s.tip {} 0 s.manager (legacyMan ⟨0x31, 0⟩)) := by
  have hrun : After (processSpecialTxs params crypto Sample.env registerBlock (.genesis 0xb0) false)
      ({} : CDeterministicPNManager Bytes) (fun l m => l.mnMap.size = 1 ∧
        (reached params crypto Sample.env laterBlock (.child (.genesis 0xb0) 0xb1) m.commit).length = 1 ∧
        ∀ tx ∈ reached params crypto Sample.env laterBlock (.child (.genesis 0xb0) 0xb1) m.commit,
          ∀ o ∈ registeredCollateral tx, (legacyMan ⟨0x31, 0⟩).find o = none) (fun _ _ => False) := by decide +kernel
  obtain ⟨l, m, hres, hsize, hlength, hother⟩ := hrun.exists_ok
  have hconnect := ManagerStep.connect (T := registerTree) (s := ManagerState.start Bytes 0xb0) Sample.env registerBlock
    (.inr rfl) rfl (fun _ => registerBlock_careful) hres
  refine ⟨_, rfl, ?_, hlength, (checking_is_pure_iff (T := registerTree) (fun _ _ h => h) (.inl rfl) (.single hconnect)
    .justCheck {} 0 (legacyMan ⟨0x31, 0⟩)).mpr hother⟩
  simp only [ManagerState.tipList, Function.update_self, Option.getD_some]
  exact hsize

/-- Checking a block that moves a legacy node to the list removes the node from the legacy manager. -/
theorem checking_removes_legacy_node :
    let g := legacyMan ⟨0x11, 0⟩
    After (processSpecialTxs params crypto collateralEnv migrateBlock (.genesis 0xb0) true)
      (ManagerState.start Bytes 0xb0).manager (fun _ _ => True) (fun _ _ => False) ∧
    g.find ⟨0x11, 0⟩ = some (legacyNode ⟨0x11, 0⟩) ∧
    (legacyAfter params crypto collateralEnv migrateBlock (.genesis 0xb0) {} 0
      (ManagerState.start Bytes 0xb0).manager g).find ⟨0x11, 0⟩ = none := by
  decide +kernel

end TrumpCoin
