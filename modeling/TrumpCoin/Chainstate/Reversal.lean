import TrumpCoin.Chainstate.Backing
import TrumpCoin.Chainstate.Disconnect
import TrumpCoin.Evo.UndoList

/-!
# Connecting and disconnecting a block

`DisconnectBlock` after `ConnectBlock`, with the undo data that was written. The view comes back whatever the block
does (`disconnectView_restores`); before it touches the view, `DisconnectBlock` asks the manager to undo the list of the
block, which may stop the process (`undoBlock_ok_iff`).

* `Connected.consistent`: the views of chains of connected blocks are consistent;
* `disconnectBlock_restores_iff`: when a block can be disconnected.
-/

namespace TrumpCoin

open Lib CCoinsViewCache

/-! ## Consistent views -/

def CBlock.commitments (block : CBlock) : List uint256 := block.vtx.flatMap CTransaction.commitments

/-- A view that belongs to a chain with the commitments `tree`: its coins can be put back, its best anchor is that of
the tree and its anchors are those of earlier trees. -/
structure ConsistentView (root : SaplingMerkleTree → uint256) (view : CCoinsViewCache) (tree : SaplingMerkleTree) :
    Prop where
  restorable : view.AllRestorable
  best : view.getSaplingAnchorAt root view.hashSaplingAnchor = some tree
  root_eq : root tree = view.hashSaplingAnchor
  anchors : ∀ (rt : uint256) t, view.saplingAnchors[rt]? = some t → root t = rt ∧ t <+: tree

/-- The roots of the trees up to `tree` are collision free. -/
def RootsSound (root : SaplingMerkleTree → uint256) (tree : SaplingMerkleTree) : Prop :=
  Set.InjOn root {t | t <+: tree}

theorem RootsSound.prefix {root : SaplingMerkleTree → uint256} {tree more : SaplingMerkleTree}
    (h : RootsSound root (tree ++ more)) : RootsSound root tree :=
  fun _ ht _ ht' heq => h (ht.trans (List.prefix_append _ _)) (ht'.trans (List.prefix_append _ _)) heq

section Anchors

variable {root : SaplingMerkleTree → uint256} {view : CCoinsViewCache} {tree more : SaplingMerkleTree}

variable (h : ConsistentView root view tree)
include h

variable (hroots : RootsSound root (tree ++ more))
include hroots

theorem ConsistentView.absent
    (hne : root (tree ++ more) ≠ view.hashSaplingAnchor) : view.saplingAnchors[root (tree ++ more)]? = none := by
  rw [Option.eq_none_iff_forall_ne_some]
  intro t ht
  obtain ⟨heq, hpre⟩ := h.anchors _ t ht
  have hsame : t = tree ++ more := hroots (hpre.trans (List.prefix_append _ _)) (List.prefix_refl _) heq
  have hall : tree ++ more = tree := (hsame ▸ hpre).eq_of_length_le (by simp)
  exact hne (by rw [hall, h.root_eq])

theorem ConsistentView.popAnchor_pushAnchor {view' : CCoinsViewCache}
    (hbest : view'.hashSaplingAnchor = (view.pushAnchor root (tree ++ more)).hashSaplingAnchor)
    (hanchors : view'.saplingAnchors = (view.pushAnchor root (tree ++ more)).saplingAnchors) :
    view'.popAnchor root view.hashSaplingAnchor =
      .ok { view' with saplingAnchors := view.saplingAnchors, hashSaplingAnchor := view.hashSaplingAnchor } := by
  unfold pushAnchor at hbest hanchors
  unfold popAnchor
  by_cases hsame : root (tree ++ more) = view.hashSaplingAnchor
  · rw [if_pos hsame] at hbest hanchors
    rw [if_pos hbest, ← hbest, ← hanchors]
  · rw [if_neg hsame] at hbest hanchors
    rw [if_neg (hbest ▸ hsame), hbest, hanchors]
    have hhas : (view'.getSaplingAnchorAt root (root (tree ++ more))).isSome = true := by
      unfold getSaplingAnchorAt
      split
      · rfl
      · rw [hanchors, FinMap.get_insert_self]
        rfl
    rw [hhas]
    have herase : (view.saplingAnchors.insert (root (tree ++ more)) (tree ++ more)).erase (root (tree ++ more)) =
        view.saplingAnchors := by
      rw [FinMap.erase_insert_self, FinMap.erase_of_absent (h.absent hroots hsame)]
    rw [herase]
    rfl

theorem ConsistentView.pushAnchor
    {view' : CCoinsViewCache} (hall : view'.AllRestorable) (hbest : view'.hashSaplingAnchor = view.hashSaplingAnchor)
    (hanchors : view'.saplingAnchors = view.saplingAnchors) (hashBlock : uint256) :
    ConsistentView root { view'.pushAnchor root (tree ++ more) with hashBlock := hashBlock } (tree ++ more) := by
  by_cases hsame : root (tree ++ more) = view'.hashSaplingAnchor
  · -- the tree is the same
    have htree : tree = tree ++ more := by
      refine hroots (List.prefix_append _ _) (List.prefix_refl _) ?_
      rw [h.root_eq, hsame, hbest]
    rw [CCoinsViewCache.pushAnchor, if_pos hsame, ← htree]
    refine ⟨hall, ?_, by rw [h.root_eq, hbest], ?_⟩
    · unfold getSaplingAnchorAt
      rw [hbest, hanchors]
      exact h.best
    · rw [hanchors]
      exact h.anchors
  · rw [CCoinsViewCache.pushAnchor, if_neg hsame]
    refine ⟨hall, ?_, rfl, FinMap.forall_insert (fun rt t hget => ?_) ⟨rfl, List.prefix_refl _⟩⟩
    · unfold getSaplingAnchorAt
      split_ifs with hempty
      · rw [hroots (List.prefix_refl _) (List.nil_prefix) hempty]
      · exact FinMap.get_insert_self _ _ _
    · rw [hanchors] at hget
      exact ⟨(h.anchors rt t hget).1, (h.anchors rt t hget).2.trans (List.prefix_append _ _)⟩

end Anchors

/-! ## What `ConnectBlock` does to the view -/

variable {D : Type} [Digest D] {p : CChainParams} {c : Crypto} {V : NodeChecks} {N : NodeEnv} {block : CBlock}
  {s : ChainState D} {r : ConnectResult D} {tree : SaplingMerkleTree}

theorem shieldedOnly_of_connectBlock (h : connectBlock p c V N block s = .ok r) :
    ∀ tx ∈ block.vtx, tx.ShieldedOnly := by
  obtain ⟨_, hprelude, -⟩ := bind_eq_ok.mp h
  obtain ⟨_, hcheck, -⟩ := bind_eq_ok.mp hprelude
  simp only [checkBlock, bind_eq_ok, invalidUnless, require_eq_ok] at hcheck
  obtain ⟨_, -, _, -, _, -, _, -, _, -, _, -, _, -, _, -, _, -, _, htxs, -⟩ := hcheck
  intro tx htx
  obtain ⟨_, htx, -⟩ := bind_eq_ok.mp (forM_eq_ok.mp htxs tx htx)
  exact shieldedOnly_of_checkTransaction htx

/-- The transactions of a block with the undo data that was written for them. -/
def CBlock.withUndo (block : CBlock) (vtxundo : List (List Coin)) : List (CTransaction × Option (List Coin)) :=
  block.vtx.zip (none :: vtxundo.map some)

/-- A connected block: its transactions were applied, then its anchor was pushed. -/
structure AppliedBlock (p : CChainParams) (V : NodeChecks) (nHeight : Nat) (block : CBlock) (tree : SaplingMerkleTree)
    (vtxundo : List (List Coin)) (before after : CCoinsViewCache) : Prop where
  length : vtxundo.length + 1 = block.vtx.length
  txs : ∃ mid, AppliedTxs (invalidOutAt p V nHeight) (block.withUndo vtxundo) before mid ∧ mid.AllRestorable ∧
    after = { mid.pushAnchor V.saplingRoot (tree ++ block.commitments) with hashBlock := block.getHash }

theorem connectBlock_applied (hgenesis : block.getHash ≠ N.payees.hashGenesisBlock)
    (h : connectBlock p c V N block s = .ok r) (hs : ConsistentView V.saplingRoot s.view tree)
    (hnew : NewTxids s.view block.vtx) :
    AppliedBlock p V (s.pindex.nHeight + 1) block tree (r.vtxundo.map undoCoins) s.view r.state.view := by
  obtain ⟨t, ht⟩ := connectBlock_eq_ok hgenesis h
  obtain ⟨tree', htree', hloop⟩ := ht.loop
  obtain rfl : tree = tree' := Option.some.inj (hs.best.symm.trans htree')
  obtain ⟨undos, hundos, hlen, happlied, hall, htree⟩ := loop_applied (Nat.succ_ne_zero _) ht.checked.txs
    (shieldedOnly_of_connectBlock h) hnew hs.restorable hloop
  obtain ⟨cb, rest, hvtx, hcb, -⟩ := ht.checked.coinbase
  rw [List.nil_append] at hundos
  -- the coinbase has no undo data in the file
  cases undos with
  | nil =>
    rw [hvtx] at hlen
    cases hlen
  | cons u us =>
    have hr : r.vtxundo = us := by
      rw [ht.result, hundos]
      rfl
    rw [hr]
    refine ⟨?_, t.view, ?_, hall, ?_⟩
    · rw [List.length_map, ← hlen, List.length_cons]
    · unfold CBlock.withUndo
      rw [hvtx] at happlied ⊢
      rw [List.map_cons, List.zip_cons_cons] at happlied
      rw [List.zip_cons_cons, List.map_map]
      cases happlied with
      | cons hhead _ hrest => exact .cons hhead (.inr hcb) hrest
    · rw [ht.result, htree]
      rfl

theorem AppliedBlock.consistent {nHeight : Nat} {vtxundo : List (List Coin)} {before after : CCoinsViewCache}
    (h : AppliedBlock p V nHeight block tree vtxundo before after) (hs : ConsistentView V.saplingRoot before tree)
    (hroots : RootsSound V.saplingRoot (tree ++ block.commitments)) :
    ConsistentView V.saplingRoot after (tree ++ block.commitments) := by
  obtain ⟨mid, htxs, hall, rfl⟩ := h.txs
  obtain ⟨-, hbest, hanchors⟩ := htxs.frame
  exact hs.pushAnchor hroots hall hbest hanchors _

/-! ## Chains -/

def chainCommitments : List ChainLink → List uint256
  | [] => []
  | link :: links => chainCommitments links ++ link.block.commitments

/-- **The view of a chain of connected blocks is consistent**, if the ids of its transactions and the roots of its
trees are collision free. -/
theorem Connected.consistent {links : List ChainLink} {s : ChainState D} (h : Connected p c V links s)
    (htxids : ((links.flatMap fun link => link.block.vtx).map CTransaction.getHash).Nodup)
    (hroots : RootsSound V.saplingRoot (chainCommitments links)) :
    ConsistentView V.saplingRoot s.view (chainCommitments links) := by
  induction h with
  | genesis hash =>
    exact ⟨FinMap.forall_empty, if_pos rfl, rfl, FinMap.forall_empty⟩
  | @connect links s old r N block hprev hnew ih =>
    rw [List.flatMap_cons, List.map_append, List.nodup_append] at htxids
    have hs : ConsistentView V.saplingRoot s.view (chainCommitments links) := ih htxids.2.1 hroots.prefix
    have hids : NewTxids s.view block.vtx := by
      refine ⟨htxids.1, fun tx htx o ho => Option.eq_none_iff_forall_ne_some.mpr fun coin hget => ?_⟩
      obtain ⟨b, hb, tx', htx', hhash, -⟩ := hprev.fromChain o coin hget
      obtain ⟨link, hlink, rfl⟩ := List.mem_map.mp hb
      exact htxids.2.2 _ (List.mem_map_of_mem htx) _
        (List.mem_map_of_mem (List.mem_flatMap.mpr ⟨link, hlink, htx'⟩)) (ho.symm.trans hhash)
    exact (connectBlock_applied hnew.genesis hnew.connects hs hids).consistent hs hroots

/-! ## Disconnecting -/

structure SameView (view view' : CCoinsViewCache) : Prop where
  coins : view'.coins = view.coins
  nullifiers : ∀ nf, view'.getNullifier nf = view.getNullifier nf
  saplingAnchors : view'.saplingAnchors = view.saplingAnchors
  hashSaplingAnchor : view'.hashSaplingAnchor = view.hashSaplingAnchor
  hashBlock : view'.hashBlock = view.hashBlock

/-- **The view is restored**, cleanly, from the view after the block and its undo data. -/
theorem AppliedBlock.disconnectView {E : DisconnectEnv} {pprev : CBlockIndex} {hashFinalSaplingRoot : uint256}
    {vtxundo : List (List Coin)} {before after : CCoinsViewCache}
    (h : AppliedBlock p V (pprev.nHeight + 1) block tree vtxundo before after)
    (hs : ConsistentView V.saplingRoot before tree) (hroots : RootsSound V.saplingRoot (tree ++ block.commitments))
    (hbest : before.hashSaplingAnchor = anchorBefore p V.saplingRoot pprev hashFinalSaplingRoot)
    (htip : before.hashBlock = pprev.getBlockHash)
    (hskip : p.skipInvalidUTXOS ((pprev.nHeight + 1 : Nat) : Int) = false)
    (hzc : ∀ tx ∈ block.vtx, tx.containsZerocoins = false) :
    ∃ d, disconnectView E p V.saplingRoot block pprev hashFinalSaplingRoot vtxundo after = .ok d ∧
      d.result = .DISCONNECT_OK ∧ SameView before d.view := by
  obtain ⟨mid, htxs, -, rfl⟩ := h.txs
  obtain ⟨hframe₁, hframe₂, hframe₃⟩ := htxs.frame
  have hz : ∀ x ∈ block.withUndo vtxundo, E.disconnectZerocoinTx x.1 = true := fun x hx =>
    E.disconnectZerocoinTx_eq _ (hzc x.1 (List.of_mem_zip hx).1)
  set pushed := mid.pushAnchor V.saplingRoot (tree ++ block.commitments) with hpushed
  obtain ⟨d, hd, hundone, hclean⟩ := htxs.undoTxs hz { view := { pushed with hashBlock := block.getHash } }
  have hpush : pushed.saplingNullifiers = mid.saplingNullifiers := by
    rw [hpushed]
    unfold CCoinsViewCache.pushAnchor
    split <;> rfl
  have hsame : pushed.hashSaplingAnchor =
        (before.pushAnchor V.saplingRoot (tree ++ block.commitments)).hashSaplingAnchor ∧
      pushed.saplingAnchors = (before.pushAnchor V.saplingRoot (tree ++ block.commitments)).saplingAnchors := by
    rw [hpushed]
    unfold CCoinsViewCache.pushAnchor
    rw [hframe₂]
    split
    · exact ⟨hframe₂, hframe₃⟩
    · exact ⟨rfl, by rw [hframe₃]⟩
  have hpop := hs.popAnchor_pushAnchor hroots (hundone.hashSaplingAnchor.trans hsame.1)
    (hundone.saplingAnchors.trans hsame.2)
  have hrun : TrumpCoin.disconnectView E p V.saplingRoot block pprev hashFinalSaplingRoot vtxundo
      { pushed with hashBlock := block.getHash } =
      .ok { view := ⟨pprev.getBlockHash, d.view.coins, d.view.saplingNullifiers, before.hashSaplingAnchor,
              before.saplingAnchors⟩
            fClean := d.fClean } := by
    unfold TrumpCoin.disconnectView undoTxs
    rw [show block.vtx.zip (none :: vtxundo.map some) = block.withUndo vtxundo from rfl, hd, ok_bind, ← hbest, hpop]
    rfl
  refine ⟨_, hrun, ?_, ?_⟩
  · unfold DisconnectState.result
    rw [if_pos (hclean (CCoinsViewCache.pushAnchor_coins _ _) fun o => by rw [invalidOutAt, hskip]; rfl)]
  · refine ⟨FinMap.ext_get fun o => ?_, fun nf => ?_, rfl, rfl, htip.symm⟩
    · by_cases ho : ∃ x ∈ block.withUndo vtxundo, x.1.Touches o
      · exact hundone.touched o ho
      · refine (hundone.untouched o ho).trans ?_
        rw [CCoinsViewCache.pushAnchor_coins]
        exact htxs.untouched fun x hmem hx => ho ⟨x, hmem, hx⟩
    · obtain ⟨hfresh, hafter⟩ := htxs.getNullifier nf
      have hview : d.view.getNullifier nf = if nf ∈ ((block.withUndo vtxundo).flatMap fun x => x.1.nullifiers) then false
          else mid.getNullifier nf := by
        rw [hundone.nullifiers, CCoinsViewCache.getNullifier, CCoinsViewCache.getNullifier]
        rw [hpush]
      show d.view.getNullifier nf = before.getNullifier nf
      rw [hview]
      split_ifs with hmem
      · exact (hfresh hmem).symm
      · rw [hafter, if_neg hmem]

section Disconnect

variable (hinj : Function.Injective (Digest.serializeHash : Bytes → D)) {T : BlockTree} {E : DisconnectEnv}
  {m m' m₀ : CDeterministicPNManager D} {hashFinalSaplingRoot : uint256}

include hinj in
/-- **Reversal of a block.** A block is connected on a consistent view, at a height where no outputs are skipped and
without zerocoins. Disconnecting it with its undo data succeeds cleanly and restores the view exactly when lists are
not enforced at its height, the list of the block was written, or every node whose collateral the block uses had an
operator key before the block. -/
theorem disconnectBlock_restores_iff (hgenesis : block.getHash ≠ N.payees.hashGenesisBlock)
    (hconnect : connectBlock p c V N block s = .ok r) (hs : ConsistentView V.saplingRoot s.view tree)
    (hbest : s.view.hashSaplingAnchor = anchorBefore p V.saplingRoot s.pindex hashFinalSaplingRoot)
    (htxids : NewTxids s.view block.vtx) (hroots : RootsSound V.saplingRoot (tree ++ block.commitments))
    (hskip : p.skipInvalidUTXOS ((s.pindex.nHeight + 1 : Nat) : Int) = false)
    (hzc : ∀ tx ∈ block.vtx, tx.containsZerocoins = false)
    (hcache : SoundCache T p c m) (hstore : SoundStore T p c m.evoDb) (hcov : Covered p m.evoDb s.pindex)
    (hold : Built T p c s.pindex s.mnList) (hmem : T.mem (.child s.pindex block.getHash))
    (hblock : T.block (.child s.pindex block.getHash) = block)
    (hproc : processSpecialTxs p c (N.toEnv s.view) block s.pindex false m = (.ok r.state.mnList, m'))
    (hm₀ : m₀ = m' ∨ m₀ = m'.commit) :
    (∃ d best m'', disconnectBlock E p V.saplingRoot block s.pindex hashFinalSaplingRoot
        (some (r.vtxundo.map undoCoins)) r.state.evoBestBlock r.state.view m₀ = (.ok (d, best), m'') ∧
      d.result = .DISCONNECT_OK ∧ SameView s.view d.view) ↔
      isDIP3Enforced p (s.pindex.nHeight + 1) = false ∨ WritesList s.pindex s.mnList ∨
        KeyedBefore (⟨p, c, N.toEnv s.view, block, s.pindex, s.mnList⟩ : BlockInput D) := by
  rw [← undoBlock_ok_iff hinj hcache hstore hcov hold hmem hblock hproc hm₀ E.order]
  obtain ⟨t, ht⟩ := connectBlock_eq_ok hgenesis hconnect
  have happlied := connectBlock_applied hgenesis hconnect hs htxids
  obtain ⟨d, hview, hclean, hsame⟩ := happlied.disconnectView (E := E) hs hroots hbest ht.tip.symm hskip hzc
  have hevo : require (Fault.error "Found EvoDB inconsistency, you must reindex to continue")
      (p.networkUpgradeActive ((s.pindex.nHeight : Int) + 1) .UPGRADE_V6_0 = false ∨
        r.state.evoBestBlock = block.getHash) = .ok () :=
    if_pos (.inr (by rw [ht.result]))
  have hlen : require (Fault.error "block and undo data inconsistent")
      ((r.vtxundo.map undoCoins).length + 1 = block.vtx.length) = .ok () := if_pos happlied.length
  -- before the view comes the manager
  have hrun : ∀ {x m''}, disconnectBlock E p V.saplingRoot block s.pindex hashFinalSaplingRoot
      (some (r.vtxundo.map undoCoins)) r.state.evoBestBlock r.state.view m₀ = (.ok x, m'') ↔
      x = (d, s.pindex.getBlockHash) ∧ undoBlock p block s.pindex E.order m₀ = (.ok (), m'') := by
    intro x m''
    unfold disconnectBlock
    dsimp only
    rw [hevo, hlen, hview]
    simp only [Proc.bind_eq_ok]
    constructor
    · rintro ⟨_, _, h₁, _, _, h₂, _, _, hundo, _, _, h₃, h₄⟩
      cases h₁
      cases h₂
      cases h₃
      cases h₄
      exact ⟨rfl, hundo⟩
    · rintro ⟨rfl, hundo⟩
      exact ⟨(), m₀, rfl, (), m₀, rfl, (), m'', hundo, d, m'', rfl, rfl⟩
  constructor
  · rintro ⟨d', best, m'', h, -, -⟩
    exact ⟨m'', (hrun.mp h).2⟩
  · rintro ⟨m'', h⟩
    exact ⟨d, _, m'', hrun.mpr ⟨rfl, h⟩, hclean, hsame⟩

end Disconnect

/-! ## Samples -/

/-- Connect blocks, newest first, on top of genesis, with the manager behind the lists. -/
def connectTips (D : Type) [Digest D] (p : CChainParams) (c : Crypto) (V : NodeChecks) (genesis : uint256) :
    List (NodeEnv × CBlock) → Result (ChainState D × CDeterministicPNManager D)
  | [] => .ok (⟨.genesis genesis, { hashBlock := genesis, hashSaplingAnchor := V.saplingRoot [] }, 0, genesis, {}⟩, {})
  | (N, block) :: bs => do
    let (s, m) ← connectTips D p c V genesis bs
    let r ← connectBlock p c V N block s
    match processSpecialTxs p c (N.toEnv s.view) block s.pindex false m with
    | (.ok _, m) => .ok (r.state, m.commit)
    | (.error e, _) => .error e

namespace Sample

def disconnectEnv : DisconnectEnv where
  hasEntry _ := false
  disconnectZerocoinTx _ := true
  disconnectZerocoinTx_eq _ _ := rfl
  order := .byHash

def paying (v : Int) (tx : CTransaction) : CTransaction := { tx with vout := [⟨v, p2pkh 0x72⟩] }

/-- A block that pays for a registration, the registration, and the revocation of the node. -/
def revokedBlocks : List (NodeEnv × CBlock) :=
  [(nodeEnv, { hash := 0xb3, vtx := [payingCoinbase 0x32 (1 * COIN), paying (1 * COIN) (revoke 0x21 0x11)] }),
    (nodeEnv, fundedBlock), (nodeEnv, fundingBlock)]

/-- A block that gives the node a new operator key and spends its collateral. -/
def rekeyedBlock : CBlock :=
  { hash := 0xb4
    vtx := [payingCoinbase 0x42 (1 * COIN), paying (1 * COIN) (updateRegistrar 0x31 0x11 0x61),
      paying (100 * COIN) (spend 0x33 ⟨0x11, 0⟩)] }

def fundedTree : BlockTree where
  mem i := i = .genesis 0xb0 ∨ i = .child (.genesis 0xb0) 0xb1 ∨ i = .child (.child (.genesis 0xb0) 0xb1) 0xb2
  block i := if i.nHeight = 1 then fundingBlock else fundedBlock
  prev := by
    rintro q hash (h | h | h) <;> cases h
    · exact .inl rfl
    · exact .inr (.inl rfl)
  inj := by
    rintro i j (rfl | rfl | rfl) (rfl | rfl | rfl) h <;> first | rfl | exact absurd h (by decide)
  hash := by
    rintro q hash (h | h | h) <;> cases h <;> rfl
  height := by
    rintro i (rfl | rfl | rfl) <;> decide
  txids := by
    rintro i (rfl | rfl | rfl)
    · exact ⟨nofun, nofun⟩
    · exact ⟨by decide +kernel, by decide +kernel⟩
    · exact ⟨by decide +kernel, by decide +kernel⟩

theorem fundingBlock_careful (e : Env) :
    Careful (⟨workParams, crypto, e, fundingBlock, .genesis 0xb0, {}⟩ : BlockInput Bytes) where
  keyed := FinMap.forall_empty
  lastReg pre tx post pl hsplit _ _ := by
    have hnil : fundingBlock.nonCoinbase = pre ++ tx :: post := hsplit
    have hlen := congrArg List.length hnil
    rw [show fundingBlock.nonCoinbase.length = 0 from rfl, List.length_append, List.length_cons] at hlen
    omega
  count := Nat.zero_le _
  written _ := ⟨FinMap.forall_empty, nofun⟩

end Sample

open Sample

set_option maxRecDepth 10000 in
/-- A registration that spends the coins of the block before it is connected and disconnected. -/
theorem disconnectBlock_restores_sample : ∃ (x : ChainState Bytes × CDeterministicPNManager Bytes)
    (r : ConnectResult Bytes) (m m' : CDeterministicPNManager Bytes) (d : DisconnectState) (best : uint256),
    connectTips Bytes workParams crypto checks 0xb0 [(nodeEnv, fundingBlock)] = .ok x ∧
    connectBlock workParams crypto checks nodeEnv fundedBlock x.1 = .ok r ∧
    r.vtxundo.length = 1 ∧
    disconnectBlock disconnectEnv workParams checks.saplingRoot fundedBlock x.1.pindex 0
      (some (r.vtxundo.map undoCoins)) r.state.evoBestBlock r.state.view m.commit = (.ok (d, best), m') ∧
    d.result = .DISCONNECT_OK ∧ SameView x.1.view d.view := by
  have hrun : Returns (connectTips Bytes workParams crypto checks 0xb0
        [(nodeEnv, fundingBlock)])
      (fun x => x.1.mnList.mnMap.size = 0 ∧
        Returns (connectBlock workParams crypto checks nodeEnv fundedBlock x.1)
          (fun r => r.vtxundo.length = 1 ∧ Proc.After (processSpecialTxs workParams crypto
            (nodeEnv.toEnv x.1.view) fundedBlock x.1.pindex false) x.2 (fun _ _ => True) (fun _ _ => False))) := by
    decide +kernel
  obtain ⟨x, hx, hnodes, hrun⟩ := hrun.exists_ok
  obtain ⟨r, hr, hundo, hrun⟩ := hrun.exists_ok
  obtain ⟨new, m, hproc, -⟩ := hrun.exists_ok
  refine ⟨x, r, m, ?_⟩
  -- the first block: its chain state and its manager
  have hsteps := hx
  simp only [connectTips, bind_eq_ok] at hsteps
  obtain ⟨_, hgen, r₁, hr₁, hsteps⟩ := hsteps
  cases hgen
  have hinj : Function.Injective (Digest.serializeHash : Bytes → Bytes) := fun _ _ h => h
  have hroot : Built fundedTree workParams crypto (.genesis 0xb0) ({} : CDeterministicPNList Bytes) :=
    .genesis (.inl rfl)
  have hmem₁ : fundedTree.mem (.child (.genesis 0xb0) fundingBlock.getHash) := .inr (.inl rfl)
  have hmem₂ : fundedTree.mem (.child (.child (.genesis 0xb0) fundingBlock.getHash)
    fundedBlock.getHash) := .inr (.inr rfl)
  split at hsteps
  swap
  · cases hsteps
  rename_i l m₁ hproc₁
  cases hsteps
  obtain ⟨hp, hbuilt⟩ := (processSpecialTxs_after hinj (.empty (m := {})) ⟨.empty, .empty, .empty⟩ hroot false
    (fun _ => ⟨hmem₁, rfl⟩) fun _ _ => fundingBlock_careful _).of_ok hproc₁
  obtain ⟨hbuilt, hhas⟩ := hbuilt rfl
  obtain ⟨t₁, ht₁⟩ := connectBlock_eq_ok (by decide) hr₁
  have hlist : Built fundedTree workParams crypto
      (.child (.genesis 0xb0) fundingBlock.getHash) r₁.state.mnList :=
    .connect _ hroot hmem₁ (fun hdip => absurd hdip (by decide)) ht₁.special fun _ => fundingBlock_careful _
  have hpindex : r₁.state.pindex = .child (.genesis 0xb0) fundingBlock.getHash := by rw [ht₁.result]
  have hconn := Connected.connect (c := crypto) nodeEnv fundingBlock
    (.genesis (D := Bytes) 0xb0) ⟨.refl {}, by decide, by decide, hr₁⟩
  have hempty : RootsSound checks.saplingRoot [] := fun t ht t' ht' _ => by
    rw [List.prefix_nil.mp ht, List.prefix_nil.mp ht']
  have hs : ConsistentView checks.saplingRoot r₁.state.view [] :=
    hconn.consistent (List.nodup_singleton _) hempty
  have htxids : NewTxids r₁.state.view fundedBlock.vtx := by
    refine ⟨by decide, fun tx htx o ho => Option.eq_none_iff_forall_ne_some.mpr fun coin hget => ?_⟩
    obtain ⟨b, hb, tx', htx', hhash, -⟩ := hconn.fromChain o coin hget
    obtain rfl : b = fundingBlock := List.mem_singleton.mp hb
    exact absurd (ho.symm.trans hhash) ((by decide : ∀ tx ∈ fundedBlock.vtx, ∀ tx' ∈ fundingBlock.vtx,
      tx.getHash ≠ tx'.getHash) tx htx tx' htx')
  -- the second block
  rw [← hpindex] at hbuilt hlist hmem₂
  have hcache : SoundCache fundedTree workParams crypto m₁.commit := hp.cache.withDb _
  have hcov : Covered workParams m₁.commit.evoDb r₁.state.pindex := by
    rw [hpindex]
    exact ⟨fun hdip => hasDiff_commit (hhas hdip), trivial⟩
  have hblock : fundedTree.block (.child r₁.state.pindex fundedBlock.getHash) = fundedBlock := by
    rw [hpindex]
    rfl
  have hdip : isDIP3Enforced workParams (r₁.state.pindex.nHeight + 1) = true := by
    rw [hpindex]
    decide
  obtain ⟨_, _, -, -, -, hnew, -⟩ :=
    (processSpecialTxs_stores hinj hcache hp.store.commit hlist hmem₂ hblock hdip).of_ok hproc
  obtain ⟨t, ht⟩ := connectBlock_eq_ok (by decide) hr
  obtain rfl : new = r.state.mnList := Except.ok.inj (hnew.symm.trans ht.special)
  obtain ⟨d, best, m', hdis, hclean, hsame⟩ := (disconnectBlock_restores_iff hinj (by decide) hr hs hs.root_eq.symm
    htxids hempty (by rw [hpindex]; decide) (by decide) hcache hp.store.commit hcov hlist hmem₂ hblock hproc
    (.inr rfl)).mpr (.inr (.inr fun h dmn hm _ => by
      have hnone : r₁.state.mnList.mnMap[h]? = none := by
        rw [Std.ExtTreeMap.eq_empty_iff_size_eq_zero.mpr hnodes]
        exact FinMap.get_empty h
      rw [hnone] at hm
      cases hm))
  exact ⟨m', d, best, hx, hr, hundo, hdis, hclean, hsame⟩

set_option maxRecDepth 10000 in
/-- A revoked node gets an operator key and is removed by one block: the block connects, and disconnecting it stops the
process in an assertion. -/
theorem disconnect_of_rekeyed_asserts : ∃ (x : ChainState Bytes × CDeterministicPNManager Bytes)
    (r : ConnectResult Bytes) (new : CDeterministicPNList Bytes) (m m' : CDeterministicPNManager Bytes),
    connectTips Bytes workParams crypto checks 0xb0 revokedBlocks = .ok x ∧
    connectBlock workParams crypto checks nodeEnv rekeyedBlock x.1 = .ok r ∧
    processSpecialTxs workParams crypto (nodeEnv.toEnv x.1.view) rekeyedBlock x.1.pindex
      false x.2 = (.ok new, m) ∧
    disconnectBlock disconnectEnv workParams checks.saplingRoot rekeyedBlock x.1.pindex 0
      (some (r.vtxundo.map undoCoins)) r.state.evoBestBlock r.state.view m.commit =
      (.error (.assertFailure "DeleteUniqueProperty: oldValue != nullValue"), m') := by
  have hrun : Returns (connectTips Bytes workParams crypto checks 0xb0 revokedBlocks)
      (fun x => Returns
        (connectBlock workParams crypto checks nodeEnv rekeyedBlock x.1)
        (fun r => Proc.After (processSpecialTxs workParams crypto (nodeEnv.toEnv x.1.view)
            rekeyedBlock x.1.pindex false) x.2
          (fun _ m => Proc.After (disconnectBlock disconnectEnv workParams checks.saplingRoot
              rekeyedBlock x.1.pindex 0 (some (r.vtxundo.map undoCoins)) r.state.evoBestBlock r.state.view)
            m.commit (fun _ _ => False)
            (fun e _ => e = .assertFailure "DeleteUniqueProperty: oldValue != nullValue"))
          (fun _ _ => False))) := by
    decide +kernel
  obtain ⟨x, hx, hrun⟩ := hrun.exists_ok
  obtain ⟨r, hr, hrun⟩ := hrun.exists_ok
  obtain ⟨new, m, hproc, hrun⟩ := hrun.exists_ok
  unfold Proc.After at hrun
  split at hrun
  · exact hrun.elim
  · rename_i e m' hres
    subst hrun
    exact ⟨x, r, new, m, m', hx, hr, hproc, hres⟩

end TrumpCoin
