import TrumpCoin.Sapling.WitnessCache

/-!
# Runs of the witness cache

The wallet is told of blocks that are connected and disconnected and of transactions, in any order. In every state
reached the confirmed notes have a witness for the current tree (`note_witnesses_current`), as long as no block is
disconnected with a cache of one: `DecrementNoteWitnesses` then stops the node.

* `Promised`: what the chain promises of a notice;
* `WalletWorld.Inv`: the invariant of runs, with `WalletWorld.Inv.step` for one notice.
-/

namespace TrumpCoin

open Lib

/-! ## The chain and the wallet -/

/-- The commitments of a chain, whose last block comes first. -/
def commitmentsOf (chain : List CBlock) : List uint256 :=
  chain.reverse.flatMap fun block => block.vtx.flatMap CTransaction.commitments

/-- The blocks that were there before the wallet, those that it was told of since, and the wallet. The last block comes
first. -/
structure WalletWorld where
  before : List CBlock
  since : List CBlock := []
  wallet : SaplingWallet

/-- A call of the wallet's interface. -/
inductive WalletNotice where
  | blockConnected (sent : SaplingOutPoint → Bool) (block : CBlock) (nHeight : Int)
      (pprev : Option SaplingWallet.PrevIndex) (getSaplingAnchorAt : uint256 → Option IncrementalMerkleTree)
  | blockDisconnected (sent : SaplingOutPoint → Bool) (block : CBlock) (nBlockHeight : Int)
  | transactionAddedToMempool (sent : SaplingOutPoint → Bool) (tx : CTransaction)

namespace WalletWorld

variable (H : MerkleHash) (D : Nat) (p : CChainParams) (keys : NoteKeys) (s : WalletWorld)

def chain : List CBlock := s.since ++ s.before

def tipHeight : Int := s.chain.length - 1

def init (before : List CBlock) : WalletWorld :=
  { before, wallet := { m_last_block_processed_height := before.length - 1 } }

/-- The blocks before the wallet, once the last block of the chain is gone. -/
def beforePop : List CBlock :=
  match s.since with
  | [] => s.before.tail
  | _ :: _ => s.before

def pop (wallet : SaplingWallet) : WalletWorld := { before := s.beforePop, since := s.since.tail, wallet }

def step : WalletNotice → Result WalletWorld
  | .blockConnected sent block nHeight pprev getSaplingAnchorAt => do
    let wallet ← s.wallet.blockConnected H D p keys sent block nHeight pprev getSaplingAnchorAt
    return { s with since := block :: s.since, wallet }
  | .blockDisconnected sent block nBlockHeight => do
    let wallet ← s.wallet.blockDisconnected p keys sent block nBlockHeight
    return s.pop wallet
  | .transactionAddedToMempool sent tx => do
    let wallet ← s.wallet.syncTransaction keys sent tx
    return { s with wallet }

def run (notices : List WalletNotice) : Result WalletWorld := notices.foldlM (step H D p keys) s

/-- A condition on the state and the notice holds at every step of a run. -/
def Along (C : WalletWorld → WalletNotice → Prop) : WalletWorld → List WalletNotice → Prop
  | _, [] => True
  | s, notice :: notices => C s notice ∧ ∀ s', s.step H D p keys notice = .ok s' → Along C s' notices

end WalletWorld

/-- A block that is connected is a valid one on top of the chain, whose coins view has the tree of the chain. -/
structure ConnectPromised (H : MerkleHash) (D : Nat) (p : CChainParams) (s : WalletWorld)
    (sent : SaplingOutPoint → Bool) (block : CBlock) (nHeight : Int) (pprev : Option SaplingWallet.PrevIndex)
    (getSaplingAnchorAt : uint256 → Option IncrementalMerkleTree) : Prop where
  height : nHeight = s.tipHeight + 1
  tree : ∃ tree, SaplingWallet.previousTree H D p pprev getSaplingAnchorAt = .ok tree ∧
    tree.Represents H (commitmentsOf s.chain)
  shielded : p.networkUpgradeActive nHeight .UPGRADE_V5_0 = false → block.saplingOutputs = []
  distinct : (block.vtx.map CTransaction.hash).Nodup
  fresh : ∀ tx ∈ block.vtx, ∀ block' ∈ s.since, tx.hash ∉ block'.vtx.map CTransaction.hash
  room : (commitmentsOf (block :: s.chain)).length ≤ 2 ^ D
  recognised : ∀ tx ∈ block.vtx, Recognised sent s.wallet tx

/-- The block that is disconnected is the last one. -/
structure DisconnectPromised (s : WalletWorld) (sent : SaplingOutPoint → Bool) (block : CBlock) (nBlockHeight : Int) :
    Prop where
  top : s.chain.head? = some block
  height : nBlockHeight = s.tipHeight
  distinct : (block.vtx.map CTransaction.hash).Nodup
  recognised : ∀ tx ∈ block.vtx, Recognised sent s.wallet tx

/-- What the chain promises of a notice. -/
def Promised (H : MerkleHash) (D : Nat) (p : CChainParams) (s : WalletWorld) : WalletNotice → Prop
  | .blockConnected sent block nHeight pprev getSaplingAnchorAt =>
    ConnectPromised H D p s sent block nHeight pprev getSaplingAnchorAt
  | .blockDisconnected sent block nBlockHeight => DisconnectPromised s sent block nBlockHeight
  | .transactionAddedToMempool sent tx => Recognised sent s.wallet tx

/-- After the upgrade a block is disconnected only while the cache holds two. -/
def CacheSpare (p : CChainParams) (s : WalletWorld) : WalletNotice → Prop
  | .blockDisconnected _ _ nBlockHeight =>
    p.networkUpgradeActive nBlockHeight .UPGRADE_V5_0 = true → 2 ≤ s.wallet.nWitnessCacheSize
  | _ => True

/-- The witnesses are those of the current chain. -/
structure NotesCurrent (H : MerkleHash) (D : Nat) (keys : NoteKeys) (s : WalletWorld) : Prop where
  height : s.wallet.m_last_block_processed_height = s.tipHeight
  /-- every own note of a block that the wallet was told of, by its witness in front -/
  front : ∀ block ∈ s.since, ∀ op cm, (op, cm) ∈ block.saplingOutputs → (keys op).isSome →
    ∃ nd w ws, s.wallet.mapSaplingNoteData[op]? = some nd ∧ nd.witnesses = w :: ws ∧
      w.root H D = H.rootOf D (commitmentsOf s.chain) ∧ w.element = .ok cm
  anchor : ∀ notes, ∃ r, s.wallet.getSaplingNoteWitnesses H D notes = .ok r ∧
    SameAnchor H D (H.rootOf D (commitmentsOf s.chain)) r

/-! ## Outputs and commitments -/

section Outputs

theorem map_snd_outputsFrom {hash : uint256} : ∀ (outputs : List OutputDescription) (n : Nat),
    (outputsFrom hash n outputs).map Prod.snd = outputs.map OutputDescription.cmu
  | [], _ => rfl
  | output :: outputs, n => congrArg (output.cmu :: ·) (map_snd_outputsFrom outputs (n + 1))

/-- The wallet appends to its tree what the chain does. -/
theorem map_snd_saplingOutputs (tx : CTransaction) : tx.saplingOutputs.map Prod.snd = tx.commitments := by
  unfold CTransaction.saplingOutputs CTransaction.commitments
  split
  · cases tx.sapData with
    | none => rfl
    | some d => exact map_snd_outputsFrom d.vShieldedOutput 0
  · rfl

theorem map_snd_blockOutputs (block : CBlock) :
    block.saplingOutputs.map Prod.snd = block.vtx.flatMap CTransaction.commitments := by
  rw [CBlock.saplingOutputs, List.map_flatMap]
  exact congrArg (block.vtx.flatMap ·) (funext map_snd_saplingOutputs)

theorem commitmentsOf_cons (block : CBlock) (chain : List CBlock) :
    commitmentsOf (block :: chain) = commitmentsOf chain ++ block.saplingOutputs.map Prod.snd := by
  rw [commitmentsOf, List.reverse_cons, List.flatMap_append, List.flatMap_singleton, map_snd_blockOutputs]
  rfl

theorem leavesOver_map (before since : List CBlock) :
    leavesOver (commitmentsOf before) (since.map CBlock.saplingOutputs) = commitmentsOf (since ++ before) := by
  induction since with
  | nil => rfl
  | cons block since ih => rw [List.map_cons, leavesOver, ih, List.cons_append, commitmentsOf_cons]

theorem nodup_outputsFrom {hash : uint256} : ∀ (outputs : List OutputDescription) (n : Nat),
    ((outputsFrom hash n outputs).map Prod.fst).Nodup
  | [], _ => List.nodup_nil
  | output :: outputs, n => by
    refine List.nodup_cons.mpr ⟨fun hmem => ?_, nodup_outputsFrom outputs (n + 1)⟩
    have hle : n + 1 ≤ n := (hash_of_mem_outputsFrom hmem).2
    omega

theorem nodup_saplingOutputs (tx : CTransaction) : (tx.saplingOutputs.map Prod.fst).Nodup := by
  unfold CTransaction.saplingOutputs
  split
  · cases tx.sapData with
    | none => exact List.nodup_nil
    | some d => exact nodup_outputsFrom d.vShieldedOutput 0
  · exact List.nodup_nil

theorem mem_blockOutputs {block : CBlock} {op : SaplingOutPoint} :
    op ∈ block.saplingOutputs.map Prod.fst ↔ ∃ tx ∈ block.vtx, op ∈ tx.saplingOutputs.map Prod.fst := by
  rw [CBlock.saplingOutputs, List.map_flatMap, List.mem_flatMap]

theorem nodup_blockOutputs {block : CBlock} (h : (block.vtx.map CTransaction.hash).Nodup) :
    (block.saplingOutputs.map Prod.fst).Nodup := by
  rw [CBlock.saplingOutputs, List.map_flatMap, List.nodup_flatMap]
  refine ⟨fun tx _ => nodup_saplingOutputs tx, ?_⟩
  refine (List.pairwise_map.mp h).imp fun {tx tx'} hne => ?_
  intro op hop hop'
  exact hne ((hash_of_mem_saplingOutputs hop).symm.trans (hash_of_mem_saplingOutputs hop'))

end Outputs

/-! ## The invariant -/

/-- Blocks before the upgrade have no shielded outputs; the last block has the height `t`. -/
def Dated (p : CChainParams) : Int → List Outputs → Prop
  | _, [] => True
  | t, o :: os => (p.networkUpgradeActive t .UPGRADE_V5_0 = false → o = []) ∧ Dated p (t - 1) os

theorem Dated.outpointsOf_eq_nil {p : CChainParams} : ∀ {os : List Outputs} {t : Int}, Dated p t os →
    p.networkUpgradeActive t .UPGRADE_V5_0 = false → outpointsOf os = []
  | [], _, _, _ => rfl
  | o :: os, t, h, hinactive => by
    have hrest := h.2.outpointsOf_eq_nil (networkUpgradeActive_mono (by omega) hinactive)
    rw [h.1 hinactive]
    exact hrest

namespace WalletWorld

variable {H : MerkleHash} {D : Nat} {p : CChainParams} {keys : NoteKeys} {s : WalletWorld}

def outputs (s : WalletWorld) : List Outputs := s.since.map CBlock.saplingOutputs

variable (H D p keys) in
structure Inv (s : WalletWorld) (c : Nat) : Prop where
  wallet : WalletOk H D p keys (commitmentsOf s.before) s.outputs c s.tipHeight s.wallet
  height : s.wallet.m_last_block_processed_height = s.tipHeight
  max : c ≤ WITNESS_CACHE_SIZE
  pos : s.since ≠ [] → 1 ≤ c
  dated : Dated p s.tipHeight s.outputs
  distinct : (outpointsOf s.outputs).Nodup
  room : (commitmentsOf s.chain).length ≤ 2 ^ D

theorem inv_init {before : List CBlock} (hroom : (commitmentsOf before).length ≤ 2 ^ D) :
    Inv H D p keys (init before) 0 where
  wallet := by
    exact ⟨rfl, FinMap.forall_empty, List.forall_mem_nil _⟩
  height := rfl
  max := Nat.zero_le _
  pos h := absurd rfl h
  dated := trivial
  distinct := List.nodup_nil
  room := hroom

theorem Inv.one_le {c : Nat} (h : Inv H D p keys s c) (hne : outpointsOf s.outputs ≠ []) : 1 ≤ c := by
  refine h.pos fun hnil => hne ?_
  rw [outputs, hnil]
  rfl

theorem leavesOver_outputs : leavesOver (commitmentsOf s.before) s.outputs = commitmentsOf s.chain :=
  leavesOver_map s.before s.since

theorem Inv.current {c : Nat} (h : Inv H D p keys s c) (hD : 1 ≤ D) : NotesCurrent H D keys s where
  height := h.height
  front block hblock op cm hmem hmine := by
    have ho : block.saplingOutputs ∈ s.outputs := List.mem_map_of_mem hblock
    have hop : op ∈ outpointsOf s.outputs :=
      List.mem_flatMap.mpr ⟨_, ho, List.mem_map_of_mem (f := Prod.fst) hmem⟩
    obtain ⟨nd, hnd⟩ := Option.isSome_iff_exists.mp (h.wallet.complete op hop hmine)
    have hok := h.wallet.notes op nd hnd
    have hmy : nd.isMyNote = true := by
      rw [SaplingNoteData.isMyNote, hok.ivk]
      exact hmine
    obtain ⟨w, ws, before, cm', later, stack, hconf, hcons, hwit⟩ :=
      (hok.held hmy).front hop (h.one_le (List.ne_nil_of_mem hop))
    have hleaves := hconf.leavesOver_eq
    rw [leavesOver_outputs] at hleaves
    refine ⟨nd, w, ws, hnd, hcons, ?_, ?_⟩
    · rw [hleaves]
      exact hwit.root hD (hleaves ▸ h.room)
    · rw [hconf.cm_eq h.distinct ho hmem]
      exact hwit.tree.last.2.1
  anchor notes := by
    have hroot := h.wallet.getSaplingNoteWitnesses hD h.one_le (by rw [leavesOver_outputs]; exact h.room) notes
    rwa [leavesOver_outputs] at hroot

/-! ## Steps -/

variable {c : Nat} {sent : SaplingOutPoint → Bool} {block : CBlock} {nHeight : Int}

theorem Inv.sync (h : Inv H D p keys s c) (height : Int) (hdistinct : (block.vtx.map CTransaction.hash).Nodup)
    (hrec : ∀ tx ∈ block.vtx, Recognised sent s.wallet tx) :
    ∃ wallet, block.vtx.foldlM (fun wallet tx => wallet.syncTransaction keys sent tx)
        { s.wallet with m_last_block_processed_height := height } = .ok wallet ∧
      WalletOk H D p keys (commitmentsOf s.before) s.outputs c s.tipHeight wallet ∧
      wallet.m_last_block_processed_height = height ∧ wallet.nWitnessCacheSize = s.wallet.nWitnessCacheSize ∧
      ∀ op ∈ block.saplingOutputs.map Prod.fst, (keys op).isSome → wallet.mapSaplingNoteData[op]?.isSome := by
  have hset : WalletOk H D p keys (commitmentsOf s.before) s.outputs c s.tipHeight
      { s.wallet with m_last_block_processed_height := height } :=
    ⟨h.wallet.cache, h.wallet.notes, h.wallet.complete⟩
  have hrec' : ∀ tx ∈ block.vtx, Recognised sent { s.wallet with m_last_block_processed_height := height } tx :=
    fun tx htx => ⟨(hrec tx htx).outputs, (hrec tx htx).sent⟩
  obtain ⟨wallet, hok, hsync⟩ := synced_foldlM hdistinct (fun op nd hnd => (hset.notes op nd hnd).ivk) hrec'
  refine ⟨wallet, hok, hset.synced hsync, hsync.height, hsync.cache, fun op hop hmine => ?_⟩
  obtain ⟨tx, htx, hmem⟩ := mem_blockOutputs.mp hop
  exact hsync.found tx htx op hmem hmine

/-- A connected block brings every witness to the new tip. -/
theorem Inv.connected {pprev : Option SaplingWallet.PrevIndex}
    {getSaplingAnchorAt : uint256 → Option IncrementalMerkleTree} (h : Inv H D p keys s c) (hD : 1 ≤ D)
    (hp : ConnectPromised H D p s sent block nHeight pprev getSaplingAnchorAt) :
    ∃ s' c', s.step H D p keys (.blockConnected sent block nHeight pprev getSaplingAnchorAt) = .ok s' ∧
      Inv H D p keys s' c' := by
  obtain ⟨wallet₁, hsync, hwallet₁, hheight₁, -, hfound⟩ := h.sync nHeight hp.distinct hp.recognised
  obtain ⟨tree, htree, hrep⟩ := hp.tree
  have hroom := hp.room
  rw [commitmentsOf_cons] at hroom
  have hfresh : ∀ op ∈ block.saplingOutputs.map Prod.fst, op ∉ outpointsOf s.outputs := by
    intro op hop hmem
    obtain ⟨o, ho, hop'⟩ := List.mem_flatMap.mp hmem
    obtain ⟨block', hblock', rfl⟩ := List.mem_map.mp ho
    obtain ⟨tx, htx, htop⟩ := mem_blockOutputs.mp hop
    obtain ⟨tx', htx', htop'⟩ := mem_blockOutputs.mp hop'
    have hsame : tx.hash = tx'.hash :=
      (hash_of_mem_saplingOutputs htop).symm.trans (hash_of_mem_saplingOutputs htop')
    exact hp.fresh tx htx block' hblock' (hsame ▸ List.mem_map_of_mem htx')
  have hactive : block.saplingOutputs ≠ [] → p.networkUpgradeActive (s.tipHeight + 1) .UPGRADE_V5_0 = true := by
    intro hne
    by_contra hinactive
    exact hne (hp.shielded (by rw [hp.height]; exact Bool.eq_false_of_not_eq_true hinactive))
  rw [← leavesOver_outputs] at hrep
  have hlow : -1 ≤ s.tipHeight := by unfold tipHeight; omega
  obtain ⟨wallet₂, hinc, hwallet₂, hheight₂⟩ := hwallet₁.increment hD h.one_le h.max hlow hrep
    (by rw [leavesOver, leavesOver_outputs]; exact hroom) hactive (nodup_blockOutputs hp.distinct) hfresh hfound
  have htip : tipHeight { s with since := block :: s.since, wallet := wallet₂ } = s.tipHeight + 1 := by
    unfold tipHeight chain
    dsimp only
    rw [List.cons_append, List.length_cons]
    omega
  refine ⟨{ s with since := block :: s.since, wallet := wallet₂ }, min (c + 1) WITNESS_CACHE_SIZE, ?_, ?_⟩
  · unfold step SaplingWallet.blockConnected
    dsimp only
    rw [hsync, ok_bind, htree, ok_bind, hp.height, hinc, ok_bind]
    rfl
  · constructor
    · rw [htip]
      exact hwallet₂
    · rw [htip, hheight₂, hheight₁, hp.height]
    · exact Nat.min_le_right _ _
    · intro _
      unfold WITNESS_CACHE_SIZE
      omega
    · rw [htip]
      refine ⟨fun hinactive => hp.shielded (by rw [hp.height]; exact hinactive), ?_⟩
      rw [Int.add_sub_cancel]
      exact h.dated
    · refine List.nodup_append.mpr ⟨nodup_blockOutputs hp.distinct, h.distinct, ?_⟩
      rintro op hop op' hop' rfl
      exact hfresh op hop hop'
    · exact hp.room

section Pop

variable {wallet : SaplingWallet}

theorem chain_eq_cons (htop : s.chain.head? = some block) (wallet : SaplingWallet) :
    s.chain = block :: (s.pop wallet).chain := by
  obtain ⟨before, since, w⟩ := s
  cases since with
  | nil =>
    obtain ⟨rest, rfl⟩ := List.head?_eq_some_iff.mp htop
    rfl
  | cons block' since =>
    cases htop
    rfl

theorem tipHeight_pop (htop : s.chain.head? = some block) : (s.pop wallet).tipHeight = s.tipHeight - 1 := by
  rw [tipHeight, tipHeight, chain_eq_cons htop wallet, List.length_cons]
  omega

theorem outputs_pop : (s.pop wallet).outputs = s.outputs.tail := by
  obtain ⟨before, since, w⟩ := s
  cases since <;> rfl

theorem mem_outpointsOf_tail {op : SaplingOutPoint} {os : List Outputs} (h : op ∈ outpointsOf os.tail) :
    op ∈ outpointsOf os := by
  cases os with
  | nil => exact h
  | cons o os => exact mem_outpointsOf_cons.mpr (.inr h)

theorem held_pop {op : SaplingOutPoint} {ws : List IncrementalWitness}
    (h : Held H D (commitmentsOf s.before) s.outputs (c + 1) op ws) :
    Held H D (commitmentsOf s.beforePop) s.outputs.tail c op ws.tail := by
  obtain ⟨before, since, w⟩ := s
  cases since with
  | nil =>
    rw [h.eq_nil List.not_mem_nil]
    exact .absent List.not_mem_nil
  | cons block since => exact h.tail

theorem Dated.tail {t : Int} {os : List Outputs} (h : Dated p t os) : Dated p (t - 1) os.tail := by
  cases os with
  | nil => exact trivial
  | cons o os => exact h.2

/-- What is left to show of the invariant once the last block is gone. -/
theorem Inv.pop {c' : Nat} (h : Inv H D p keys s c) (htop : s.chain.head? = some block)
    (hwallet : WalletOk H D p keys (commitmentsOf s.beforePop) s.outputs.tail c' (s.tipHeight - 1) wallet)
    (hheight : wallet.m_last_block_processed_height = s.tipHeight - 1) (hmax : c' ≤ WITNESS_CACHE_SIZE)
    (hpos : s.since ≠ [] → 1 ≤ c') : Inv H D p keys (s.pop wallet) c' where
  wallet := by
    rw [tipHeight_pop htop, outputs_pop]
    exact hwallet
  height := by
    rw [tipHeight_pop htop]
    exact hheight
  max := hmax
  pos hne := hpos fun hnil => hne (by rw [WalletWorld.pop, hnil]; rfl)
  dated := by
    rw [tipHeight_pop htop, outputs_pop]
    exact Dated.tail h.dated
  distinct := by
    have hdistinct := h.distinct
    rw [outputs_pop]
    cases hos : s.outputs with
    | nil => exact List.nodup_nil
    | cons o os =>
      rw [hos] at hdistinct
      exact (List.nodup_append.mp hdistinct).2.1
  room := by
    have hroom := h.room
    rw [chain_eq_cons htop wallet, commitmentsOf_cons, List.length_append] at hroom
    omega

end Pop

variable (h : Inv H D p keys s c)
include h

/-- A disconnected block takes every witness back, while the cache has two entries. -/
theorem Inv.disconnected (hp : DisconnectPromised s sent block nHeight)
    (hspare : p.networkUpgradeActive nHeight .UPGRADE_V5_0 = true → 2 ≤ s.wallet.nWitnessCacheSize) :
    ∃ s' c', s.step H D p keys (.blockDisconnected sent block nHeight) = .ok s' ∧ Inv H D p keys s' c' := by
  obtain ⟨wallet₁, hsync, hwallet₁, hheight₁, -, -⟩ := h.sync (nHeight - 1) hp.distinct hp.recognised
  have hnonneg : 0 ≤ s.tipHeight := by
    unfold tipHeight
    obtain ⟨rest, hchain⟩ := List.head?_eq_some_iff.mp hp.top
    rw [hchain, List.length_cons]
    omega
  rw [hp.height] at hsync hheight₁ hspare ⊢
  unfold step SaplingWallet.blockDisconnected
  dsimp only
  rw [hsync, ok_bind]
  cases hactive : p.networkUpgradeActive s.tipHeight .UPGRADE_V5_0 with
  | true =>
    have hsize := hspare hactive
    rw [h.wallet.cache] at hsize
    obtain ⟨c, rfl⟩ : ∃ n, c = n + 1 := ⟨c - 1, by omega⟩
    obtain ⟨wallet₂, hdec, hwallet₂, hheight₂⟩ := hwallet₁.decrement (fun op ws => held_pop)
      (fun op => mem_outpointsOf_tail) hactive hnonneg (by omega)
    rw [if_pos rfl, hdec, ok_bind]
    exact ⟨_, c, rfl, h.pop hp.top hwallet₂ (hheight₂.trans hheight₁) (Nat.le_of_succ_le h.max) fun _ => by omega⟩
  | false =>
    -- no note is in the chain, and the witnesses stay as they are
    have hnil := h.dated.outpointsOf_eq_nil hactive
    have habs : ∀ op, op ∉ outpointsOf s.outputs := fun op => by rw [hnil]; exact List.not_mem_nil
    have habs' : ∀ op, op ∉ outpointsOf s.outputs.tail := fun op hop => habs op (mem_outpointsOf_tail hop)
    have hwallet₂ : WalletOk H D p keys (commitmentsOf s.beforePop) s.outputs.tail c (s.tipHeight - 1) wallet₁ :=
      ⟨hwallet₁.cache, fun op nd hnd => (hwallet₁.notes op nd hnd).inactive hactive (habs op) (habs' op),
        fun op hop => absurd hop (habs' op)⟩
    rw [if_neg (by decide)]
    exact ⟨_, c, rfl, h.pop hp.top hwallet₂ hheight₁ h.max h.pos⟩

theorem Inv.transaction {tx : CTransaction} (hp : Recognised sent s.wallet tx) :
    ∃ s' c', s.step H D p keys (.transactionAddedToMempool sent tx) = .ok s' ∧ Inv H D p keys s' c' := by
  obtain ⟨wallet, hok, hsync⟩ := synced_syncTransaction (fun op nd hnd => (h.wallet.notes op nd hnd).ivk) hp
  unfold step
  dsimp only
  rw [hok, ok_bind]
  exact ⟨_, c, rfl, h.wallet.synced hsync, hsync.height.trans h.height, h.max, h.pos, h.dated, h.distinct, h.room⟩

theorem Inv.step {notice : WalletNotice} (hD : 1 ≤ D) (hp : Promised H D p s notice)
    (hspare : CacheSpare p s notice) :
    ∃ s' c', s.step H D p keys notice = .ok s' ∧ Inv H D p keys s' c' := by
  cases notice with
  | blockConnected sent block nHeight pprev getSaplingAnchorAt => exact h.connected hD hp
  | blockDisconnected sent block nBlockHeight => exact h.disconnected hp hspare
  | transactionAddedToMempool sent tx => exact h.transaction hp

/-- The node does not stop only if the cache had two. -/
theorem spare_of_step {notice : WalletNotice} {s' : WalletWorld}
    (hp : Promised H D p s notice) (hstep : s.step H D p keys notice = .ok s') : CacheSpare p s notice := by
  cases notice with
  | blockConnected sent block nHeight pprev getSaplingAnchorAt => exact trivial
  | transactionAddedToMempool sent tx => exact trivial
  | blockDisconnected sent block nBlockHeight =>
    intro hactive
    obtain ⟨wallet₁, hsync, -, -, hcache, -⟩ := h.sync (nBlockHeight - 1) hp.distinct hp.recognised
    unfold step SaplingWallet.blockDisconnected at hstep
    dsimp only at hstep
    rw [hsync, ok_bind, if_pos hactive] at hstep
    obtain ⟨wallet₂, hdec, -⟩ := bind_eq_ok.mp hstep
    have := two_le_of_decrement hdec
    omega

omit h

/-- The invariant holds along every run of promised notices. -/
theorem Inv.run (hD : 1 ≤ D) (notices : List WalletNotice) (h : Inv H D p keys s c)
    (halong : Along H D p keys (fun s notice => Promised H D p s notice ∧ CacheSpare p s notice) s notices) :
    ∃ s' c', s.run H D p keys notices = .ok s' ∧ Inv H D p keys s' c' := by
  induction notices generalizing s c with
  | nil => exact ⟨s, c, rfl, h⟩
  | cons notice notices ih =>
    obtain ⟨s₁, c₁, hstep, h₁⟩ := h.step hD halong.1.1 halong.1.2
    obtain ⟨s₂, c₂, hrun, h₂⟩ := ih h₁ (halong.2 s₁ hstep)
    refine ⟨s₂, c₂, ?_, h₂⟩
    unfold WalletWorld.run at hrun ⊢
    rw [List.foldlM_cons, hstep, ok_bind]
    exact hrun

end WalletWorld

/-- In every run in which a block is disconnected only while the cache holds two, the node does not stop and the
witnesses are those of the current chain. At every state reached, a notice of the chain goes through exactly if it
meets the condition. -/
theorem note_witnesses_current (H : MerkleHash) {D : Nat} (hD : 1 ≤ D) (p : CChainParams) (keys : NoteKeys)
    (before : List CBlock) (hroom : (commitmentsOf before).length ≤ 2 ^ D) (notices : List WalletNotice)
    (halong : WalletWorld.Along H D p keys (fun s notice => Promised H D p s notice ∧ CacheSpare p s notice)
      (.init before) notices) :
    ∃ s, WalletWorld.run H D p keys (.init before) notices = .ok s ∧ NotesCurrent H D keys s ∧
      ∀ notice, Promised H D p s notice → ((∃ s', s.step H D p keys notice = .ok s') ↔ CacheSpare p s notice) := by
  obtain ⟨s, c, hrun, h⟩ := (WalletWorld.inv_init hroom).run hD notices halong
  refine ⟨s, hrun, h.current hD, fun notice hp => ⟨?_, fun hspare => ?_⟩⟩
  · rintro ⟨s', hstep⟩
    exact WalletWorld.spare_of_step h hp hstep
  · obtain ⟨s', _, hstep, -⟩ := h.step hD hp hspare
    exact ⟨s', hstep⟩

namespace Sample

/-- A network with the upgrade from its first block on. -/
def shieldedParams : CChainParams := { CMainParams with nActivationHeight := fun _ => 0 }

def noteKeys : NoteKeys := fun _ => some 1

def noteTx : CTransaction where
  nVersion := 3
  sapData := some { vShieldedOutput := [⟨21⟩, ⟨22⟩] }
  hash := 0xa1

def noteBlock : CBlock := { hash := 0xb1, vtx := [noteTx] }

def emptyAnchor : uint256 → Option IncrementalMerkleTree := fun _ => some {}

def plainBlock : CBlock := { hash := 0xb2, vtx := [] }

def noteTree : IncrementalMerkleTree := ⟨some 21, some 22, []⟩

/-- Two notes come with the first block; the second one is disconnected. -/
def noteNotices : List WalletNotice :=
  [.blockConnected (fun _ => false) noteBlock 0 none emptyAnchor,
    .blockConnected (fun _ => false) plainBlock 1 (some ⟨0, merkleHash.rootOf 4 [21, 22]⟩) fun _ => some noteTree,
    .blockDisconnected (fun _ => false) plainBlock 1]

/-- As many blocks are disconnected as the cache holds. -/
def deepNotices : List WalletNotice :=
  (List.range 102).map (fun n => .blockConnected (fun _ => false) plainBlock n
    (if n = 0 then none else some ⟨n - 1, merkleHash.emptyRoot 4⟩) emptyAnchor) ++
  (List.range WITNESS_CACHE_SIZE).map fun n => .blockDisconnected (fun _ => false) plainBlock (101 - n)

end Sample

open Sample

theorem note_witnesses_current_two : ∃ s,
    WalletWorld.run merkleHash 4 shieldedParams noteKeys (.init []) noteNotices = .ok s ∧
      NotesCurrent merkleHash 4 noteKeys s := by
  have hempty : ∀ tx ∈ noteBlock.vtx, Recognised (fun _ => false) (WalletWorld.init []).wallet tx := by
    intro tx _
    exact ⟨FinMap.forall_empty, FinMap.forall_empty⟩
  have hconnect : ConnectPromised merkleHash 4 shieldedParams (.init []) (fun _ => false) noteBlock 0
      none emptyAnchor :=
    ⟨rfl, ⟨{}, rfl, .empty⟩, fun hinactive => absurd hinactive (by decide), by decide,
      fun tx _ => List.forall_mem_nil _, by decide, hempty⟩
  have hcached : Returns (WalletWorld.run merkleHash 4 shieldedParams noteKeys (.init []) (noteNotices.take 2))
      (fun s => s.wallet.nWitnessCacheSize = 2) := by
    decide +kernel
  obtain ⟨s₂', hrun₂, hcached⟩ := hcached.exists_ok
  suffices halong : WalletWorld.Along merkleHash 4 shieldedParams noteKeys (fun s notice =>
      Promised merkleHash 4 shieldedParams s notice ∧ CacheSpare shieldedParams s notice) (.init []) noteNotices by
    obtain ⟨s, hrun, hcurrent, -⟩ := note_witnesses_current merkleHash (by decide : 1 ≤ 4) shieldedParams
      noteKeys [] (by decide) noteNotices halong
    exact ⟨s, hrun, hcurrent⟩
  refine ⟨⟨hconnect, trivial⟩, fun s₁ hstep₁ => ?_⟩
  obtain ⟨wallet₁, -, hs₁⟩ := bind_eq_ok.mp hstep₁
  cases hs₁
  refine ⟨⟨⟨rfl, ⟨noteTree, rfl, .two 21 22 (.nil 1) nofun⟩, fun hinactive => absurd hinactive (by decide), by decide,
    nofun, show (commitmentsOf [plainBlock, noteBlock]).length ≤ 2 ^ 4 by decide, nofun⟩, trivial⟩, fun s₂ hstep₂ => ?_⟩
  rw [WalletWorld.run, show noteNotices.take 2 = [_, _] from rfl, List.foldlM_cons, hstep₁, ok_bind, List.foldlM_cons,
    hstep₂] at hrun₂
  cases hrun₂
  obtain ⟨wallet₂, -, hs₂⟩ := bind_eq_ok.mp hstep₂
  cases hs₂
  exact ⟨⟨⟨rfl, rfl, by decide, nofun⟩, fun _ => hcached.ge⟩, fun _ _ => trivial⟩

/-- The last one of the blocks stops the node. -/
theorem note_witnesses_exhausted :
    WalletWorld.run merkleHash 4 shieldedParams noteKeys (.init []) deepNotices =
      .error (.assertFailure "nWitnessCacheSize > 0") :=
  Outcome.eq_error (by decide +kernel)

end TrumpCoin
