import TrumpCoin.Net.DownloadQueues

/-!
# Which delivered blocks are processed

A node with any number of peers that come and go, announce blocks, are asked for blocks and deliver them, while the rest
of the validation code changes the block tree. Every block in flight belongs to a connected node (`InFlightOwned`), so
that a `BLOCK` message is always handled. The handler takes a block for known as soon as the index has its header:

* `block_delivered_iff`: exactly the blocks that are not in the index are handed on;
* `requested_not_delivered`: a block that the node asked for is dropped and stays in flight.
-/

namespace TrumpCoin

open Lib

/-! ## Runs of a node -/

inductive NodeEvent where
  | connect (nodeid : Nat) (node : CNode)
  | version (nodeid : Nat) (nVersion : Int)
  | disconnect (nodeid : Nat)
  | block (m : BlockMessage)
  | inv (nodeid : Nat) (hash : uint256)
  | send (nodeid : Nat) (fFetch : Bool) (nNow : Int)
  /-- anything else that changes the block tree -/
  | validation (chain : BlockIndexState)
  | importing (fImporting fReindex : Bool)

namespace NodeGlobals

def step (v : Validation) (activeProtocol : Int) (g : NodeGlobals) : NodeEvent → Result NodeGlobals
  | .connect nodeid node => .ok (g.initializeNode nodeid node)
  | .version nodeid nVersion =>
    let node := (g.vNodes[nodeid]?).getD {}
    .ok { g with vNodes := g.vNodes.insert nodeid { node with nVersion } }
  | .disconnect nodeid => g.finalizeNode nodeid
  | .block m => do return (← g.processMessageBlock v activeProtocol m).1
  | .inv nodeid hash => g.updateBlockAvailability nodeid hash
  | .send nodeid fFetch nNow => do return (← g.sendBlockRequests nodeid fFetch nNow).1
  | .validation chain => .ok { g with chain }
  | .importing fImporting fReindex => .ok { g with fImporting, fReindex }

def run (v : Validation) (activeProtocol : Int) (events : List NodeEvent) : Result NodeGlobals :=
  events.foldlM (step v activeProtocol) {}

/-! ## Blocks in flight belong to a node -/

/-- The node that a block was asked from is still there, with the request in its queue. -/
def InFlightOwned (g : NodeGlobals) : Prop :=
  ∀ (hash : uint256) (nodeid : Nat), g.mapBlocksInFlight[hash]? = some nodeid →
    ∃ state, g.mapNodeState[nodeid]? = some state ∧ ∃ q ∈ state.vBlocksInFlight, q.hash = hash

variable {g g' : NodeGlobals} {nodeid : Nat} {hash : uint256}

variable (h : QueuesIndexed g)
include h

theorem QueuesIndexed.setState {state state' : CNodeState} (hstate : g.mapNodeState[nodeid]? = some state)
    (hqueue : state'.vBlocksInFlight = state.vBlocksInFlight) (hcount : state'.nBlocksInFlight = state.nBlocksInFlight) :
    QueuesIndexed (g.setState nodeid state') := by
  refine h.replace hstate (fun hash => ?_) (fun hash n _ => Iff.rfl) ?_ ?_
  · rw [h.index hash nodeid, hqueue]
    exact ⟨fun ⟨s, hs, hmem⟩ => Option.some.inj (hstate.symm.trans hs) ▸ hmem, fun hmem => ⟨state, hstate, hmem⟩⟩
  · exact hqueue ▸ h.once nodeid state hstate
  · rw [hcount, hqueue, h.length nodeid state hstate]

theorem QueuesIndexed.processBlockAvailability
    (hproc : g.processBlockAvailability nodeid = .ok g') :
    QueuesIndexed g' ∧ g'.chain = g.chain ∧ g'.mapBlocksInFlight = g.mapBlocksInFlight := by
  obtain ⟨state, hstate, hproc⟩ := bind_eq_ok.mp hproc
  rw [state_eq_ok] at hstate
  split at hproc
  · cases hproc
    exact ⟨h.setState hstate rfl rfl, rfl, rfl⟩
  · cases hproc
    exact ⟨h, rfl, rfl⟩

theorem QueuesIndexed.updateBlockAvailability
    (hupdate : g.updateBlockAvailability nodeid hash = .ok g') : QueuesIndexed g' := by
  obtain ⟨g₁, hproc, hupdate⟩ := bind_eq_ok.mp hupdate
  obtain ⟨hg₁, -, -⟩ := h.processBlockAvailability hproc
  obtain ⟨state, hstate, hupdate⟩ := bind_eq_ok.mp hupdate
  rw [state_eq_ok] at hstate
  split at hupdate
  · cases hupdate
    exact hg₁.setState hstate rfl rfl
  · cases hupdate
    exact hg₁.setState hstate rfl rfl

omit h

/-! ## The blocks that are asked for -/

/-- Known by its header, and not in flight. -/
def Wanted (g : NodeGlobals) (hash : uint256) : Prop :=
  (g.chain.entry hash).isValid BLOCK_VALID_TREE = true ∧ (g.chain.entry hash).nStatus.haveData = false ∧
    g.mapBlocksInFlight[hash]? = none

variable {count : Nat}

theorem fetchBlock_wanted {nWindowEnd : Nat} {f : FetchState} (h : ∀ b ∈ f.vBlocks, Wanted g b) (hash : uint256) :
    ∀ b ∈ (g.fetchBlock nodeid count nWindowEnd f hash).vBlocks, Wanted g b := by
  unfold fetchBlock
  dsimp only
  split
  · exact h
  · split
    · exact h
    · rename_i hvalid
      split
      · split <;> exact h
      · rename_i hdata
        split
        · rename_i hflight
          split
          · exact h
          · intro b hb
            rcases List.mem_append.mp hb with hb | hb
            · exact h b hb
            · rw [List.mem_singleton.mp hb]
              exact ⟨by simpa using hvalid, by simpa using hdata, hflight⟩
        · exact h

theorem fetchLoop_wanted {nWindowEnd nMaxHeight : Nat} {best : uint256} : ∀ {fuel : Nat} {walk : uint256}
    {f f' : FetchState}, (∀ b ∈ f.vBlocks, Wanted g b) →
    g.fetchLoop nodeid count nWindowEnd nMaxHeight best fuel walk f = .ok f' → ∀ b ∈ f'.vBlocks, Wanted g b
  | 0, _, f, f', h, hloop => by
    cases hloop
    exact h
  | fuel + 1, walk, f, f', h, hloop => by
    rw [fetchLoop] at hloop
    dsimp only at hloop
    split at hloop
    · obtain ⟨last, -, hloop⟩ := bind_eq_ok.mp hloop
      obtain ⟨vToFetch, -, hloop⟩ := bind_eq_ok.mp hloop
      have hfold := List.foldlRecOn (motive := fun f => ∀ b ∈ f.vBlocks, Wanted g b) vToFetch
        (g.fetchBlock nodeid count nWindowEnd) h fun _ hf hash _ => fetchBlock_wanted hf hash
      split at hloop
      · cases hloop
        exact hfold
      · exact fetchLoop_wanted hfold hloop
    · cases hloop
      exact h

theorem fetchFrom_wanted {state : CNodeState} {best : uint256} {f : FetchState}
    (hfetch : g.fetchFrom nodeid count state best = .ok f) : ∀ b ∈ f.vBlocks, Wanted g b := by
  obtain ⟨guess, -, hfetch⟩ := bind_eq_ok.mp hfetch
  obtain ⟨common, -, hfetch⟩ := bind_eq_ok.mp hfetch
  have hnone : ∀ b ∈ ({ pindexLastCommonBlock := common } : FetchState).vBlocks, Wanted g b := List.forall_mem_nil _
  split at hfetch
  · cases hfetch
    exact hnone
  · exact fetchLoop_wanted hnone hfetch

/-- What `FindNextBlocksToDownload` does: its blocks are known by their headers only. -/
theorem findNextBlocksToDownload_spec (h : QueuesIndexed g) {r : NodeGlobals × List uint256 × Option Nat}
    (hfind : g.findNextBlocksToDownload nodeid count = .ok r) :
    QueuesIndexed r.1 ∧ r.1.chain = g.chain ∧ ∀ b ∈ r.2.1, Wanted g b := by
  unfold findNextBlocksToDownload at hfind
  split at hfind
  · cases hfind
    exact ⟨h, rfl, List.forall_mem_nil _⟩
  · obtain ⟨g₁, hproc, hfind⟩ := bind_eq_ok.mp hfind
    obtain ⟨hg₁, hchain, hflight⟩ := h.processBlockAvailability hproc
    obtain ⟨state, hstate, hfind⟩ := bind_eq_ok.mp hfind
    rw [state_eq_ok] at hstate
    split at hfind
    · cases hfind
      exact ⟨hg₁, hchain, List.forall_mem_nil _⟩
    · obtain ⟨tip, -, hfind⟩ := bind_eq_ok.mp hfind
      split at hfind
      · cases hfind
        exact ⟨hg₁, hchain, List.forall_mem_nil _⟩
      · obtain ⟨f, hfetch, hfind⟩ := bind_eq_ok.mp hfind
        cases hfind
        refine ⟨hg₁.setState hstate rfl rfl, hchain, fun b hb => ?_⟩
        have hwanted := fetchFrom_wanted hfetch b hb
        unfold Wanted at hwanted ⊢
        rwa [hchain, hflight] at hwanted

theorem QueuesIndexed.sendBlockRequests (h : QueuesIndexed g) {fFetch : Bool} {nNow : Int}
    {r : NodeGlobals × List uint256} (hsend : g.sendBlockRequests nodeid fFetch nNow = .ok r) : QueuesIndexed r.1 := by
  obtain ⟨state, -, hsend⟩ := bind_eq_ok.mp hsend
  split at hsend
  · obtain ⟨found, hfind, hsend⟩ := bind_eq_ok.mp hsend
    obtain ⟨hfound, -, -⟩ := findNextBlocksToDownload_spec h hfind
    obtain ⟨g₁, hmark, hsend⟩ := bind_eq_ok.mp hsend
    have hg₁ : QueuesIndexed g₁ := foldlM_inv (fun _ _ _ _ hI hs => (hI.markBlockAsInFlight hs).1) hfound hmark
    obtain ⟨_, -, hsend⟩ := bind_eq_ok.mp hsend
    split at hsend
    · cases hsend
      exact hg₁
    · split at hsend
      · cases hsend
        exact hg₁
      · obtain ⟨s, hs, hsend⟩ := bind_eq_ok.mp hsend
        rw [state_eq_ok] at hs
        cases hsend
        split
        · exact hg₁.setState hs rfl rfl
        · exact hg₁
  · cases hsend
    exact h

/-! ## Every run -/

theorem QueuesIndexed.misbehaving (h : QueuesIndexed g) (nodeid : Nat) (howmuch : Int) :
    QueuesIndexed (g.misbehaving nodeid howmuch) := by
  unfold NodeGlobals.misbehaving
  split
  · exact h
  · rename_i hstate
    exact h.setState hstate rfl rfl

variable {v : Validation} {activeProtocol : Int}

theorem QueuesIndexed.processMessageBlock (h : QueuesIndexed g) {m : BlockMessage} {r : NodeGlobals × BlockReply}
    (hm : g.processMessageBlock v activeProtocol m = .ok r) :
    QueuesIndexed r.1 := by
  unfold NodeGlobals.processMessageBlock at hm
  dsimp only at hm
  split at hm
  · cases hm
    exact h
  split at hm
  · cases hm
    exact h.misbehaving m.pfrom 1
  split at hm
  · cases hm
    exact h
  split at hm
  · cases hm
    exact { h with }
  split at hm
  · obtain ⟨g₁, hreceived, hg₁, -, -⟩ := h.markBlockAsReceived m.block.hash
    rw [hreceived, ok_bind] at hm
    cases hm
    exact { hg₁ with }
  · cases hm
    exact h

theorem QueuesIndexed.event (h : QueuesIndexed g) {e : NodeEvent} (hstep : g.step v activeProtocol e = .ok g') :
    QueuesIndexed g' := by
  cases e with
  | connect nodeid node =>
    cases hstep
    exact (h.initializeNode nodeid node).1
  | version nodeid nVersion =>
    cases hstep
    exact { h with }
  | disconnect nodeid =>
    obtain ⟨-, -, h', -⟩ := h.finalizeNode hstep
    exact h'
  | block m =>
    obtain ⟨r, hr, hstep⟩ := bind_eq_ok.mp hstep
    cases hstep
    exact h.processMessageBlock hr
  | inv nodeid hash => exact h.updateBlockAvailability hstep
  | send nodeid fFetch nNow =>
    obtain ⟨r, hr, hstep⟩ := bind_eq_ok.mp hstep
    cases hstep
    exact h.sendBlockRequests hr
  | validation chain =>
    cases hstep
    exact { h with }
  | importing fImporting fReindex =>
    cases hstep
    exact { h with }

theorem queuesIndexed_run {events : List NodeEvent} (hrun : run v activeProtocol events = .ok g) : QueuesIndexed g :=
  foldlM_inv (fun _ _ _ _ hI hs => hI.event hs) downloadBooks_init.toQueuesIndexed hrun

theorem inFlightOwned_run {events : List NodeEvent} (hrun : run v activeProtocol events = .ok g) : InFlightOwned g := by
  intro hash nodeid hflight
  obtain ⟨state, hstate, hmem⟩ := ((queuesIndexed_run hrun).index hash nodeid).mp hflight
  exact ⟨state, hstate, List.mem_map.mp hmem⟩

end NodeGlobals

/-! ## Delivery -/

/-- The message's block is handed to `ProcessNewBlock` and no longer in flight. -/
def Delivered (v : Validation) (activeProtocol : Int) (g : NodeGlobals) (m : BlockMessage) : Prop :=
  ∃ r, g.processMessageBlock v activeProtocol m = .ok r ∧ r.2.processed = some m.block ∧
    r.1.mapBlocksInFlight[m.block.hash]? = none

/-- The peer has sent its version, the node is not importing blocks, and the index has no entry for the block, not even
for its header. -/
structure DeliveredWhen (g : NodeGlobals) (m : BlockMessage) : Prop where
  received : m.dropped = false
  version : ((g.vNodes[m.pfrom]?).getD {}).nVersion ≠ 0
  importing : g.fImporting = false
  reindex : g.fReindex = false
  unknown : g.chain.contains m.block.hash = false

/-- The block's data is wanted: its parent is in the index, it is not stored and not known to be invalid. -/
structure BodyMissing (g : NodeGlobals) (block : BlockData) : Prop where
  parent : g.chain.contains block.hashPrevBlock = true
  noData : (g.chain.entry block.hash).nStatus.haveData = false
  notFailed : (g.chain.entry block.hash).nStatus.failed = false

theorem Delivered.when {v : Validation} {activeProtocol : Int} {g : NodeGlobals} {m : BlockMessage}
    (h : Delivered v activeProtocol g m) : DeliveredWhen g m := by
  obtain ⟨r, hr, hprocessed, -⟩ := h
  unfold NodeGlobals.processMessageBlock at hr
  dsimp only at hr
  -- the other branches process nothing
  split_ifs at hr with hdropped hversion himporting hparent hunknown <;> try (cases hr; cases hprocessed)
  rw [Bool.or_eq_true, not_or, Bool.not_eq_true, Bool.not_eq_true] at himporting
  exact ⟨by simpa using hdropped, hversion, himporting.1, himporting.2, by simpa using hunknown⟩

/-- **Exactly the blocks whose header is unknown are delivered.** -/
theorem block_delivered_iff (v : Validation) (activeProtocol : Int) (events : List NodeEvent) (g : NodeGlobals)
    (hrun : NodeGlobals.run v activeProtocol events = .ok g) (m : BlockMessage) (hmissing : BodyMissing g m.block) :
    Delivered v activeProtocol g m ↔ DeliveredWhen g m := by
  refine ⟨Delivered.when, fun h => ?_⟩
  obtain ⟨g₁, hreceived, -, hcleared, -⟩ := (NodeGlobals.queuesIndexed_run hrun).markBlockAsReceived m.block.hash
  unfold Delivered NodeGlobals.processMessageBlock
  simp only [h.received, h.version, h.importing, h.reindex, h.unknown, hmissing.parent, hreceived, Bool.or_false,
    Bool.not_true, Bool.not_false, Bool.false_eq_true, if_false, if_true]
  exact ⟨_, rfl, rfl, hcleared⟩

def Sample.genesisChain : BlockIndexState :=
  { mapBlockIndex := (∅ : FinMap uint256 BlockEntry).insert 1
      { nChainWork := 1, nTx := 1, nChainTx := 1, nStatus := { validity := 5, haveData := true } }
    vChain := [1]
    setBlockIndexCandidates := (∅ : FinMap uint256 Unit).insert 1 () }

def Sample.validation : Validation :=
  { hashGenesisBlock := 1, address := fun hash => hash.toNat, activateBestChain := id
    reconsiderBlock := fun _ s => (s, false) }

def Sample.blockMessage : BlockMessage :=
  { pfrom := 7, block := { hash := 2, hashPrevBlock := 1, isProofOfStake := true } }

def Sample.connected : List NodeEvent := [.validation Sample.genesisChain, .connect 7 {}, .version 7 70926]

open Sample

theorem block_delivered_iff_fresh : ∃ g, NodeGlobals.run validation 70926 connected = .ok g ∧
    BodyMissing g blockMessage.block ∧
    (Delivered validation 70926 g blockMessage ↔ DeliveredWhen g blockMessage) := by
  have hout : Returns (NodeGlobals.run validation 70926 connected)
      (fun g => g.chain.contains 1 = true ∧ (g.chain.entry 2).nStatus.haveData = false ∧
        (g.chain.entry 2).nStatus.failed = false) := by
    decide +kernel
  obtain ⟨g, hrun, hparent, hdata, hfailed⟩ := hout.exists_ok
  have hmissing : BodyMissing g blockMessage.block := ⟨hparent, hdata, hfailed⟩
  exact ⟨g, hrun, hmissing, block_delivered_iff validation 70926 connected g hrun _ hmissing⟩

/-- The peer delivers the block while the coins that it stakes are missing, announces it and is asked for it. -/
def Sample.askedAgain : List NodeEvent :=
  connected ++ [.block { blockMessage with checks := { stakeInputs := false } }, .inv 7 2, .send 7 true 0]

theorem inFlightOwned_askedAgain : ∃ g, NodeGlobals.run validation 70926 askedAgain = .ok g ∧ g.InFlightOwned := by
  have hout : Returns (NodeGlobals.run validation 70926 askedAgain) fun _ => True := by decide +kernel
  obtain ⟨g, hrun, -⟩ := hout.exists_ok
  exact ⟨g, hrun, NodeGlobals.inFlightOwned_run hrun⟩

/-- The body of a block that the node asked for is ignored, and the block stays in flight. -/
theorem requested_block_ignored : ∃ g, NodeGlobals.run validation 70926 askedAgain = .ok g ∧
    BodyMissing g blockMessage.block ∧ g.mapBlocksInFlight[(2 : uint256)]? = some 7 ∧
    ¬ Delivered validation 70926 g blockMessage ∧
    ∃ r, g.processMessageBlock validation 70926 blockMessage = .ok r ∧
      r.1.mapBlocksInFlight[(2 : uint256)]? = some 7 := by
  have hout : Returns (do
        let g ← NodeGlobals.run validation 70926 askedAgain
        return (g, ← g.processMessageBlock validation 70926 blockMessage))
      (fun x => (x.1.chain.contains 1 = true ∧ (x.1.chain.entry 2).nStatus.haveData = false ∧
        (x.1.chain.entry 2).nStatus.failed = false) ∧ x.1.mapBlocksInFlight[(2 : uint256)]? = some 7 ∧
        x.2.2.processed = none ∧ x.2.1.mapBlocksInFlight[(2 : uint256)]? = some 7) := by
    decide +kernel
  obtain ⟨⟨g, r⟩, hx, ⟨hparent, hdata, hfailed⟩, hflight, hprocessed, hstill⟩ := hout.exists_ok
  obtain ⟨g', hrun, hx⟩ := bind_eq_ok.mp hx
  obtain ⟨r', hr, hx⟩ := bind_eq_ok.mp hx
  cases hx
  refine ⟨g, hrun, ⟨hparent, hdata, hfailed⟩, hflight, ?_, r, hr, hstill⟩
  rintro ⟨r', hr', hprocessed', -⟩
  rw [hr] at hr'
  cases hr'
  rw [hprocessed] at hprocessed'
  cases hprocessed'

/-- **What the node asks for is never delivered** while the index keeps its entry: the blocks that
`FindNextBlocksToDownload` chooses are in the index, without data and not failed. -/
theorem requested_not_delivered (v : Validation) (activeProtocol : Int) (events : List NodeEvent) (g : NodeGlobals)
    (hrun : NodeGlobals.run v activeProtocol events = .ok g) {nodeid count : Nat}
    {r : NodeGlobals × List uint256 × Option Nat} (hfind : g.findNextBlocksToDownload nodeid count = .ok r)
    {m : BlockMessage} (hm : m.block.hash ∈ r.2.1) :
    g.chain.contains m.block.hash = true ∧ (g.chain.entry m.block.hash).nStatus.haveData = false ∧
      (g.chain.entry m.block.hash).nStatus.failed = false ∧ ¬ Delivered v activeProtocol g m := by
  have hqueues := NodeGlobals.queuesIndexed_run hrun
  obtain ⟨-, -, hwanted⟩ := NodeGlobals.findNextBlocksToDownload_spec hqueues hfind
  obtain ⟨hvalid, hdata, -⟩ := hwanted m.block.hash hm
  have hfailed : (g.chain.entry m.block.hash).nStatus.failed = false := by
    simpa using (Bool.and_eq_true_iff.mp hvalid).1
  have hknown : g.chain.contains m.block.hash = true := by
    cases hentry : g.chain.mapBlockIndex[m.block.hash]? with
    | some e => rw [BlockIndexState.contains, hentry]; rfl
    | none =>
      rw [BlockIndexState.entry, hentry] at hvalid
      cases hvalid
  refine ⟨hknown, hdata, hfailed, fun hdelivered => ?_⟩
  have hunknown := hdelivered.when.unknown
  rw [hknown] at hunknown
  cases hunknown

theorem requested_not_delivered_sample :
    ∃ g, NodeGlobals.run validation 70926 askedAgain.dropLast = .ok g ∧ g.chain.contains blockMessage.block.hash = true ∧
      ¬ Delivered validation 70926 g blockMessage := by
  have hout : Returns (do
        let g ← NodeGlobals.run validation 70926 askedAgain.dropLast
        return (g, ← g.findNextBlocksToDownload 7 16))
      (fun x => (2 : uint256) ∈ x.2.2.1) := by
    decide +kernel
  obtain ⟨⟨g, r⟩, hx, hm⟩ := hout.exists_ok
  obtain ⟨_, hrun, hx⟩ := bind_eq_ok.mp hx
  obtain ⟨_, hr, hx⟩ := bind_eq_ok.mp hx
  cases hx
  obtain ⟨hknown, -, -, hdropped⟩ := requested_not_delivered _ _ _ _ hrun hr (m := blockMessage) hm
  exact ⟨g, hrun, hknown, hdropped⟩

end TrumpCoin
