import Mathlib.Data.List.Chain
import Mathlib.Data.List.Induction
import TrumpCoin.Patriotnodes.Manager

/-!
# Tier-two synchronization

`CPatriotnodeSync` of `patriotnode-sync.cpp` outside regtest: the state machine that `Process` drives through the
assets, and the two ways in which it starts over. One is a pause of more than an hour between two calls of
`IsBlockchainSynced`. The other is a round of `Process` in the final state that counts at most one enabled node in the
legacy list, which is emptied once legacy nodes are obsolete.

* `process_finished_iff`, `stays_finished_iff`: when a round, and a run without pauses, keeps the final state.
-/

namespace TrumpCoin

open Lib

/-- `RequestedPatriotnodeAssets`. -/
inductive SyncAsset where
  | INITIAL | SPORKS | LIST | PNW | BUDGET | FAILED | FINISHED
deriving DecidableEq

def PATRIOTNODE_SYNC_TIMEOUT : Int := 5
def PATRIOTNODE_SYNC_THRESHOLD : Int := 2

def SyncAsset.code : SyncAsset → Int
  | INITIAL => 0
  | SPORKS => 1
  | LIST => 2
  | PNW => 3
  | BUDGET => 4
  | FAILED => 998
  | FINISHED => 999

/-- What the functions read of a connected peer. -/
structure SyncPeer where
  nodeid : Nat
  nVersion : Int
deriving DecidableEq

/-- What a round reads of the other modules. -/
structure SyncEnv extends ManEnv where
  params : CChainParams
  mnodeman : CPatriotnodeMan := {}
  /-- `fImporting || fReindex` -/
  importing : Bool := false
  /-- `g_best_block_time`, if its lock is free -/
  bestBlockTime : Option Int := none
  /-- `SPORK_8_PATRIOTNODE_PAYMENT_ENFORCEMENT` -/
  paymentEnforcement : Bool := false
  /-- the peers in the random order of the round -/
  peers : List SyncPeer := []
  requestMnList : Nat → Bool := fun _ => true

def SyncEnv.countEnabled (env : SyncEnv) : Nat := env.mnodeman.countEnabled env.params env.toManEnv

structure CPatriotnodeSync where
  /-- the counter of the calls of `Process` -/
  tick : Nat := 0
  mapSeenSyncPNB : FinMap uint256 Int := ∅
  mapSeenSyncPNW : FinMap uint256 Int := ∅
  mapSeenSyncBudget : FinMap uint256 Int := ∅
  lastPatriotnodeList : Int := 0
  lastPatriotnodeWinner : Int := 0
  lastBudgetItem : Int := 0
  lastFailure : Int := 0
  nCountFailures : Int := 0
  lastProcess : Int := 0
  fBlockchainSynced : Bool := false
  requestedAssets : SyncAsset := .INITIAL
  requestedAttempt : Int := 0
  nAssetSyncStarted : Int := 0
  /-- the requests that the peers have fulfilled -/
  fulfilled : List (Nat × String) := []

namespace CPatriotnodeSync

def isSynced (s : CPatriotnodeSync) : Bool := s.requestedAssets = .FINISHED

variable (s : CPatriotnodeSync) (now : Int)

/-- `Reset`. The counter of `Process` and the marks on the peers are kept. -/
def reset : CPatriotnodeSync :=
  { tick := s.tick, fulfilled := s.fulfilled, nAssetSyncStarted := now }

variable (env : SyncEnv)

def isBlockchainSynced : CPatriotnodeSync × Bool :=
  let s := if s.lastProcess + 60 * 60 < now then s.reset now else s
  let s := { s with lastProcess := now }
  if s.fBlockchainSynced then (s, true)
  else if env.importing then (s, false)
  else match env.bestBlockTime with
    | none => (s, false)
    | some blockTime =>
      if blockTime + 60 * 60 < s.lastProcess then (s, false) else ({ s with fBlockchainSynced := true }, true)

def getNextAsset (legacyPNObsolete : Bool) : SyncAsset → SyncAsset
  | .INITIAL => .SPORKS
  | .FAILED => .SPORKS
  | .SPORKS => if legacyPNObsolete then .BUDGET else .LIST
  | .LIST => if legacyPNObsolete then .BUDGET else .PNW
  | .PNW => .BUDGET
  | .BUDGET => .FINISHED
  | .FINISHED => .FINISHED

def switchToNextAsset : CPatriotnodeSync :=
  let cleared := s.requestedAssets = .INITIAL ∨ s.requestedAssets = .FAILED
  { s with
    fulfilled := if cleared then [] else s.fulfilled
    requestedAssets := getNextAsset env.legacyPNObsolete s.requestedAssets
    requestedAttempt := 0
    nAssetSyncStarted := now }

/-- The end of a stage that got nothing: a failure if payments are enforced, else the next asset. -/
def timedOut : CPatriotnodeSync :=
  if env.paymentEnforcement then
    { s with
      requestedAssets := .FAILED
      requestedAttempt := 0
      lastFailure := now
      nCountFailures := s.nCountFailures + 1 }
  else s.switchToNextAsset now env

/-- Nothing arrived for the asset, and enough requests were sent or enough time has passed. -/
def nothingArrived (last : Int) : Bool :=
  last = 0 ∧ (PATRIOTNODE_SYNC_THRESHOLD * 3 ≤ s.requestedAttempt ∨
    PATRIOTNODE_SYNC_TIMEOUT * 5 < now - s.nAssetSyncStarted)

/-- Something arrived for the asset, but not in the last `quiet` seconds. -/
def quietSince (last quiet : Int) : Bool :=
  0 < last ∧ last < now - quiet ∧ PATRIOTNODE_SYNC_THRESHOLD ≤ s.requestedAttempt

/-- The request of an asset from a peer that has not fulfilled it yet. -/
def request (s : CPatriotnodeSync) (pnode : SyncPeer) (name : String) : CPatriotnodeSync :=
  { s with fulfilled := (pnode.nodeid, name) :: s.fulfilled, requestedAttempt := s.requestedAttempt + 1 }

/-- `SyncWithNode`. The flag says whether the round goes on with the next peer. -/
def syncWithNode (pnode : SyncPeer) : CPatriotnodeSync × Bool :=
  let has name := s.fulfilled.contains (pnode.nodeid, name)
  if s.requestedAssets = .SPORKS then
    if has "getspork" then (s, true)
    else
      let s := { s with fulfilled := (pnode.nodeid, "getspork") :: s.fulfilled }
      let s := if (2 : Int) ≤ s.requestedAttempt then s.switchToNextAsset now env else s
      ({ s with requestedAttempt := s.requestedAttempt + 1 }, false)
  else if pnode.nVersion < env.activeProtocol then (s, true)
  else match s.requestedAssets with
    | .LIST =>
      if env.legacyPNObsolete then (s.switchToNextAsset now env, false)
      else if s.quietSince now s.lastPatriotnodeList (PATRIOTNODE_SYNC_TIMEOUT * 8) then
        (s.switchToNextAsset now env, false)
      else if s.nothingArrived now s.lastPatriotnodeList then (s.timedOut now env, false)
      else if PATRIOTNODE_SYNC_THRESHOLD * 4 ≤ s.requestedAttempt then (s, false)
      else if has "mnsync" then (s, true)
      else if !env.requestMnList pnode.nodeid then (s, true)
      else (s.request pnode "mnsync", false)
    | .PNW =>
      if env.legacyPNObsolete then (s.switchToNextAsset now env, false)
      else if s.quietSince now s.lastPatriotnodeWinner (PATRIOTNODE_SYNC_TIMEOUT * 2) then
        (s.switchToNextAsset now env, false)
      else if s.nothingArrived now s.lastPatriotnodeWinner then (s.timedOut now env, false)
      else if PATRIOTNODE_SYNC_THRESHOLD * 3 ≤ s.requestedAttempt then (s, false)
      else if has "mnwsync" then (s, true)
      else (s.request pnode "mnwsync", false)
    | .BUDGET =>
      if s.quietSince now s.lastBudgetItem (PATRIOTNODE_SYNC_TIMEOUT * 10) then (s.switchToNextAsset now env, false)
      -- maybe there are no budgets at all
      else if s.nothingArrived now s.lastBudgetItem then (s.switchToNextAsset now env, false)
      else if PATRIOTNODE_SYNC_THRESHOLD * 3 ≤ s.requestedAttempt then (s, false)
      else if has "busync" then (s, true)
      else (s.request pnode "busync", false)
    | _ => (s, true)

/-- `ForEachNodeInRandomOrderContinueIf`. -/
def syncPeers (now : Int) (env : SyncEnv) : List SyncPeer → CPatriotnodeSync → CPatriotnodeSync
  | [], s => s
  | pnode :: peers, s =>
    let r := s.syncWithNode now env pnode
    if r.2 then syncPeers now env peers r.1 else r.1

/-- The part of `Process` after the sync is known not to be finished. -/
def processAssets : CPatriotnodeSync :=
  if s.requestedAssets = .FAILED ∧ now ≤ s.lastFailure + 1 * 60 then s
  else
    let s := if s.requestedAssets = .FAILED then s.reset now else s
    let s := if s.requestedAssets = .INITIAL then s.switchToNextAsset now env else s
    let r := s.isBlockchainSynced now env
    if r.2 = false ∧ SyncAsset.SPORKS.code < r.1.requestedAssets.code then r.1 else syncPeers now env env.peers r.1

def process : CPatriotnodeSync :=
  let tick := s.tick
  let s := { s with tick := tick + 1 }
  if tick % 5 ≠ 0 then s
  else if s.isSynced then if env.countEnabled ≤ 1 then (s.reset now).processAssets now env else s
  else s.processAssets now env

/-- An item was announced or received: it counts while it was seen fewer than `PATRIOTNODE_SYNC_THRESHOLD` times. The
second value says whether the time of the last item is set. -/
def added (seen : FinMap uint256 Int) (known : Bool) (hash : uint256) : FinMap uint256 Int × Bool :=
  if known then
    let count := (seen[hash]?).getD 0
    if count < PATRIOTNODE_SYNC_THRESHOLD then (seen.insert hash (count + 1), true) else (seen, false)
  else (seen.emplace hash 1, true)

variable (known : Bool) (hash : uint256)

def addedPatriotnodeList : CPatriotnodeSync :=
  let r := added s.mapSeenSyncPNB known hash
  { s with mapSeenSyncPNB := r.1, lastPatriotnodeList := if r.2 then now else s.lastPatriotnodeList }

def addedPatriotnodeWinner : CPatriotnodeSync :=
  let r := added s.mapSeenSyncPNW known hash
  { s with mapSeenSyncPNW := r.1, lastPatriotnodeWinner := if r.2 then now else s.lastPatriotnodeWinner }

def addedBudgetItem : CPatriotnodeSync :=
  let r := added s.mapSeenSyncBudget known hash
  { s with mapSeenSyncBudget := r.1, lastBudgetItem := if r.2 then now else s.lastBudgetItem }

/-- `MessageDispatcher` of the message that ends a list of sporks. -/
def sporkListEnd (s : CPatriotnodeSync) : CPatriotnodeSync :=
  if s.requestedAssets.code < SyncAsset.LIST.code then { s with requestedAssets := .LIST } else s

end CPatriotnodeSync

/-! ## Runs -/

/-- The calls that change the state of the sync. -/
inductive SyncEvent where
  /-- a round of `ThreadCheckPatriotnodes`: `Process` and then `IsBlockchainSynced` -/
  | round (now : Int) (env : SyncEnv)
  /-- `IsBlockchainSynced`, called by any other code -/
  | check (now : Int) (env : SyncEnv)
  | addedPatriotnodeList (now : Int) (known : Bool) (hash : uint256)
  | addedPatriotnodeWinner (now : Int) (known : Bool) (hash : uint256)
  | addedBudgetItem (now : Int) (known : Bool) (hash : uint256)
  | sporkListEnd

def SyncEvent.checkTime : SyncEvent → Option Int
  | .round now _ => some now
  | .check now _ => some now
  | _ => none

namespace CPatriotnodeSync

def step (s : CPatriotnodeSync) : SyncEvent → CPatriotnodeSync
  | .round now env => ((s.process now env).isBlockchainSynced now env).1
  | .check now env => (s.isBlockchainSynced now env).1
  | .addedPatriotnodeList now known hash => s.addedPatriotnodeList now known hash
  | .addedPatriotnodeWinner now known hash => s.addedPatriotnodeWinner now known hash
  | .addedBudgetItem now known hash => s.addedBudgetItem now known hash
  | .sporkListEnd => s.sporkListEnd

variable (start : Int) (events : List SyncEvent)

def run : CPatriotnodeSync := events.foldl step { nAssetSyncStarted := start }

theorem run_append (e : SyncEvent) : run start (events ++ [e]) = (run start events).step e := by
  rw [run, List.foldl_append]
  rfl

/-! ## Starting over -/

variable {s : CPatriotnodeSync} {now : Int} {env : SyncEnv}

theorem isSynced_iff : s.isSynced = true ↔ s.requestedAssets = .FINISHED := decide_eq_true_iff

variable (s now env) in
/-- `IsBlockchainSynced` remembers the time and starts over after a pause. -/
theorem isBlockchainSynced_spec : (s.isBlockchainSynced now env).1.lastProcess = now ∧
      (s.isBlockchainSynced now env).1.requestedAssets =
        if s.lastProcess + 60 * 60 < now then .INITIAL else s.requestedAssets := by
  unfold isBlockchainSynced
  by_cases hpause : s.lastProcess + 60 * 60 < now
  · simp only [if_pos hpause]
    split
    · exact ⟨rfl, rfl⟩
    · split
      · exact ⟨rfl, rfl⟩
      · split
        · exact ⟨rfl, rfl⟩
        · split <;> exact ⟨rfl, rfl⟩
  · simp only [if_neg hpause]
    split
    · exact ⟨rfl, rfl⟩
    · split
      · exact ⟨rfl, rfl⟩
      · split
        · exact ⟨rfl, rfl⟩
        · split <;> exact ⟨rfl, rfl⟩

def Early (s : CPatriotnodeSync) : Prop := s.requestedAssets = .INITIAL ∨ s.requestedAssets = .SPORKS

theorem Early.not_finished (h : Early s) : s.requestedAssets ≠ .FINISHED := by
  rcases h with h | h <;> rw [h] <;> decide

theorem Early.syncWithNode (h : Early s) (now : Int) (env : SyncEnv) (pnode : SyncPeer) :
    (s.syncWithNode now env pnode).1.requestedAssets ≠ .FINISHED ∧
      ((s.syncWithNode now env pnode).2 = true → Early (s.syncWithNode now env pnode).1) := by
  unfold CPatriotnodeSync.syncWithNode
  rcases h with h | h
  · -- nothing is asked for in the initial state
    have hearly : Early s := .inl h
    rw [h]
    simp only [reduceCtorEq, if_false]
    split
    · exact ⟨hearly.not_finished, fun _ => hearly⟩
    · exact ⟨hearly.not_finished, fun _ => hearly⟩
  · have hearly : Early s := .inr h
    rw [if_pos h]
    split
    · exact ⟨hearly.not_finished, fun _ => hearly⟩
    · refine ⟨?_, fun hfalse => (by cases hfalse)⟩
      dsimp only
      split
      · dsimp only [switchToNextAsset]
        rw [h, getNextAsset]
        split <;> decide
      · exact hearly.not_finished

theorem Early.syncPeers (now : Int) (env : SyncEnv) : ∀ (peers : List SyncPeer) {s : CPatriotnodeSync}, Early s →
    (CPatriotnodeSync.syncPeers now env peers s).requestedAssets ≠ .FINISHED
  | [], _, h => h.not_finished
  | pnode :: peers, s, h => by
    obtain ⟨hnot, hearly⟩ := h.syncWithNode now env pnode
    rw [CPatriotnodeSync.syncPeers]
    split_ifs with hgo
    · exact Early.syncPeers now env peers (hearly hgo)
    · exact hnot

variable (s now env) in
theorem processAssets_reset : ((s.reset now).processAssets now env).requestedAssets ≠ .FINISHED := by
  unfold processAssets
  rw [if_neg (fun hfailed => (by cases hfailed.1))]
  dsimp only
  rw [if_neg (show ¬(s.reset now).requestedAssets = .FAILED from fun h => (by cases h)),
    if_pos (show (s.reset now).requestedAssets = .INITIAL from rfl)]
  have hassets := (isBlockchainSynced_spec ((s.reset now).switchToNextAsset now env) now env).2
  have hearly : Early (((s.reset now).switchToNextAsset now env).isBlockchainSynced now env).1 := by
    unfold Early
    rw [hassets]
    split
    · exact .inl rfl
    · exact .inr rfl
  split
  · exact hearly.not_finished
  · exact hearly.syncPeers now env env.peers

/-- A round keeps the final state unless it counts at most one enabled legacy node. -/
theorem process_finished_iff (h : s.requestedAssets = .FINISHED) (now : Int) (env : SyncEnv) :
    ((s.process now env).requestedAssets = .FINISHED ↔ (s.tick % 5 = 0 → 1 < env.countEnabled)) ∧
      ((s.process now env).requestedAssets = .FINISHED → (s.process now env).lastProcess = s.lastProcess) := by
  unfold process
  by_cases htick : s.tick % 5 = 0
  · rw [if_neg (not_not.mpr htick), if_pos (show isSynced { s with tick := s.tick + 1 } = true from isSynced_iff.mpr h)]
    by_cases hcount : env.countEnabled ≤ 1
    · rw [if_pos hcount]
      have hleft := processAssets_reset { s with tick := s.tick + 1 } now env
      exact ⟨iff_of_false hleft fun hc => absurd (hc htick) (not_lt.mpr hcount), fun hf => absurd hf hleft⟩
    · rw [if_neg hcount]
      exact ⟨iff_of_true h fun _ => not_le.mp hcount, fun _ => rfl⟩
  · rw [if_pos htick]
    exact ⟨iff_of_true h fun h0 => absurd h0 htick, fun _ => rfl⟩

/-! ## Every run -/

/-- The time of the last call of `IsBlockchainSynced`. -/
def lastCheck (events : List SyncEvent) : Option Int := (events.filterMap SyncEvent.checkTime).getLast?

theorem lastCheck_append (events : List SyncEvent) (e : SyncEvent) :
    lastCheck (events ++ [e]) = e.checkTime.or (lastCheck events) := by
  unfold lastCheck
  rw [List.filterMap_append]
  cases he : e.checkTime with
  | none => simp [he]
  | some now => simp [he]

variable {e : SyncEvent}

theorem step_other (he : e.checkTime = none) :
    (s.step e).lastProcess = s.lastProcess ∧
      ((s.step e).requestedAssets = .FINISHED ↔ s.requestedAssets = .FINISHED) := by
  cases e with
  | round now env => cases he
  | check now env => cases he
  | addedPatriotnodeList now known hash => exact ⟨rfl, Iff.rfl⟩
  | addedPatriotnodeWinner now known hash => exact ⟨rfl, Iff.rfl⟩
  | addedBudgetItem now known hash => exact ⟨rfl, Iff.rfl⟩
  | sporkListEnd =>
    dsimp only [step]
    unfold sporkListEnd
    split_ifs with hlt
    · refine ⟨rfl, iff_of_false (fun h => (by cases h)) fun h => ?_⟩
      rw [h] at hlt
      exact absurd hlt (by decide)
    · exact ⟨rfl, Iff.rfl⟩

theorem step_check (he : e.checkTime = some now) : (s.step e).lastProcess = now := by
  cases e with
  | round t env =>
    obtain rfl : t = now := Option.some.inj he
    exact (isBlockchainSynced_spec _ t env).1
  | check t env =>
    obtain rfl : t = now := Option.some.inj he
    exact (isBlockchainSynced_spec _ t env).1
  | addedPatriotnodeList t known hash => cases he
  | addedPatriotnodeWinner t known hash => cases he
  | addedBudgetItem t known hash => cases he
  | sporkListEnd => cases he

/-- `lastProcess` is the time of the last call; before the first one the sync is not finished. -/
theorem run_lastProcess : (∀ t, lastCheck events = some t → (run start events).lastProcess = t) ∧
      (lastCheck events = none → (run start events).requestedAssets ≠ .FINISHED) := by
  induction events using List.reverseRecOn with
  | nil => exact ⟨fun t h => (by cases h), fun _ h => (by cases h)⟩
  | append_singleton events e ih =>
    rw [run_append, lastCheck_append]
    cases he : e.checkTime with
    | none =>
      obtain ⟨htime, hassets⟩ := step_other (s := run start events) he
      rw [Option.none_or, htime]
      exact ⟨ih.1, fun hnone hf => ih.2 hnone (hassets.mp hf)⟩
    | some now =>
      rw [Option.some_or]
      refine ⟨fun t ht => ?_, fun h => (by cases h)⟩
      cases ht
      exact step_check he

theorem step_finished_iff (h : s.requestedAssets = .FINISHED)
    (hgap : ∀ now, e.checkTime = some now → now ≤ s.lastProcess + 60 * 60) :
    (s.step e).requestedAssets = .FINISHED ↔
      ∀ now env, e = .round now env → s.tick % 5 = 0 → 1 < env.countEnabled := by
  cases hcheck : e.checkTime with
  | none =>
    refine iff_of_true ((step_other hcheck).2.mpr h) fun now env he => ?_
    rw [he] at hcheck
    cases hcheck
  | some t =>
    cases e with
    | round now env =>
      cases hcheck
      obtain ⟨hiff, htime⟩ := process_finished_iff h t env
      dsimp only [step]
      rw [(isBlockchainSynced_spec _ t env).2]
      have hround : (∀ now env', SyncEvent.round t env = .round now env' → s.tick % 5 = 0 → 1 < env'.countEnabled) ↔
          (s.tick % 5 = 0 → 1 < env.countEnabled) :=
        ⟨fun hall => hall t env rfl, fun hone now env' heq => by cases heq; exact hone⟩
      rw [hround, ← hiff]
      split_ifs with hpause
      · refine iff_of_false (fun hf => (by cases hf)) fun hf => ?_
        rw [htime hf] at hpause
        exact absurd (hgap t rfl) (not_le.mpr hpause)
      · rfl
    | check now env =>
      cases hcheck
      dsimp only [step]
      rw [(isBlockchainSynced_spec _ t env).2, if_neg (not_lt.mpr (hgap t rfl))]
      exact iff_of_true h fun now env' heq => (by cases heq)
    | addedPatriotnodeList now known hash => cases hcheck
    | addedPatriotnodeWinner now known hash => cases hcheck
    | addedBudgetItem now known hash => cases hcheck
    | sporkListEnd => cases hcheck

end CPatriotnodeSync

open CPatriotnodeSync

/-- **The final state of the sync.** Along a run in which `IsBlockchainSynced` is called at least once an hour, a sync
that has finished stays finished if and only if every fifth round in the final state counts at least two enabled nodes
in the legacy list. -/
theorem stays_finished_iff (start : Int) (events : List SyncEvent)
    (hgap : (events.filterMap SyncEvent.checkTime).IsChain fun t now => now ≤ t + 60 * 60) :
    (∀ done e rest, events = done ++ e :: rest → (run start done).isSynced = true →
        (run start (done ++ [e])).isSynced = true) ↔
      ∀ done now env rest, events = done ++ .round now env :: rest → (run start done).isSynced = true →
        (run start done).tick % 5 = 0 → 1 < env.countEnabled := by
  have hstep : ∀ done e rest, events = done ++ e :: rest → (run start done).isSynced = true →
      ((run start (done ++ [e])).isSynced = true ↔
        ∀ now env, e = .round now env → (run start done).tick % 5 = 0 → 1 < env.countEnabled) := by
    intro done e rest heq hsynced
    rw [isSynced_iff] at hsynced
    rw [isSynced_iff, run_append]
    refine step_finished_iff hsynced fun now hnow => ?_
    obtain ⟨hlast, hnone⟩ := run_lastProcess start done
    cases hcheck : lastCheck done with
    | none => exact absurd hsynced (hnone hcheck)
    | some t =>
      rw [hlast t hcheck]
      rw [heq, List.filterMap_append, List.filterMap_cons_some hnow] at hgap
      exact (List.isChain_append.mp hgap).2.2 t hcheck now rfl
  constructor
  · intro hstays done now env rest heq hsynced
    exact (hstep done _ rest heq hsynced).mp (hstays done _ rest heq hsynced) now env rfl
  · intro hcount done e rest heq hsynced
    refine (hstep done e rest heq hsynced).mpr fun now env he => ?_
    subst he
    exact hcount done now env rest heq hsynced

namespace Sample

/-- A legacy node that pinged when the rounds start. -/
def pinged (o : COutPoint) : CPatriotnode where
  vin := { prevout := o }
  addr := .v1 ⟨1, 15110⟩
  pubKeyCollateralAddress := [2]
  pubKeyPatriotnode := [3]
  sigTime := 1699990000
  protocolVersion := 70000
  lastPing := { vin := { prevout := o }, blockHash := 0xb0, sigTime := 1700000000 }

def twoPinged : CPatriotnodeMan :=
  (({} : CPatriotnodeMan).setNode ⟨0xa1, 0⟩ (pinged ⟨0xa1, 0⟩)).setNode ⟨0xa2, 0⟩ (pinged ⟨0xa2, 0⟩)

def syncEnv (now : Int) (mnodeman : CPatriotnodeMan) : SyncEnv where
  params := CMainParams
  mnodeman := mnodeman
  legacyPNObsolete := true
  adjustedTime := .ofInt now
  activeProtocol := 70000
  bestBlockTime := some now
  paymentEnforcement := true
  peers := [⟨1, 70000⟩, ⟨2, 70000⟩, ⟨3, 70000⟩]

/-- Rounds every ten seconds. -/
def rounds (mnodeman : CPatriotnodeMan) (n : Nat) : List SyncEvent :=
  (List.range n).map fun k => .round (1700000000 + 10 * k) (syncEnv (1700000000 + 10 * k) mnodeman)

end Sample

open Sample

theorem stays_finished_iff_two_legacy :
    ((rounds twoPinged 30).filterMap SyncEvent.checkTime).IsChain (fun t now => now ≤ t + 60 * 60) ∧
      (run 1700000000 (rounds twoPinged 30)).isSynced = true ∧
      ((∀ done e rest, rounds twoPinged 30 = done ++ e :: rest →
          (run 1700000000 done).isSynced = true → (run 1700000000 (done ++ [e])).isSynced = true) ↔
        ∀ done now env rest, rounds twoPinged 30 = done ++ .round now env :: rest →
          (run 1700000000 done).isSynced = true → (run 1700000000 done).tick % 5 = 0 → 1 < env.countEnabled) := by
  have hgap : ((rounds twoPinged 30).filterMap SyncEvent.checkTime).IsChain (fun t now => now ≤ t + 60 * 60) := by
    decide +kernel
  exact ⟨hgap, by decide +kernel, stays_finished_iff 1700000000 _ hgap⟩

/-- **The sync of a node that has finished starts over.** Once legacy nodes are obsolete their list is empty, and the
next effective round after the last asset leaves the final state. -/
theorem finished_sync_starts_over :
    let legacy := twoPinged.checkAndRemove CMainParams (syncEnv 1700000000 twoPinged).toManEnv 1700000000
    ((rounds legacy 26).filterMap SyncEvent.checkTime).IsChain (fun t now => now ≤ t + 60 * 60) ∧
      (run 1700000000 (rounds legacy 25)).isSynced = true ∧ (run 1700000000 (rounds legacy 26)).isSynced = false := by
  exact ⟨by decide +kernel, by decide +kernel, by decide +kernel⟩

end TrumpCoin
