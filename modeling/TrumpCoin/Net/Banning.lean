import Mathlib.Data.List.Induction
import TrumpCoin.Consensus

/-!
# Misbehaving peers

`Misbehaving` and the ban at the start of `SendMessages` of `net_processing.cpp`. The score of a peer is raised by
`Misbehaving`; the peer is cut off by the next `SendMessages` round that finds `fShouldBan`. The statement of
`Misbehaving` that sets the flag is commented out, so that no run sets it (`NoBanFlag.run`):

* `cut_off_iff`: a round cuts off every peer at the threshold if and only if no round finds such a peer;
* `served_after_offence`: a peer stays connected whatever its score, so that the score has no bound.
-/

namespace TrumpCoin

open Lib

/-- `CNodeState`, as far as banning reads it. -/
structure PeerScore where
  nMisbehavior : Int := 0
  fShouldBan : Bool := false
deriving DecidableEq

/-- `CNode`, as far as banning reads it. -/
structure PeerNode where
  addr : CService := ⟨0, 0⟩
  fWhitelisted : Bool := false
  fSuccessfullyConnected : Bool := false
  fDisconnect : Bool := false
deriving DecidableEq

/-- The part of `Misbehaving` that is not a comment. -/
def PeerScore.raise (state : PeerScore) (howmuch : Int) : PeerScore :=
  { state with nMisbehavior := state.nMisbehavior + howmuch }

structure PeerTable where
  mapNodeState : FinMap Nat PeerScore := ∅
  vNodes : FinMap Nat PeerNode := ∅
  /-- `nBanUntil` of the banned addresses. -/
  setBanned : FinMap (BitVec 128) Int := ∅

namespace PeerTable

variable (p : PeerTable) (nodeid : Nat)

def setState (state : PeerScore) : PeerTable :=
  { p with mapNodeState := p.mapNodeState.insert nodeid state }

def setNode (node : PeerNode) : PeerTable :=
  { p with vNodes := p.vNodes.insert nodeid node }

/-- `Misbehaving`. Crossing the threshold `banscore` is logged; the line `state->fShouldBan = true` is a comment. -/
def misbehaving (banscore : Int) (p : PeerTable) (nodeid : Nat) (howmuch : Int) : PeerTable × Option String :=
  if howmuch = 0 then (p, none)
  else match p.mapNodeState[nodeid]? with
    | none => (p, none)
    | some state =>
      let state := state.raise howmuch
      if banscore ≤ state.nMisbehavior ∧ state.nMisbehavior - howmuch < banscore then
        (p.setState nodeid state, some "BAN THRESHOLD EXCEEDED")
      else (p.setState nodeid state, some "")

/-- The rest of a `SendMessages` round: a peer that stalls the download of blocks is disconnected. -/
def finishRound (node : PeerNode) (stalling : Bool) : PeerTable :=
  if stalling then p.setNode nodeid { node with fDisconnect := true } else p

/-- `CConnman::Ban` of a single address: unless it is banned for longer already, every peer at the address is to be
disconnected. -/
def ban (p : PeerTable) (addr : CService) (nBanUntil : Int) : PeerTable :=
  if (p.setBanned[addr.ip]?).getD 0 < nBanUntil then
    { p with
      setBanned := p.setBanned.insert addr.ip nBanUntil
      vNodes := p.vNodes.map fun _ node =>
        if node.addr.ip = addr.ip then { node with fDisconnect := true } else node }
  else p

/-- `SendMessages`, with the address that is banned. `lockMain` says whether the round gets `cs_main`. -/
def sendMessages (lockMain stalling : Bool) (nBanUntil : Int) : Result (PeerTable × Option CService) :=
  match p.vNodes[nodeid]? with
  | none => .error (.nullDeref "SendMessages: pto")
  | some node =>
    if !node.fSuccessfullyConnected || node.fDisconnect then .ok (p, none)
    else if !lockMain then .ok (p, none)
    else match p.mapNodeState[nodeid]? with
      | none => .error (.nullDeref "SendMessages: State(pto->GetId())")
      | some state =>
        if state.fShouldBan then
          let p := p.setState nodeid { state with fShouldBan := false }
          if node.fWhitelisted then .ok (p.finishRound nodeid node stalling, none)
          else
            let p := p.setNode nodeid { node with fDisconnect := true }
            if node.addr.isLocal then .ok (p, none) else .ok (p.ban node.addr nBanUntil, some node.addr)
        else .ok (p.finishRound nodeid node stalling, none)

end PeerTable

/-! ## Runs -/

inductive PeerEvent where
  | initializeNode (nodeid : Nat) (node : PeerNode)
  | successfullyConnected (nodeid : Nat)
  | misbehaving (nodeid : Nat) (howmuch : Int)
  | sendMessages (nodeid : Nat) (lockMain stalling : Bool) (nBanUntil : Int)
  /-- any other code that gives the connection up -/
  | disconnect (nodeid : Nat)
  | finalizeNode (nodeid : Nat)

namespace PeerTable

def modifyNode (p : PeerTable) (nodeid : Nat) (f : PeerNode → PeerNode) : PeerTable :=
  match p.vNodes[nodeid]? with
  | none => p
  | some node => p.setNode nodeid (f node)

def step (banscore : Int) (p : PeerTable) : PeerEvent → Result PeerTable
  | .initializeNode nodeid node =>
    .ok { p with mapNodeState := p.mapNodeState.emplace nodeid {}, vNodes := p.vNodes.emplace nodeid node }
  | .successfullyConnected nodeid => .ok (p.modifyNode nodeid fun node => { node with fSuccessfullyConnected := true })
  | .misbehaving nodeid howmuch => .ok (p.misbehaving banscore nodeid howmuch).1
  | .sendMessages nodeid lockMain stalling nBanUntil => do
    return (← p.sendMessages nodeid lockMain stalling nBanUntil).1
  | .disconnect nodeid => .ok (p.modifyNode nodeid fun node => { node with fDisconnect := true })
  | .finalizeNode nodeid =>
    .ok { p with mapNodeState := p.mapNodeState.erase nodeid, vNodes := p.vNodes.erase nodeid }

def run (banscore : Int) (events : List PeerEvent) : Result PeerTable := events.foldlM (step banscore) {}

/-! ## The flag -/

def NoBanFlag (p : PeerTable) : Prop :=
  ∀ (nodeid : Nat) state, p.mapNodeState[nodeid]? = some state → state.fShouldBan = false

variable {p p' : PeerTable} {banscore : Int}
variable {nodeid : Nat}

theorem NoBanFlag.misbehaving (h : NoBanFlag p) (nodeid : Nat) (howmuch : Int) :
    NoBanFlag (p.misbehaving banscore nodeid howmuch).1 := by
  unfold PeerTable.misbehaving
  split
  · exact h
  · split
    · exact h
    · rename_i state hstate
      have hkept : NoBanFlag (p.setState nodeid (state.raise howmuch)) :=
        FinMap.forall_insert h (h nodeid state hstate)
      dsimp only
      split <;> exact hkept

theorem NoBanFlag.sendMessages (h : NoBanFlag p) {lockMain stalling : Bool} {nBanUntil : Int}
    {r : PeerTable × Option CService} (hsend : p.sendMessages nodeid lockMain stalling nBanUntil = .ok r) :
    r.2 = none ∧ NoBanFlag r.1 := by
  unfold PeerTable.sendMessages at hsend
  split at hsend
  · cases hsend
  · split at hsend
    · cases hsend
      exact ⟨rfl, h⟩
    · split at hsend
      · cases hsend
        exact ⟨rfl, h⟩
      · split at hsend
        · cases hsend
        · rename_i state hstate
          rw [if_neg (by rw [h nodeid state hstate]; exact Bool.false_ne_true)] at hsend
          cases hsend
          refine ⟨rfl, ?_⟩
          intro n s hs
          unfold finishRound at hs
          split at hs <;> exact h n s hs

theorem NoBanFlag.modifyNode (h : NoBanFlag p) (nodeid : Nat) (f : PeerNode → PeerNode) :
    NoBanFlag (p.modifyNode nodeid f) := by
  unfold PeerTable.modifyNode
  split <;> exact h

theorem NoBanFlag.step (h : NoBanFlag p) {event : PeerEvent} (hstep : p.step banscore event = .ok p') :
    NoBanFlag p' := by
  cases event with
  | initializeNode nodeid node =>
    cases hstep
    intro n s hs
    rcases FinMap.get_emplace.mp hs with hs | ⟨-, -, rfl⟩
    · exact h n s hs
    · rfl
  | successfullyConnected nodeid =>
    cases hstep
    exact h.modifyNode nodeid _
  | misbehaving nodeid howmuch =>
    cases hstep
    exact h.misbehaving nodeid howmuch
  | sendMessages nodeid lockMain stalling nBanUntil =>
    obtain ⟨r, hr, heq⟩ := bind_eq_ok.mp hstep
    cases heq
    exact (h.sendMessages hr).2
  | disconnect nodeid =>
    cases hstep
    exact h.modifyNode nodeid _
  | finalizeNode nodeid =>
    cases hstep
    exact FinMap.forall_erase h

theorem misbehaving_eq {state : PeerScore} (hstate : p.mapNodeState[nodeid]? = some state) (howmuch : Int) :
    (p.misbehaving banscore nodeid howmuch).1 = p.setState nodeid (state.raise howmuch) := by
  unfold misbehaving
  rw [hstate]
  split_ifs with hzero
  · subst hzero
    dsimp only [setState, PeerScore.raise]
    rw [Int.add_zero, FinMap.insert_self_get hstate]
  · dsimp only
    split <;> rfl

theorem NoBanFlag.run {events : List PeerEvent} (hrun : PeerTable.run banscore events = .ok p) : NoBanFlag p :=
  foldlM_inv (fun _ _ _ _ hp hstep => hp.step hstep) (fun n s hs => by simp at hs) hrun

end PeerTable

open PeerTable

/-! ## Who is cut off -/

/-- A connected peer that banning is meant for. -/
structure PeerNode.Punishable (node : PeerNode) : Prop where
  connected : node.fSuccessfullyConnected = true ∧ node.fDisconnect = false
  whitelisted : node.fWhitelisted = false
  foreign : node.addr.isLocal = false

/-- **Who is cut off.** Along a run, every completed `SendMessages` round for a punishable peer with a score at the
threshold disconnects the peer and bans its address, if and only if no such round takes place. -/
theorem cut_off_iff (banscore : Int) (events : List PeerEvent) :
    (∀ done nodeid stalling nBanUntil rest q node state,
        events = done ++ .sendMessages nodeid true stalling nBanUntil :: rest → PeerTable.run banscore done = .ok q →
        q.vNodes[nodeid]? = some node → q.mapNodeState[nodeid]? = some state → node.Punishable →
        banscore ≤ state.nMisbehavior →
        ∃ q', q.sendMessages nodeid true stalling nBanUntil = .ok (q', some node.addr) ∧
          (q'.vNodes[nodeid]?).any (·.fDisconnect)) ↔
      ∀ done nodeid stalling nBanUntil rest q node state,
        events = done ++ .sendMessages nodeid true stalling nBanUntil :: rest → PeerTable.run banscore done = .ok q →
        q.vNodes[nodeid]? = some node → q.mapNodeState[nodeid]? = some state → node.Punishable →
        state.nMisbehavior < banscore := by
  constructor
  · intro hcut done nodeid stalling nBanUntil rest q node state hevents hdone hnode hstate hpun
    by_contra hscore
    obtain ⟨q', hsend, -⟩ := hcut done nodeid stalling nBanUntil rest q node state hevents hdone hnode hstate hpun
      (not_lt.mp hscore)
    have hnone := ((NoBanFlag.run hdone).sendMessages hsend).1
    cases hnone
  · intro hbelow done nodeid stalling nBanUntil rest q node state hevents hdone hnode hstate hpun hscore
    exact absurd hscore (not_le.mpr (hbelow done nodeid stalling nBanUntil rest q node state hevents hdone hnode hstate
      hpun))

/-- A peer that offends stays connected, and its score grows by what the offence counts. -/
theorem served_after_offence {banscore : Int} {events : List PeerEvent} {p : PeerTable}
    (hrun : PeerTable.run banscore events = .ok p) {nodeid : Nat} {node : PeerNode} {state : PeerScore}
    (hnode : p.vNodes[nodeid]? = some node) (hstate : p.mapNodeState[nodeid]? = some state) (hpun : node.Punishable)
    (howmuch nBanUntil : Int) :
    ∃ p', PeerTable.run banscore (events ++ [.misbehaving nodeid howmuch, .sendMessages nodeid true false nBanUntil]) =
        .ok p' ∧
      p'.vNodes[nodeid]? = some node ∧ p'.mapNodeState[nodeid]? = some (state.raise howmuch) := by
  have hflag := NoBanFlag.run hrun nodeid state hstate
  obtain ⟨hconnected, hstays⟩ := hpun.connected
  let q := p.setState nodeid (state.raise howmuch)
  have hscore : q.mapNodeState[nodeid]? = _ := FinMap.get_insert_self _ _ _
  have hsend : q.sendMessages nodeid true false nBanUntil = .ok (q, none) := by
    unfold PeerTable.sendMessages
    rw [show q.vNodes[nodeid]? = some node from hnode, hscore]
    simp [hconnected, hstays, hflag, finishRound, PeerScore.raise]
  refine ⟨q, ?_, hnode, hscore⟩
  rw [PeerTable.run, List.foldlM_append, show events.foldlM (PeerTable.step banscore) {} = .ok p from hrun, ok_bind,
    List.foldlM_cons]
  dsimp only [PeerTable.step]
  rw [misbehaving_eq hstate, ok_bind, List.foldlM_cons]
  dsimp only [PeerTable.step]
  rw [hsend]
  rfl

/-- A peer that makes itself known, earns `howmuch` and is served once more. -/
def Sample.offence (howmuch : Int) : List PeerEvent :=
  [.initializeNode 7 { addr := ⟨0xffff08080808, 0⟩ }, .successfullyConnected 7, .misbehaving 7 howmuch,
    .sendMessages 7 true false 1]

/-- A peer reaches the default threshold and is neither disconnected nor banned. -/
theorem misbehaving_peer_served : ∃ q node state,
    PeerTable.run 100 ((Sample.offence 100).take 3) = .ok q ∧ q.vNodes[7]? = some node ∧
      q.mapNodeState[7]? = some state ∧ node.Punishable ∧ 100 ≤ state.nMisbehavior ∧
      ∃ q', q.sendMessages 7 true false 1 = .ok (q', none) ∧ q'.vNodes[7]? = some node := by
  have hout : Returns (PeerTable.run 100 ((Sample.offence 100).take 3))
      (fun q => q.vNodes[7]? = some { addr := ⟨0xffff08080808, 0⟩, fSuccessfullyConnected := true } ∧
        q.mapNodeState[7]? = some { nMisbehavior := 100 } ∧
        Returns (q.sendMessages 7 true false 1) (fun r => r.2 = none ∧
          r.1.vNodes[7]? = some { addr := ⟨0xffff08080808, 0⟩, fSuccessfullyConnected := true })) := by
    decide +kernel
  obtain ⟨q, hrun, hnode, hstate, hround⟩ := hout.exists_ok
  obtain ⟨⟨q', banned⟩, hsend, hnone, hkept⟩ := hround.exists_ok
  cases hnone
  exact ⟨q, _, _, hrun, hnode, hstate, ⟨⟨rfl, rfl⟩, rfl, by decide +kernel⟩, le_refl _, q', hsend, hkept⟩

end TrumpCoin
