import Mathlib.Data.List.Induction
import TrumpCoin.Net.BlockDownload

/-!
# The books of block download

`mapBlocksInFlight` and `nQueuedValidatedHeaders` of `net_processing.cpp` against the queues of the peers, over all
sequences of `InitializeNode`, `MarkBlockAsInFlight`, `MarkBlockAsReceived` and `FinalizeNode`. The map is always the
index of the queues (`QueuesIndexed`). The counter is adjusted by every call but `FinalizeNode`, which drops the queue
of a peer without subtracting its entries:

* `DownloadBooks.step_iff`, `download_books_iff`: the calls and the runs that keep the books exact.
-/

namespace TrumpCoin

open Lib

/-- A call that changes the record of the blocks in flight. -/
inductive DownloadCall where
  | initializeNode (nodeid : Nat) (node : CNode)
  | markBlockAsInFlight (nodeid : Nat) (hash : uint256) (pindex : Option uint256) (nTime : Int)
  | markBlockAsReceived (hash : uint256)
  | finalizeNode (nodeid : Nat)

namespace NodeGlobals

def download (g : NodeGlobals) : DownloadCall → Result NodeGlobals
  | .initializeNode nodeid node => .ok (g.initializeNode nodeid node)
  | .markBlockAsInFlight nodeid hash pindex nTime => g.markBlockAsInFlight nodeid hash pindex nTime
  | .markBlockAsReceived hash => g.markBlockAsReceived hash
  | .finalizeNode nodeid => g.finalizeNode nodeid

def downloads (calls : List DownloadCall) : Result NodeGlobals := calls.foldlM download {}

/-! ## The books -/

/-- `mapBlocksInFlight` is the index of the queues, and every queue has its length on record. -/
structure QueuesIndexed (g : NodeGlobals) : Prop where
  index : ∀ (hash : uint256) (nodeid : Nat), g.mapBlocksInFlight[hash]? = some nodeid ↔
    ∃ state, g.mapNodeState[nodeid]? = some state ∧ hash ∈ state.vBlocksInFlight.map QueuedBlock.hash
  once : ∀ (nodeid : Nat) state, g.mapNodeState[nodeid]? = some state →
    (state.vBlocksInFlight.map QueuedBlock.hash).Nodup
  length : ∀ (nodeid : Nat) state, g.mapNodeState[nodeid]? = some state →
    state.nBlocksInFlight = state.vBlocksInFlight.length

end NodeGlobals

def CNodeState.validated (state : CNodeState) : Int := state.vBlocksInFlight.countP (·.fValidatedHeaders)

namespace NodeGlobals

def validatedInFlight (g : NodeGlobals) : Int := g.mapNodeState.entrySum fun e => e.2.validated

structure DownloadBooks (g : NodeGlobals) : Prop extends QueuesIndexed g where
  counter : g.nQueuedValidatedHeaders = g.validatedInFlight

def surplus (g : NodeGlobals) : Int := g.nQueuedValidatedHeaders - g.validatedInFlight

variable {g g' : NodeGlobals}
variable {hash : uint256} {nodeid : Nat}

theorem state_eq_ok {fault : Fault} {state : CNodeState} :
    g.state nodeid fault = .ok state ↔ g.mapNodeState[nodeid]? = some state := by
  unfold NodeGlobals.state
  split
  · rename_i s hs
    rw [hs, Option.some.injEq, Except.ok.injEq]
  · rename_i hs
    rw [hs]
    exact ⟨fun h => (by cases h), fun h => (by cases h)⟩

theorem QueuesIndexed.owner_unique (h : QueuesIndexed g) {n m : Nat} {s t : CNodeState}
    (hs : g.mapNodeState[n]? = some s) (hsh : hash ∈ s.vBlocksInFlight.map QueuedBlock.hash)
    (ht : g.mapNodeState[m]? = some t) (hth : hash ∈ t.vBlocksInFlight.map QueuedBlock.hash) : n = m := by
  have hn := (h.index hash n).mpr ⟨s, hs, hsh⟩
  rw [(h.index hash m).mpr ⟨t, ht, hth⟩] at hn
  exact (Option.some.inj hn).symm

/-! ## One call -/

theorem map_hash_eraseP (hash : uint256) (l : List QueuedBlock) :
    (l.eraseP (·.hash = hash)).map QueuedBlock.hash = (l.map QueuedBlock.hash).erase hash := by
  rw [List.erase_eq_eraseP', List.eraseP_map]
  rfl

theorem countP_eraseP : ∀ {l : List QueuedBlock}, hash ∈ l.map QueuedBlock.hash →
    ((l.eraseP (·.hash = hash)).countP (·.fValidatedHeaders) : Int) =
      l.countP (·.fValidatedHeaders) - if (l.find? (·.hash = hash)).any (·.fValidatedHeaders) then 1 else 0
  | q :: l, hmem => by
    by_cases hq : q.hash = hash
    · rw [List.eraseP_cons_of_pos (by simpa using hq), List.find?_cons_of_pos (by simpa using hq), List.countP_cons,
        Option.any_some]
      push_cast
      split <;> simp
    · have htail : hash ∈ l.map QueuedBlock.hash := by
        rw [List.map_cons, List.mem_cons] at hmem
        exact hmem.resolve_left fun heq => hq heq.symm
      rw [List.eraseP_cons_of_neg (by simpa using hq), List.find?_cons_of_neg (by simpa using hq), List.countP_cons,
        List.countP_cons]
      push_cast
      rw [countP_eraseP htail]
      omega

variable (h : QueuesIndexed g)
include h

theorem QueuesIndexed.replace {state state' : CNodeState} {index' : FinMap uint256 Nat}
    {counter' : Int} (hstate : g.mapNodeState[nodeid]? = some state)
    (hown : ∀ hash : uint256, index'[hash]? = some nodeid ↔ hash ∈ state'.vBlocksInFlight.map QueuedBlock.hash)
    (hother : ∀ (hash : uint256) n, n ≠ nodeid → (index'[hash]? = some n ↔ g.mapBlocksInFlight[hash]? = some n))
    (hnodup : (state'.vBlocksInFlight.map QueuedBlock.hash).Nodup)
    (hlength : state'.nBlocksInFlight = state'.vBlocksInFlight.length) :
    QueuesIndexed
      { g.setState nodeid state' with nQueuedValidatedHeaders := counter', mapBlocksInFlight := index' } := by
  have hget : ∀ (n : Nat) s, (g.mapNodeState.insert nodeid state')[n]? = some s →
      n = nodeid ∧ s = state' ∨ n ≠ nodeid ∧ g.mapNodeState[n]? = some s := by
    intro n s hs
    by_cases hn : n = nodeid
    · subst hn
      rw [FinMap.get_insert_self] at hs
      exact .inl ⟨rfl, (Option.some.inj hs).symm⟩
    · rw [FinMap.get_insert_ne _ _ (Ne.symm hn)] at hs
      exact .inr ⟨hn, hs⟩
  refine ⟨fun hash n => ?_, fun n s hs => ?_, fun n s hs => ?_⟩
  · by_cases hn : n = nodeid
    · subst hn
      refine (hown hash).trans ⟨fun hmem => ⟨state', FinMap.get_insert_self _ _ _, hmem⟩, ?_⟩
      rintro ⟨s, hs, hmem⟩
      rcases hget n s hs with ⟨-, rfl⟩ | ⟨hne, -⟩
      · exact hmem
      · exact absurd rfl hne
    · refine (hother hash n hn).trans ((h.index hash n).trans ?_)
      dsimp only [setState]
      rw [FinMap.get_insert_ne _ _ (Ne.symm hn)]
  · rcases hget n s hs with ⟨-, rfl⟩ | ⟨-, hs⟩
    · exact hnodup
    · exact h.once n s hs
  · rcases hget n s hs with ⟨-, rfl⟩ | ⟨-, hs⟩
    · exact hlength
    · exact h.length n s hs

theorem QueuesIndexed.markBlockAsReceived (hash : uint256) :
    ∃ g', g.markBlockAsReceived hash = .ok g' ∧ QueuesIndexed g' ∧ g'.mapBlocksInFlight[hash]? = none ∧
      g'.surplus = g.surplus := by
  unfold NodeGlobals.markBlockAsReceived
  cases hflight : g.mapBlocksInFlight[hash]? with
  | none => exact ⟨g, rfl, h, hflight, rfl⟩
  | some owner =>
    obtain ⟨state, hstate, hmem⟩ := (h.index hash owner).mp hflight
    have hnodup := h.once owner state hstate
    dsimp only
    rw [state_eq_ok.mpr hstate, ok_bind]
    refine ⟨_, rfl, h.replace hstate (fun other => ?_) (fun other n hn => ?_) ?_ ?_, FinMap.get_erase_self _ _, ?_⟩
    · rw [map_hash_eraseP, hnodup.mem_erase_iff, FinMap.get_erase]
      split_ifs with heq
      · exact ⟨fun hnone => (by cases hnone), fun hne => absurd heq.symm hne.1⟩
      · rw [h.index other owner]
        refine ⟨?_, fun hin => ⟨state, hstate, hin.2⟩⟩
        rintro ⟨s, hs, hin⟩
        rw [hstate] at hs
        cases hs
        exact ⟨Ne.symm heq, hin⟩
    · rw [FinMap.get_erase]
      split_ifs with heq
      · subst heq
        rw [hflight, Option.some.injEq]
        exact ⟨fun hnone => (by cases hnone), fun heq => absurd heq.symm hn⟩
      · rfl
    · rw [map_hash_eraseP]
      exact hnodup.erase hash
    · dsimp only
      obtain ⟨q, hq, hqhash⟩ := List.mem_map.mp hmem
      have hlen := List.length_eraseP_of_mem (p := fun q : QueuedBlock => q.hash = hash) hq (by simpa using hqhash)
      have hpos := List.length_pos_of_mem hq
      rw [h.length owner state hstate, hlen]
      omega
    · -- the counter and the queue lose the same entry
      dsimp only [surplus, validatedInFlight, setState]
      rw [FinMap.entrySum_insert _ _ hstate]
      dsimp only [CNodeState.validated]
      rw [countP_eraseP hmem]
      omega

theorem QueuesIndexed.markBlockAsInFlight {pindex : Option uint256} {nTime : Int}
    (hmark : g.markBlockAsInFlight nodeid hash pindex nTime = .ok g') :
    QueuesIndexed g' ∧ g'.surplus = g.surplus := by
  obtain ⟨g₁, hreceived, h₁, hnone, hsurplus⟩ := h.markBlockAsReceived hash
  obtain ⟨_, -, hmark⟩ := bind_eq_ok.mp hmark
  rw [hreceived, ok_bind] at hmark
  obtain ⟨state, hstate, hmark⟩ := bind_eq_ok.mp hmark
  rw [state_eq_ok] at hstate
  cases hmark
  have hfresh : hash ∉ state.vBlocksInFlight.map QueuedBlock.hash := fun hmem => by
    rw [(h₁.index hash nodeid).mpr ⟨state, hstate, hmem⟩] at hnone
    cases hnone
  refine ⟨h₁.replace hstate (fun other => ?_) (fun other n hn => ?_) ?_ ?_, ?_⟩
  · rw [List.map_append, List.mem_append, List.map_cons, List.map_nil, List.mem_singleton, FinMap.get_insert]
    split
    · rename_i heq
      exact ⟨fun _ => .inr heq.symm, fun _ => rfl⟩
    · rename_i hne
      rw [h₁.index other nodeid]
      refine ⟨?_, fun hin => ⟨state, hstate, hin.resolve_right fun heq => hne heq.symm⟩⟩
      rintro ⟨s, hs, hin⟩
      rw [hstate] at hs
      cases hs
      exact .inl hin
  · rw [FinMap.get_insert]
    split_ifs with heq
    · subst heq
      rw [hnone, Option.some.injEq]
      exact ⟨fun heq => absurd heq.symm hn, fun h => (by cases h)⟩
    · rfl
  · rw [List.map_append, List.map_cons, List.map_nil]
    exact List.nodup_append.mpr ⟨h₁.once nodeid state hstate, List.nodup_singleton _, fun a ha b hb heq => by
      rw [heq, List.mem_singleton.mp hb] at ha
      exact hfresh ha⟩
  · rw [h₁.length nodeid state hstate, List.length_append]
    rfl
  · rw [← hsurplus]
    dsimp only [surplus, validatedInFlight, setState]
    rw [FinMap.entrySum_insert _ _ hstate]
    dsimp only [CNodeState.validated]
    rw [List.countP_append, List.countP_singleton]
    push_cast
    split <;> omega

theorem QueuesIndexed.initializeNode (nodeid : Nat) (node : CNode) :
    QueuesIndexed (g.initializeNode nodeid node) ∧ (g.initializeNode nodeid node).surplus = g.surplus := by
  dsimp only [NodeGlobals.initializeNode]
  cases hstate : g.mapNodeState[nodeid]? with
  | some state =>
    have hsame : g.mapNodeState.emplace nodeid {} = g.mapNodeState := by
      rw [FinMap.emplace, hstate]
      rfl
    rw [hsame]
    exact ⟨⟨h.index, h.once, h.length⟩, rfl⟩
  | none =>
    have hadd : g.mapNodeState.emplace nodeid {} = g.mapNodeState.insert nodeid {} := by
      rw [FinMap.emplace, hstate]
      rfl
    rw [hadd]
    have hget : ∀ (n : Nat) s, (g.mapNodeState.insert nodeid {})[n]? = some s →
        s = {} ∨ g.mapNodeState[n]? = some s := FinMap.forall_insert (fun _ _ hs => .inr hs) (.inl rfl)
    refine ⟨⟨fun hash n => (h.index hash n).trans ⟨?_, ?_⟩, fun n s hs => ?_, fun n s hs => ?_⟩, ?_⟩
    · rintro ⟨s, hs, hmem⟩
      have hne : nodeid ≠ n := fun heq => by
        rw [← heq, hstate] at hs
        cases hs
      exact ⟨s, (FinMap.get_insert_ne _ _ hne).trans hs, hmem⟩
    · rintro ⟨s, hs, hmem⟩
      rcases hget n s hs with rfl | hs
      · cases hmem
      · exact ⟨s, hs, hmem⟩
    · rcases hget n s hs with rfl | hs
      · exact List.nodup_nil
      · exact h.once n s hs
    · rcases hget n s hs with rfl | hs
      · rfl
      · exact h.length n s hs
    · dsimp only [surplus, validatedInFlight]
      rw [FinMap.entrySum_insert_absent _ _ hstate]
      simp [CNodeState.validated]

/-- `FinalizeNode` takes the queue out of the index but leaves the counter as it was. -/
theorem QueuesIndexed.finalizeNode (hfinal : g.finalizeNode nodeid = .ok g') :
    ∃ state, g.mapNodeState[nodeid]? = some state ∧ QueuesIndexed g' ∧ g'.surplus = g.surplus + state.validated := by
  obtain ⟨state, hstate, hfinal⟩ := bind_eq_ok.mp hfinal
  rw [state_eq_ok] at hstate
  cases hfinal
  have hget : ∀ (n : Nat) s, (g.mapNodeState.erase nodeid)[n]? = some s ↔ n ≠ nodeid ∧ g.mapNodeState[n]? = some s := by
    intro n s
    rw [FinMap.get_erase]
    split_ifs with heq
    · exact ⟨fun hnone => (by cases hnone), fun hs => absurd heq.symm hs.1⟩
    · exact ⟨fun hs => ⟨Ne.symm heq, hs⟩, fun hs => hs.2⟩
  refine ⟨state, hstate, ⟨fun hash n => ?_, fun n s hs => ?_, fun n s hs => ?_⟩, ?_⟩
  · rw [FinMap.get_foldl_erase QueuedBlock.hash]
    split_ifs with hmem
    · refine ⟨fun hnone => (by cases hnone), ?_⟩
      rintro ⟨s, hs, hin⟩
      obtain ⟨hne, hs⟩ := (hget n s).mp hs
      exact absurd (h.owner_unique hs hin hstate hmem) hne
    · refine (h.index hash n).trans ⟨?_, ?_⟩
      · rintro ⟨s, hs, hin⟩
        refine ⟨s, (hget n s).mpr ⟨fun heq => ?_, hs⟩, hin⟩
        rw [heq, hstate] at hs
        cases hs
        exact hmem hin
      · rintro ⟨s, hs, hin⟩
        exact ⟨s, ((hget n s).mp hs).2, hin⟩
  · exact h.once n s ((hget n s).mp hs).2
  · exact h.length n s ((hget n s).mp hs).2
  · dsimp only [surplus, validatedInFlight]
    rw [FinMap.entrySum_erase _ hstate]
    dsimp only
    omega

omit h

/-! ## Every run -/

/-- The call is not `FinalizeNode` of a peer that has an entry with validated headers in flight. -/
def KeepsBooks (g : NodeGlobals) : DownloadCall → Prop
  | .finalizeNode nodeid => ∀ state, g.mapNodeState[nodeid]? = some state →
      ∀ q ∈ state.vBlocksInFlight, q.fValidatedHeaders = false
  | _ => True

theorem QueuesIndexed.step (h : QueuesIndexed g) {call : DownloadCall} (hstep : g.download call = .ok g') :
    QueuesIndexed g' ∧ g.surplus ≤ g'.surplus ∧ (g'.surplus = g.surplus ↔ g.KeepsBooks call) := by
  cases call with
  | initializeNode nodeid node =>
    cases hstep
    obtain ⟨h', hs⟩ := h.initializeNode nodeid node
    exact ⟨h', hs.ge, iff_of_true hs trivial⟩
  | markBlockAsInFlight nodeid hash pindex nTime =>
    obtain ⟨h', hs⟩ := h.markBlockAsInFlight hstep
    exact ⟨h', hs.ge, iff_of_true hs trivial⟩
  | markBlockAsReceived hash =>
    obtain ⟨g₁, hg₁, h', -, hs⟩ := h.markBlockAsReceived hash
    rw [show g.download (.markBlockAsReceived hash) = g.markBlockAsReceived hash from rfl, hg₁] at hstep
    cases hstep
    exact ⟨h', hs.ge, iff_of_true hs trivial⟩
  | finalizeNode nodeid =>
    obtain ⟨state, hstate, h', hs⟩ := h.finalizeNode hstep
    have hnonneg : 0 ≤ state.validated := Int.natCast_nonneg _
    refine ⟨h', by omega, ?_⟩
    have hzero : state.validated = 0 ↔ ∀ q ∈ state.vBlocksInFlight, q.fValidatedHeaders = false := by
      rw [CNodeState.validated, Int.natCast_eq_zero, List.countP_eq_zero]
      simp only [Bool.not_eq_true]
    rw [show g'.surplus = g.surplus ↔ state.validated = 0 by omega, hzero]
    refine ⟨fun hq s hs' => ?_, fun hq => hq state hstate⟩
    rw [hstate] at hs'
    cases hs'
    exact hq

/-- A call keeps the books exact unless it loses the validated headers of a peer that leaves. -/
theorem DownloadBooks.step_iff (h : DownloadBooks g) {call : DownloadCall} (hstep : g.download call = .ok g') :
    DownloadBooks g' ↔ g.KeepsBooks call := by
  obtain ⟨h', -, hiff⟩ := h.toQueuesIndexed.step hstep
  rw [← hiff, show g.surplus = 0 from Int.sub_eq_zero.mpr h.counter]
  exact ⟨fun hb => Int.sub_eq_zero.mpr hb.counter, fun hs => ⟨h', Int.sub_eq_zero.mp hs⟩⟩

theorem downloadBooks_init : DownloadBooks {} where
  index hash n := by simp
  once n s hs := by simp at hs
  length n s hs := by simp at hs
  counter := by simp [validatedInFlight]

theorem downloads_append (calls : List DownloadCall) (call : DownloadCall) :
    downloads (calls ++ [call]) = downloads calls >>= fun g => g.download call := by
  rw [downloads, List.foldlM_append]
  simp [downloads]

theorem DownloadBooks.of_run {calls : List DownloadCall} {g : NodeGlobals} (hrun : downloads calls = .ok g)
    (hkeeps : ∀ done call rest g', calls = done ++ call :: rest → downloads done = .ok g' → g'.KeepsBooks call) :
    DownloadBooks g := by
  -- induction on the calls, the last one first
  induction calls using List.reverseRecOn generalizing g with
  | nil =>
    cases hrun
    exact downloadBooks_init
  | append_singleton calls call ih =>
    rw [downloads_append] at hrun
    obtain ⟨g₁, hg₁, hstep⟩ := bind_eq_ok.mp hrun
    have hbooks := ih hg₁ fun done call' rest g' heq hdone =>
      hkeeps done call' (rest ++ [call]) g' (by rw [heq, List.append_assoc]; rfl) hdone
    exact (hbooks.step_iff hstep).mpr (hkeeps calls call [] g₁ rfl hg₁)

theorem downloads_prefix {done rest : List DownloadCall} (hrun : downloads (done ++ rest) = .ok g) :
    ∃ g', downloads done = .ok g' := by
  rw [downloads, List.foldlM_append] at hrun
  obtain ⟨g', hg', -⟩ := bind_eq_ok.mp hrun
  exact ⟨g', hg'⟩

end NodeGlobals

open NodeGlobals

/-- **The record of the blocks in flight.** At every point of a run `mapBlocksInFlight` is the index of the queues,
every hash is in one queue only, `nBlocksInFlight` is the length of its queue and `nQueuedValidatedHeaders` counts the
entries with validated headers, if and only if no peer left the run with such an entry in its queue. -/
theorem download_books_iff (calls : List DownloadCall) (g : NodeGlobals) (hrun : downloads calls = .ok g) :
    (∀ done rest g', calls = done ++ rest → downloads done = .ok g' →
        DownloadBooks g' ∧ (g'.mapNodeState = ∅ → g'.nQueuedValidatedHeaders = 0)) ↔
      ∀ done call rest g', calls = done ++ call :: rest → downloads done = .ok g' → g'.KeepsBooks call := by
  constructor
  · intro hbooks done call rest g' heq hdone
    have hsplit : calls = (done ++ [call]) ++ rest := by rw [heq, List.append_assoc]; rfl
    obtain ⟨g₁, hg₁⟩ := downloads_prefix (hsplit ▸ hrun)
    have hstep := hg₁
    rw [downloads_append, hdone, ok_bind] at hstep
    exact ((hbooks done (call :: rest) g' heq hdone).1.step_iff hstep).mp (hbooks (done ++ [call]) rest g₁ hsplit hg₁).1
  · intro hkeeps done rest g' heq hdone
    have hbooks : DownloadBooks g' := .of_run hdone fun done' call rest' g₁ heq' hdone' =>
      hkeeps done' call (rest' ++ rest) g₁ (by rw [heq, heq', List.append_assoc]; rfl) hdone'
    refine ⟨hbooks, fun hgone => ?_⟩
    rw [hbooks.counter, validatedInFlight, hgone]
    exact FinMap.entrySum_empty _

/-- A peer is asked for a block whose header is known and for one whose header is not, and delivers the first. -/
def Sample.deliveredCalls : List DownloadCall :=
  [.initializeNode 7 {}, .markBlockAsInFlight 7 2 (some 2) 0, .markBlockAsInFlight 7 3 none 0, .markBlockAsReceived 2,
    .finalizeNode 7]

theorem download_books_iff_delivered : ∃ g, downloads Sample.deliveredCalls = .ok g ∧
    ((∀ done rest g', Sample.deliveredCalls = done ++ rest → downloads done = .ok g' →
        DownloadBooks g' ∧ (g'.mapNodeState = ∅ → g'.nQueuedValidatedHeaders = 0)) ↔
      ∀ done call rest g', Sample.deliveredCalls = done ++ call :: rest → downloads done = .ok g' →
        g'.KeepsBooks call) := by
  have hout : Returns (downloads Sample.deliveredCalls) (fun g => g.nQueuedValidatedHeaders = 0) := by
    decide +kernel
  obtain ⟨g, hrun, -⟩ := hout.exists_ok
  exact ⟨g, hrun, download_books_iff _ g hrun⟩

/-- A peer is asked for a block whose header is known and leaves. -/
def Sample.lostCalls : List DownloadCall := [.initializeNode 7 {}, .markBlockAsInFlight 7 2 (some 2) 0, .finalizeNode 7]

/-- All peers are gone and a block is still counted. -/
theorem validated_headers_leak : ∃ g, downloads Sample.lostCalls = .ok g ∧ g.mapNodeState.isEmpty ∧
    g.nQueuedValidatedHeaders = 1 ∧ ¬DownloadBooks g := by
  have hout : Returns (downloads Sample.lostCalls)
      (fun g => g.mapNodeState.isEmpty ∧ g.nQueuedValidatedHeaders = 1 ∧ g.validatedInFlight = 0) := by
    decide +kernel
  obtain ⟨g, hrun, hempty, hone, hzero⟩ := hout.exists_ok
  refine ⟨g, hrun, hempty, hone, fun hbooks => ?_⟩
  have hcounter := hbooks.counter
  rw [hone, hzero] at hcounter
  cases hcounter

end TrumpCoin
