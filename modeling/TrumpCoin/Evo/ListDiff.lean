import TrumpCoin.Evo.Snapshot

/-!
# Differences of lists

`CDeterministicPNListDiff`, `BuildDiff` and `ApplyDiff`. A difference lists the nodes that were added, the changed
fields of the nodes that are in both lists, and the ids of the removed nodes; applying it removes, then adds, then
updates. That order is not the order of the transactions that made the new list.

* `CDeterministicPNListDiff.unserialize_serialize`: the format of a difference;
* `buildDiff_spec`: what a difference holds;
* `applyDiff_outcome`: what applying it gives, between two lists of one chain (`Succeeds`).
-/

namespace TrumpCoin

open Lib

abbrev CDeterministicPNStateDiff := Diff CDeterministicPNState 32

namespace CDeterministicPNStateDiff

def ofStates (a b : CDeterministicPNState) : CDeterministicPNStateDiff := stateRecord.diff {} a b

def applyToState (d : CDeterministicPNStateDiff) (target : CDeterministicPNState) : CDeterministicPNState :=
  stateRecord.apply d target

def maskCodec : Codec (BitVec 32) := Codec.bits (varInt 32 (by decide)) 32 fun _ => Iff.rfl

def codec : Codec CDeterministicPNStateDiff := stateRecord.diffCodec {} maskCodec

end CDeterministicPNStateDiff

/-- `nHeight` is kept in memory only. `updatedPNs` and `removedMns` are ordered by the internal id. -/
structure CDeterministicPNListDiff where
  nHeight : Int := -1
  addedPNs : List CDeterministicPN := []
  updatedPNs : FinMap Nat CDeterministicPNStateDiff := ∅
  removedMns : FinMap Nat Unit := ∅

namespace CDeterministicPNListDiff

def hasChanges (d : CDeterministicPNListDiff) : Bool :=
  !d.addedPNs.isEmpty || d.updatedPNs.size != 0 || d.removedMns.size != 0

def idCodec : Codec Nat := varInt 64 varInt_width_64

def wire : Codec (List CDeterministicPN × List (Nat × CDeterministicPNStateDiff) × List Nat) :=
  (vector pnCodec).pair <| (vector (idCodec.pair CDeterministicPNStateDiff.codec)).pair (vector idCodec)

def serialize (d : CDeterministicPNListDiff) : Bytes :=
  wire.write (d.addedPNs, d.updatedPNs.toList, d.removedMns.toList.map Prod.fst)

def unserialize (bs : Bytes) : Result (CDeterministicPNListDiff × Bytes) := do
  let ((added, updated, removed), bs) ← readFrom wire bs
  return ({ addedPNs := added, updatedPNs := FinMap.emplaceAll updated ∅,
            removedMns := FinMap.emplaceAll (removed.map fun id => (id, ())) ∅ }, bs)

structure Fits (d : CDeterministicPNListDiff) : Prop where
  added : ∀ dmn ∈ d.addedPNs, pnCodec.valid dmn
  updated : ∀ e ∈ d.updatedPNs.toList, e.1 < 2 ^ 64 ∧ CDeterministicPNStateDiff.codec.valid e.2
  removed : ∀ e ∈ d.removedMns.toList, e.1 < 2 ^ 64

def SizesFit (added updated removed : Nat) : Prop := added ≤ MAX_SIZE ∧ updated ≤ MAX_SIZE ∧ removed ≤ MAX_SIZE

theorem unserialize_serialize {d : CDeterministicPNListDiff} (h : d.Fits) (hadded : d.addedPNs.length < 2 ^ 64)
    (hupdated : d.updatedPNs.size < 2 ^ 64) (hremoved : d.removedMns.size < 2 ^ 64) (rest : Bytes) :
    Outcome (unserialize (d.serialize ++ rest))
      (fun r => r = ({ d with nHeight := -1 }, rest) ∧
        SizesFit d.addedPNs.length d.updatedPNs.size d.removedMns.size)
      (fun _ => ¬SizesFit d.addedPNs.length d.updatedPNs.size d.removedMns.size) := by
  have hvalid : ∀ e ∈ d.updatedPNs.toList, (idCodec.pair CDeterministicPNStateDiff.codec).valid e := h.updated
  have hids : ∀ id ∈ d.removedMns.toList.map Prod.fst, idCodec.valid id := by
    intro id hid
    obtain ⟨e, he, rfl⟩ := List.mem_map.mp hid
    exact h.removed e he
  have fails : wire.read (d.serialize ++ rest) = none →
      unserialize (d.serialize ++ rest) = .error (.exception "CDataStream") := by
    intro hread
    rw [unserialize, readFrom, hread]
    rfl
  have hlenu : d.updatedPNs.toList.length = d.updatedPNs.size := Std.ExtTreeMap.length_toList
  have hlenr : (d.removedMns.toList.map Prod.fst).length = d.removedMns.size := by
    rw [List.length_map, Std.ExtTreeMap.length_toList]
  by_cases ha : d.addedPNs.length ≤ MAX_SIZE
  swap
  · rw [fails (Codec.pair_read_eq_none_left ?_)]
    · exact fun hfit => ha hfit.1
    · show (vector pnCodec).read ((_ ++ _) ++ rest) = none
      rw [List.append_assoc]
      exact vector_read_of_lt (Nat.not_le.mp ha) hadded _
  by_cases hu : d.updatedPNs.size ≤ MAX_SIZE
  swap
  · rw [fails (Codec.pair_read_eq_none_right ⟨ha, h.added⟩ (Codec.pair_read_eq_none_left ?_))]
    · exact fun hfit => hu hfit.2.1
    · show (vector _).read ((_ ++ _) ++ rest) = none
      rw [List.append_assoc]
      exact vector_read_of_lt (hlenu.symm ▸ Nat.not_le.mp hu) (hlenu.symm ▸ hupdated) _
  by_cases hr : d.removedMns.size ≤ MAX_SIZE
  swap
  · rw [fails (Codec.pair_read_eq_none_right ⟨ha, h.added⟩
      (Codec.pair_read_eq_none_right ⟨hlenu.symm ▸ hu, hvalid⟩ ?_))]
    · exact fun hfit => hr hfit.2.2
    · exact vector_read_of_lt (hlenr.symm ▸ Nat.not_le.mp hr) (hlenr.symm ▸ hremoved) _
  · have hunit : (d.removedMns.toList.map Prod.fst).map (fun id => (id, ())) = d.removedMns.toList := by
      rw [List.map_map]
      exact List.map_id _
    have hread := readFrom_write (c := wire)
      (a := (d.addedPNs, d.updatedPNs.toList, d.removedMns.toList.map Prod.fst))
      ⟨⟨ha, h.added⟩, ⟨hlenu.symm ▸ hu, hvalid⟩, ⟨hlenr.symm ▸ hr, hids⟩⟩ rest
    rw [unserialize, serialize, hread, ok_bind]
    refine ⟨?_, ha, hu, hr⟩
    rw [hunit, FinMap.emplaceAll_toList, FinMap.emplaceAll_toList]

end CDeterministicPNListDiff

section Model

variable {D : Type} [Digest D]

/-- The body of the first loop of `BuildDiff`. Equal states have an empty difference, so the comparison of pointers
that comes first in the source is left out. -/
def diffTo (l : CDeterministicPNList D) (diff : CDeterministicPNListDiff) (toPtr : CDeterministicPN) :
    Result CDeterministicPNListDiff :=
  match l.getPN toPtr.proTxHash with
  | none => .ok { diff with addedPNs := diff.addedPNs ++ [toPtr] }
  | some fromPtr =>
    let stateDiff := CDeterministicPNStateDiff.ofStates fromPtr.pdmnState toPtr.pdmnState
    if stateDiff.fields = 0 then .ok diff
    else do
      let id ← toPtr.getInternalId
      return { diff with updatedPNs := diff.updatedPNs.emplace id stateDiff }

/-- The body of the second loop of `BuildDiff`. -/
def diffFrom (target : CDeterministicPNList D) (diff : CDeterministicPNListDiff) (fromPtr : CDeterministicPN) :
    Result CDeterministicPNListDiff :=
  match target.getPN fromPtr.proTxHash with
  | some _ => .ok diff
  | none => do
    let id ← fromPtr.getInternalId
    return { diff with removedMns := diff.removedMns.emplace id () }

def CDeterministicPNList.buildDiff (order : MapOrder) (l target : CDeterministicPNList D) :
    Result CDeterministicPNListDiff := do
  let diff ← (target.forEachPN order false).foldlM (diffTo l) {}
  let diff ← (l.forEachPN order false).foldlM (diffFrom target) diff
  return { diff with addedPNs := diff.addedPNs.mergeSort fun a b => a.internalId ≤ b.internalId }

def removePNById (result : CDeterministicPNList D) (id : Nat) : Result (CDeterministicPNList D) :=
  match result.getPNByInternalId id with
  | none => .error (.exception "ApplyDiff: can't find a removed patriotnode")
  | some dmn => result.removePN dmn.proTxHash

/-- Update the node with an internal id, `UpdatePN(oldDmn, stateDiff)`. -/
def updatePNById (result : CDeterministicPNList D) (e : Nat × CDeterministicPNStateDiff) :
    Result (CDeterministicPNList D) :=
  match result.getPNByInternalId e.1 with
  | none => .error (.assertFailure "UpdatePN: oldDmn != nullptr")
  | some oldDmn => result.updatePN oldDmn (e.2.applyToState oldDmn.pdmnState)

def CDeterministicPNList.applyDiff (l : CDeterministicPNList D) (pindex : CBlockIndex)
    (diff : CDeterministicPNListDiff) : Result (CDeterministicPNList D) := do
  let result := { l with blockHash := pindex.getBlockHash, nHeight := pindex.nHeight }
  let result ← (diff.removedMns.toList.map Prod.fst).foldlM removePNById result
  let result ← diff.addedPNs.foldlM (fun result dmn => result.addPN dmn true) result
  diff.updatedPNs.toList.foldlM updatePNById result

end Model

/-! ## What a difference holds -/

section Spec

variable {D : Type} [Digest D] {l target : CDeterministicPNList D}

def isAdded (l : CDeterministicPNList D) (b : CDeterministicPN) : Bool := (l.getPN b.proTxHash).isNone

def isUpdated (l : CDeterministicPNList D) (b : CDeterministicPN) : Bool :=
  (l.getPN b.proTxHash).any fun a => a.pdmnState ≠ b.pdmnState

def addedNodes (l target : CDeterministicPNList D) : List CDeterministicPN := target.mnMap.vals.filter (isAdded l)

def updatedNodes (l target : CDeterministicPNList D) : List CDeterministicPN :=
  target.mnMap.vals.filter (isUpdated l)

abbrev removedNodes (l target : CDeterministicPNList D) : List CDeterministicPN := addedNodes target l

def updateEntry (l : CDeterministicPNList D) (b : CDeterministicPN) : Nat × CDeterministicPNStateDiff :=
  (b.internalId, .ofStates (((l.getPN b.proTxHash).map CDeterministicPN.pdmnState).getD {}) b.pdmnState)

/-- The difference `d` describes how to get from `l` to `target`. -/
structure IsDiff (l target : CDeterministicPNList D) (d : CDeterministicPNListDiff) : Prop where
  nHeight : d.nHeight = -1
  added : d.addedPNs.Perm (addedNodes l target)
  updated : d.updatedPNs.toList.Perm ((updatedNodes l target).map (updateEntry l))
  removed : (d.removedMns.toList.map Prod.fst).Perm ((removedNodes l target).map CDeterministicPN.internalId)

theorem getInternalId_eq {dmn : CDeterministicPN} (h : dmn.internalId ≠ 2 ^ 64 - 1) :
    dmn.getInternalId = .ok dmn.internalId := by
  rw [CDeterministicPN.getInternalId, Lib.require, if_pos h]
  rfl

variable {diff : CDeterministicPNListDiff}

theorem diffTo_eq {b : CDeterministicPN} (h : b.internalId ≠ 2 ^ 64 - 1) :
    diffTo l diff b = .ok { diff with
      addedPNs := if isAdded l b then diff.addedPNs ++ [b] else diff.addedPNs
      updatedPNs := if isUpdated l b then diff.updatedPNs.emplace (updateEntry l b).1 (updateEntry l b).2
        else diff.updatedPNs } := by
  unfold diffTo isAdded isUpdated updateEntry
  cases l.getPN b.proTxHash with
  | none => rfl
  | some a =>
    simp only [CDeterministicPNStateDiff.ofStates, Record.diff_fields_eq_zero, getInternalId_eq h, ok_bind]
    by_cases hs : a.pdmnState = b.pdmnState
    · simp [hs]
    · simp [hs]
      rfl

theorem diffFrom_eq {a : CDeterministicPN} (h : a.internalId ≠ 2 ^ 64 - 1) :
    diffFrom target diff a = .ok { diff with
      removedMns := if isAdded target a then diff.removedMns.emplace a.internalId () else diff.removedMns } := by
  unfold diffFrom isAdded
  cases target.getPN a.proTxHash with
  | none => rw [getInternalId_eq h]; rfl
  | some b => rfl

theorem foldlM_diffTo : ∀ {ds : List CDeterministicPN} {diff : CDeterministicPNListDiff},
    (∀ b ∈ ds, b.internalId ≠ 2 ^ 64 - 1) →
    ds.foldlM (diffTo l) diff = .ok { diff with
      addedPNs := diff.addedPNs ++ ds.filter (isAdded l)
      updatedPNs := FinMap.emplaceAll ((ds.filter (isUpdated l)).map (updateEntry l)) diff.updatedPNs }
  | [], diff, _ => by rw [List.filter_nil, List.append_nil]; rfl
  | b :: ds, diff, h => by
    rw [List.foldlM_cons, diffTo_eq (h b List.mem_cons_self), ok_bind,
      foldlM_diffTo fun d hd => h d (List.mem_cons_of_mem b hd)]
    rw [List.filter_cons, List.filter_cons]
    congr 2
    · cases isAdded l b <;> simp
    · cases isUpdated l b <;> rfl

theorem foldlM_diffFrom : ∀ {ds : List CDeterministicPN} {diff : CDeterministicPNListDiff},
    (∀ a ∈ ds, a.internalId ≠ 2 ^ 64 - 1) →
    ds.foldlM (diffFrom target) diff = .ok { diff with
      removedMns := FinMap.emplaceAll ((ds.filter (isAdded target)).map fun a => (a.internalId, ()))
        diff.removedMns }
  | [], diff, _ => rfl
  | a :: ds, diff, h => by
    rw [List.foldlM_cons, diffFrom_eq (h a List.mem_cons_self), ok_bind,
      foldlM_diffFrom fun d hd => h d (List.mem_cons_of_mem a hd), List.filter_cons]
    congr 2
    cases isAdded target a <;> rfl

theorem forEachPN_all (order : MapOrder) : (l.forEachPN order false).Perm l.mnMap.vals := by
  simpa [CDeterministicPNList.forEachPN] using order.perm l.mnMap

theorem RepInv.id_ne (hl : RepInv l) {order : MapOrder} : ∀ d ∈ l.forEachPN order false, d.internalId ≠ 2 ^ 64 - 1 := by
  intro d hd
  obtain ⟨⟨h, hm⟩, -⟩ := mem_forEachPN.mp hd
  exact (hl.node h d hm).id_ne

theorem RepInv.nodup_filter_ids (hl : RepInv l) (order : MapOrder) (p : CDeterministicPN → Bool) :
    (((l.forEachPN order false).filter p).map CDeterministicPN.internalId).Nodup :=
  ((((forEachPN_all order).filter p).map _).nodup_iff).mpr
    (hl.nodup_ids.sublist (List.filter_sublist.map CDeterministicPN.internalId))

/-- **`BuildDiff`** returns a difference that describes how to get from `l` to `target`. -/
theorem buildDiff_spec (order : MapOrder) (hl : RepInv l) (ht : RepInv target) :
    ∃ d, l.buildDiff order target = .ok d ∧ IsDiff l target d := by
  unfold CDeterministicPNList.buildDiff
  rw [foldlM_diffTo ht.id_ne, ok_bind, foldlM_diffFrom hl.id_ne, ok_bind]
  refine ⟨_, rfl, rfl, ?_, ?_, ?_⟩
  · refine (List.mergeSort_perm _ _).trans ?_
    rw [List.nil_append]
    exact (forEachPN_all order).filter _
  · refine (FinMap.toList_emplaceAll ?_).trans (((forEachPN_all order).filter _).map _)
    rw [List.map_map]
    exact ht.nodup_filter_ids order _
  · refine ((FinMap.toList_emplaceAll ?_).map _).trans ?_
    · rw [List.map_map]
      exact hl.nodup_filter_ids order _
    · rw [List.map_map]
      exact ((forEachPN_all order).filter _).map _

end Spec

/-! ## Applying a difference -/

section Apply

variable {D : Type} [Digest D] {l target t : CDeterministicPNList D}

/-- `target` may follow `l` on a chain: nodes that are in both keep everything but their state, and what a node of
`target` newly holds was not held by another node of `l` that is still there. -/
structure Succeeds (l target : CDeterministicPNList D) : Prop where
  rep : RepInv l
  rep_target : RepInv target
  node : ∀ (h : uint256) a b, l.mnMap[h]? = some a → target.mnMap[h]? = some b →
    b = { a with pdmnState := b.pdmnState } ∧ b.pdmnState.keyIDOwner = a.pdmnState.keyIDOwner
  addr : ∀ (h : uint256) a b, l.mnMap[h]? = some a → target.mnMap[h]? = some b →
    a.pdmnState.addr ≠ b.pdmnState.addr →
    ¬HeldByOther (MnMap.holdings D l.mnMap) h (.service b.pdmnState.addr)
  operator : ∀ (h : uint256) a b, l.mnMap[h]? = some a → target.mnMap[h]? = some b →
    a.pdmnState.keyIDOperator ≠ b.pdmnState.keyIDOperator →
    ¬HeldByOther (MnMap.holdings D l.mnMap) h (.keyID b.pdmnState.keyIDOperator)
  fresh_operator : ∀ (h : uint256) b, l.mnMap[h]? = none → target.mnMap[h]? = some b → b.pdmnState.keyIDOperator ≠ 0
  fresh : ∀ (h : uint256) b, l.mnMap[h]? = none → target.mnMap[h]? = some b → ∀ v ∈ b.properties, ¬v.IsNull →
    ∀ (h' : uint256) a, l.mnMap[h']? = some a → v ∈ a.properties → target.mnMap[h']? = none

variable {b : CDeterministicPN}

/-- The added nodes are those of `target` that `l` lacks. -/
theorem mem_addedNodes (ht : RepInv target) :
    b ∈ addedNodes l target ↔ target.mnMap[b.proTxHash]? = some b ∧ l.mnMap[b.proTxHash]? = none := by
  rw [addedNodes, List.mem_filter, FinMap.mem_vals, isAdded, Option.isNone_iff_eq_none]
  refine and_congr_left fun _ => ⟨fun ⟨h, hm⟩ => ?_, fun hm => ⟨_, hm⟩⟩
  rw [ht.key h b hm]
  exact hm

/-- The updated nodes are those of both lists whose state differs. -/
theorem mem_updatedNodes (ht : RepInv target) : b ∈ updatedNodes l target ↔
    target.mnMap[b.proTxHash]? = some b ∧
      ∃ a : CDeterministicPN, l.mnMap[b.proTxHash]? = some a ∧ a.pdmnState ≠ b.pdmnState := by
  rw [updatedNodes, List.mem_filter, FinMap.mem_vals, isUpdated, Option.any_eq_true]
  simp only [decide_eq_true_eq]
  refine and_congr_left fun _ => ⟨fun ⟨h, hm⟩ => ?_, fun hm => ⟨_, hm⟩⟩
  rw [ht.key h b hm]
  exact hm

def Kept (l target : CDeterministicPNList D) (h : uint256) (a : CDeterministicPN) : Prop :=
  l.mnMap[h]? = some a ∧ ∃ b : CDeterministicPN, target.mnMap[h]? = some b

theorem removePNById_outcome {id : Nat} (hl : RepInv l) {h : uint256} {dmn : CDeterministicPN}
    (hm : l.mnMap[h]? = some dmn) (hid : dmn.internalId = id) :
    Outcome (removePNById l id) (Removed (fun d => d.internalId = id) l)
      (fun _ => SelectsRevoked (fun d => d.internalId = id) l) := by
  have hget := hl.getPNByInternalId hm
  rw [hid] at hget
  unfold removePNById
  rw [hget]
  have hkey := hl.key h dmn hm
  exact removePN_removed hl (hkey.symm ▸ hm) hid fun a d hd hd' => hkey.trans (hl.id_injective hm hd (hid.trans hd'.symm))

/-- The removal loop of `ApplyDiff` removes exactly the nodes the diff names. -/
theorem removeLoop_diff (hl : RepInv l) {ids : List Nat}
    (hids : ids.Perm ((removedNodes l target).map CDeterministicPN.internalId)) :
    Outcome (ids.foldlM removePNById l) (Removed (fun d => d.internalId ∈ ids) l)
      (fun _ => SelectsRevoked (fun d => d.internalId ∈ ids) l) := by
  refine removeLoop_outcome CDeterministicPN.internalId hl fun pre id post t hsplit ht => ?_
  have hmem : id ∈ (removedNodes l target).map CDeterministicPN.internalId :=
    hids.mem_iff.mp (by rw [hsplit]; simp)
  obtain ⟨a, ha, rfl⟩ := List.mem_map.mp hmem
  have hget := ((mem_addedNodes hl).mp ha).1
  have hnodup : ids.Nodup := hids.nodup_iff.mpr (hl.nodup_ids.sublist (List.filter_sublist.map _))
  have hpre : a.internalId ∉ pre := by
    rw [hsplit, List.nodup_append] at hnodup
    exact fun hin => hnodup.2.2 _ hin _ List.mem_cons_self rfl
  exact removePNById_outcome ht.rep ((ht.nodes _ a).mpr ⟨hget, hpre⟩) rfl

theorem Removed.kept (hl : RepInv l) {ids : List Nat}
    (hids : ids.Perm ((removedNodes l target).map CDeterministicPN.internalId))
    (h : Removed (fun d => d.internalId ∈ ids) l t) (a : uint256) (dmn : CDeterministicPN) :
    t.mnMap[a]? = some dmn ↔ Kept l target a dmn := by
  rw [h.nodes, Kept]
  refine and_congr_right fun hm => ?_
  rw [hids.mem_iff, List.mem_map, ← Option.ne_none_iff_exists', ne_eq, not_iff_not]
  constructor
  · rintro ⟨d, hd, hid⟩
    obtain ⟨hget, hnone⟩ := (mem_addedNodes hl).mp hd
    rwa [hl.id_injective hget hm hid] at hnone
  · intro hnone
    have hkey := hl.key a dmn hm
    exact ⟨dmn, (mem_addedNodes hl).mpr ⟨hkey.symm ▸ hm, hkey.symm ▸ hnone⟩, rfl⟩

/-- Every node of `t` is one that stays, in its old state, or a node of `target`. -/
def Mixed (l target t : CDeterministicPNList D) : Prop :=
  ∀ (h : uint256) dmn, t.mnMap[h]? = some dmn → Kept l target h dmn ∨ target.mnMap[h]? = some dmn

variable (hinj : CollisionFree D)
include hinj

theorem Succeeds.addable (hs : Succeeds l target)
    (ht : RepInv t) (hmixed : Mixed l target t) {d : CDeterministicPN} (hd : d ∈ addedNodes l target)
    (hfree : t.mnMap[d.proTxHash]? = none) : Addable t d := by
  obtain ⟨hget, hnone⟩ := (mem_addedNodes hs.rep_target).mp hd
  refine ⟨hfree, ?_, hs.rep_target.node _ d hget, hs.fresh_operator _ d hnone hget, fun v hv => ?_⟩
  · rw [Option.eq_none_iff_forall_ne_some]
    intro a ha
    obtain ⟨d', hd', hid⟩ := (ht.ids _ a).mp ha
    rcases hmixed a d' hd' with ⟨hold, b, hb⟩ | htarget
    · have hidb : b.internalId = d.internalId := by rw [(hs.node a d' b hold hb).1]; exact hid
      rw [hs.rep_target.id_injective hb hget hidb, hnone] at hold
      cases hold
    · rw [hs.rep_target.id_injective htarget hget hid, hfree] at hd'
      cases hd'
  · rw [← Bool.not_eq_true, ht.hasUniqueProperty_iff hinj]
    rintro ⟨a, d', hd', hv', hnull⟩
    rcases hmixed a d' hd' with ⟨hold, b, hb⟩ | htarget
    · rw [hs.fresh _ d hnone hget v hv hnull a d' hold hv'] at hb
      cases hb
    · rw [hs.rep_target.property_owner hinj htarget hget hv' hv hnull, hfree] at hd'
      cases hd'

/-- The addition loop does not fail: each node of the diff can still be added. -/
theorem addLoop_diff (hs : Succeeds l target) :
    ∀ {ds : List CDeterministicPN} {t : CDeterministicPNList D}, RepInv t → Mixed l target t →
      (∀ d ∈ ds, d ∈ addedNodes l target ∧ t.mnMap[d.proTxHash]? = none) →
      (ds.map CDeterministicPN.proTxHash).Nodup →
      Returns (ds.foldlM (fun result dmn => result.addPN dmn true) t) (fun r => Readded true t r ds)
  | [], t, ht, _, _, _ => .nil ht
  | d :: ds, t, ht, hmixed, hds, hnodup => by
    obtain ⟨hd, hfree⟩ := hds d List.mem_cons_self
    rw [List.map_cons, List.nodup_cons] at hnodup
    have hadd := hs.addable hinj ht hmixed hd hfree
    rw [List.foldlM_cons]
    refine ((addPN_outcome ht).mono (fun _ h => h) fun _ hnot => hnot hadd).bind fun t' _ ⟨_, hb⟩ => ?_
    refine (addLoop_diff hs hb.rep ?_ (fun d' hd' => ?_) hnodup.2).mono
      (fun r hr => hr.cons hadd.operator_ne hfree hb) fun _ h => h
    · rw [Mixed, hb.mnMap]
      exact FinMap.forall_insert hmixed (.inr ((mem_addedNodes hs.rep_target).mp hd).1)
    · obtain ⟨hadded, hfree'⟩ := hds d' (List.mem_cons_of_mem d hd')
      have hne : d.proTxHash ≠ d'.proTxHash := fun he => hnodup.1 (he ▸ List.mem_map_of_mem hd')
      refine ⟨hadded, ?_⟩
      rw [hb.mnMap, FinMap.get_insert_ne _ _ hne]
      exact hfree'

/-- What holds of the list while the third loop runs, after the entries of the nodes `pre`: those nodes have their
new state, all others are as they were in `t`. -/
structure Updating (t : CDeterministicPNList D) (pre : List CDeterministicPN) (r : CDeterministicPNList D) : Prop where
  rep : RepInv r
  blockHash : r.blockHash = t.blockHash
  nHeight : r.nHeight = t.nHeight
  count : r.nTotalRegisteredCount = t.nTotalRegisteredCount
  done : ∀ b ∈ pre, r.mnMap[b.proTxHash]? = some b
  rest : ∀ h : uint256, (∀ b ∈ pre, b.proTxHash ≠ h) → r.mnMap[h]? = t.mnMap[h]?

theorem Succeeds.not_blocked (hs : Succeeds l target)
    (ht : RepInv t) (hmixed : Mixed l target t) {a b : CDeterministicPN} (hold : l.mnMap[a.proTxHash]? = some a)
    (hnew : target.mnMap[a.proTxHash]? = some b) (hm : t.mnMap[a.proTxHash]? = some a) :
    ¬Blocked t a b.pdmnState := by
  -- a value that `b` holds is held in `t` by another node only if an old node holds it
  have hother : ∀ v ∈ b.properties, ¬HeldByOther (MnMap.holdings D l.mnMap) a.proTxHash v →
      ¬HeldByOther (MnMap.holdings D t.mnMap) a.proTxHash v := by
    intro v hv hfree hheld
    obtain ⟨o, d, hne, hd, hv', hnull⟩ := (heldByOther_iff hinj).mp hheld
    rcases hmixed o d hd with ⟨hold', -⟩ | htarget
    · exact hfree ((heldByOther_iff hinj).mpr ⟨o, d, hne, hold', hv', hnull⟩)
    · exact hne (hs.rep_target.property_owner hinj htarget hnew hv' hv hnull)
  refine TrumpCoin.not_blocked hinj ht hm (hs.node _ a b hold hnew).2 (fun hne => ?_) fun hne => ?_
  · exact hother _ (service_mem_properties.mpr rfl) (hs.addr _ a b hold hnew hne)
  · exact hother _ (keyID_mem_properties.mpr (.inr rfl)) (hs.operator _ a b hold hnew hne)

omit hinj

variable {pre : List CDeterministicPN} {r : CDeterministicPNList D}

theorem Updating.mixed (hr : Updating t pre r)
    (hmixed : Mixed l target t) (hpre : ∀ d ∈ pre, target.mnMap[d.proTxHash]? = some d) : Mixed l target r := by
  intro h dmn hm
  by_cases hdone : ∃ d ∈ pre, d.proTxHash = h
  · obtain ⟨d, hd, rfl⟩ := hdone
    rw [hr.done d hd] at hm
    exact .inr (hm ▸ hpre d hd)
  · refine hmixed h dmn ?_
    rw [← hr.rest h fun d hd he => hdone ⟨d, hd, he⟩]
    exact hm

theorem Updating.step {r' : CDeterministicPNList D} (hr : Updating t pre r)
    (hpre : ∀ d ∈ pre, d.proTxHash ≠ b.proTxHash)
    (hb : Becomes r r' (r.mnMap.insert b.proTxHash b) r.nTotalRegisteredCount) : Updating t (pre ++ [b]) r' := by
  refine ⟨hb.rep, hb.blockHash.trans hr.blockHash, hb.nHeight.trans hr.nHeight, hb.count.trans hr.count,
    fun d hd => ?_, fun h hne => ?_⟩
  · rw [hb.mnMap]
    rcases List.mem_append.mp hd with hd | hd
    · rw [FinMap.get_insert_ne _ _ (hpre d hd).symm]
      exact hr.done d hd
    · rw [List.mem_singleton.mp hd, FinMap.get_insert_self]
  · rw [hb.mnMap, FinMap.get_insert_ne _ _ (hne b (by simp))]
    exact hr.rest h fun d hd => hne d (by simp [hd])

/-- The update loop does not fail and sets each state of the diff. -/
theorem updateLoop_diff (hinj : CollisionFree D) (hs : Succeeds l target)
    (ht : RepInv t) (hmixed : Mixed l target t) {bs : List CDeterministicPN}
    (hnodup : (bs.map CDeterministicPN.proTxHash).Nodup)
    (hbs : ∀ b ∈ bs, target.mnMap[b.proTxHash]? = some b ∧
      ∃ a : CDeterministicPN, l.mnMap[b.proTxHash]? = some a ∧ t.mnMap[b.proTxHash]? = some a) :
    Returns ((bs.map (updateEntry l)).foldlM updatePNById t) (Updating t bs) := by
  rw [List.foldlM_map]
  refine Outcome.foldlM (I := Updating t) ?_ ⟨ht, rfl, rfl, rfl, nofun, fun _ _ => rfl⟩
  intro pre b post r hsplit hr
  obtain ⟨hnew, a, hold, hta⟩ := hbs b (by rw [hsplit]; simp)
  have hkey := hs.rep.key _ a hold
  have hpre : ∀ d ∈ pre, d.proTxHash ≠ b.proTxHash := by
    intro d hd he
    rw [hsplit, List.map_append, List.nodup_append] at hnodup
    exact hnodup.2.2 _ (List.mem_map_of_mem hd) _ (by simp) he
  have hra : r.mnMap[b.proTxHash]? = some a := (hr.rest _ hpre).trans hta
  have hnode := (hs.node _ a b hold hnew).1
  have hmixed' : Mixed l target r := hr.mixed hmixed fun d hd => (hbs d (by rw [hsplit]; simp [hd])).1
  have hget : r.getPNByInternalId b.internalId = some a := by
    rw [hnode]
    exact hr.rep.getPNByInternalId hra
  have hstate : (updateEntry l b).2.applyToState a.pdmnState = b.pdmnState := by
    rw [updateEntry, show l.getPN b.proTxHash = some a from hold]
    exact Record.apply_diff
  unfold updatePNById
  rw [show (updateEntry l b).1 = b.internalId from rfl, hget]
  dsimp only
  rw [hstate]
  rw [← hkey] at hra hold hnew
  refine (updatePN_outcome hr.rep hra ?_).mono (fun r' hb => ?_) fun _ hblocked =>
    hs.not_blocked hinj hr.rep hmixed' hold hnew hra hblocked
  · rw [(hs.node _ a b hold hnew).2]
    exact (hs.rep.node _ a hold).owner_ne
  · rw [← hnode, hkey] at hb
    exact hr.step hpre hb

variable {d : CDeterministicPNListDiff}

theorem IsDiff.updated_eq (hd : IsDiff l target d) :
    ∃ bs : List CDeterministicPN, d.updatedPNs.toList = bs.map (updateEntry l) ∧ bs.Perm (updatedNodes l target) := by
  have h : Relation.Comp (· = List.map (updateEntry l) ·) List.Perm d.updatedPNs.toList (updatedNodes l target) := by
    rw [List.eq_map_comp_perm]
    exact hd.updated
  exact h

theorem nodup_filter_proTxHash (ht : RepInv target) {ds : List CDeterministicPN} {p : CDeterministicPN → Bool}
    (hds : ds.Perm (target.mnMap.vals.filter p)) : (ds.map CDeterministicPN.proTxHash).Nodup := by
  refine nodup_proTxHash ht (hds.nodup_iff.mpr ((FinMap.nodup_vals ht.key).filter _)) fun d hd => ?_
  exact FinMap.mem_vals.mp (List.mem_filter.mp (hds.mem_iff.mp hd)).1

/-- After the three loops the map is that of `target`. -/
theorem Updating.get_eq (hs : Succeeds l target) {t₁ t₂ : CDeterministicPNList D} {ds bs : List CDeterministicPN}
    (hkept : ∀ (h : uint256) dmn, t₁.mnMap[h]? = some dmn ↔ Kept l target h dmn)
    (hds : ds.Perm (addedNodes l target)) (hadd : Readded true t₁ t₂ ds)
    (hbs : bs.Perm (updatedNodes l target)) (hr : Updating t₂ bs r) (h : uint256) (dmn : CDeterministicPN) :
    r.mnMap[h]? = some dmn ↔ target.mnMap[h]? = some dmn := by
  -- a node that is not updated is in `t₂` as it is in `target`
  have hsame : (∀ b ∈ bs, b.proTxHash ≠ h) → (t₂.mnMap[h]? = some dmn ↔ target.mnMap[h]? = some dmn) := by
    intro hnot
    have hstate : ∀ a b, l.mnMap[h]? = some a → target.mnMap[h]? = some b → a = b := by
      intro a b ha hb
      have hkey := hs.rep_target.key h b hb
      have heq : a.pdmnState = b.pdmnState := by
        by_contra hne
        refine hnot b (hbs.mem_iff.mpr ((mem_updatedNodes hs.rep_target).mpr ⟨?_, a, ?_, hne⟩)) hkey
        · rw [hkey]; exact hb
        · rw [hkey]; exact ha
      rw [(hs.node h a b ha hb).1, ← heq]
    rw [hadd.nodes, hkept]
    constructor
    · rintro (⟨ha, b, hb⟩ | ⟨hmem, hkey⟩)
      · rw [hstate dmn b ha hb]
        exact hb
      · rw [← hkey]
        exact ((mem_addedNodes hs.rep_target).mp (hds.mem_iff.mp hmem)).1
    · intro hb
      have hkey := hs.rep_target.key h dmn hb
      cases ha : l.mnMap[h]? with
      | none => exact .inr ⟨hds.mem_iff.mpr ((mem_addedNodes hs.rep_target).mpr ⟨hkey.symm ▸ hb, hkey.symm ▸ ha⟩), hkey⟩
      | some a => exact .inl ⟨hstate a dmn ha hb ▸ ha, dmn, hb⟩
  by_cases hdone : ∃ b ∈ bs, b.proTxHash = h
  · obtain ⟨b, hb, rfl⟩ := hdone
    rw [hr.done b hb, ((mem_updatedNodes hs.rep_target).mp (hbs.mem_iff.mp hb)).1]
  · have hnot : ∀ b ∈ bs, b.proTxHash ≠ h := fun b hb he => hdone ⟨b, hb, he⟩
    rw [hr.rest h hnot]
    exact hsame hnot

/-- **`ApplyDiff`** leads from `l` to the nodes of `target`, unless a node that it removes has no operator key. -/
theorem applyDiff_outcome (hinj : CollisionFree D) (hs : Succeeds l target) (hd : IsDiff l target d) (pindex : CBlockIndex) :
    Outcome (l.applyDiff pindex d)
      (fun r => r = { target with
          blockHash := pindex.getBlockHash, nHeight := pindex.nHeight
          nTotalRegisteredCount := countAfter true l.nTotalRegisteredCount d.addedPNs } ∧
        ∀ a ∈ removedNodes l target, a.pdmnState.keyIDOperator ≠ 0)
      (fun _ => ∃ a ∈ removedNodes l target, a.pdmnState.keyIDOperator = 0) := by
  have hs' : Succeeds { l with blockHash := pindex.getBlockHash, nHeight := pindex.nHeight } target :=
    { hs with rep := ⟨hs.rep.key, hs.rep.node, hs.rep.ids, hs.rep.props⟩ }
  obtain ⟨bs, hbs, hperm⟩ := hd.updated_eq
  have hremoved : ∀ a : CDeterministicPN, a.internalId ∈ d.removedMns.toList.map Prod.fst →
      (∃ h : uint256, l.mnMap[h]? = some a) → a ∈ removedNodes l target := by
    rintro a hid ⟨h, hm⟩
    obtain ⟨a', ha', hid'⟩ := List.mem_map.mp (hd.removed.mem_iff.mp hid)
    have hget := ((mem_addedNodes hs.rep).mp ha').1
    rw [hs.rep.id_injective hget hm hid', hm] at hget
    exact Option.some.inj hget ▸ ha'
  unfold CDeterministicPNList.applyDiff
  rw [hbs]
  refine ((removeLoop_diff hs'.rep hd.removed).mono (fun _ h => h) ?_).bind fun t₁ _ hrem => ?_
  · rintro _ ⟨h, a, hm, hid, h0⟩
    exact ⟨a, hremoved a hid ⟨h, hm⟩, h0⟩
  have hkept := hrem.kept hs'.rep hd.removed
  refine ((addLoop_diff hinj hs' hrem.rep (fun h dmn hm => .inl ((hkept h dmn).mp hm)) (fun b hb => ?_)
    (nodup_filter_proTxHash hs.rep_target hd.added)).mono (fun _ h => h) fun _ h => h.elim).bind fun t₂ _ hadd => ?_
  · have hb' := hd.added.mem_iff.mp hb
    refine ⟨hb', ?_⟩
    rw [Option.eq_none_iff_forall_ne_some]
    intro a ha
    have hold := ((hkept _ a).mp ha).1
    rw [((mem_addedNodes hs.rep_target).mp hb').2] at hold
    cases hold
  refine (updateLoop_diff hinj hs' hadd.rep (fun h dmn hm => ?_) (nodup_filter_proTxHash hs.rep_target hperm)
    fun b hb => ?_).mono (fun r hr => ⟨?_, ?_⟩) fun _ h => h.elim
  · rcases (hadd.nodes h dmn).mp hm with hold | ⟨hin, rfl⟩
    · exact .inl ((hkept h dmn).mp hold)
    · exact .inr ((mem_addedNodes hs.rep_target).mp (hd.added.mem_iff.mp hin)).1
  · obtain ⟨hnew, a, hold, -⟩ := (mem_updatedNodes hs.rep_target).mp (hperm.mem_iff.mp hb)
    exact ⟨hnew, a, hold, (hadd.nodes _ a).mpr (.inl ((hkept _ a).mpr ⟨hold, b, hnew⟩))⟩
  · refine hr.rep.ext ⟨hs.rep_target.key, hs.rep_target.node, hs.rep_target.ids, hs.rep_target.props⟩
      (FinMap.ext_get fun h => Option.ext fun dmn => hr.get_eq hs' hkept hd.added hadd hperm h dmn) ?_ ?_ ?_
    · rw [hr.count, hadd.count, hrem.count]
    · rw [hr.blockHash, hadd.blockHash, hrem.blockHash]
    · rw [hr.nHeight, hadd.nHeight, hrem.nHeight]
  · intro a ha
    refine hrem.operator_ne _ a ((mem_addedNodes hs.rep).mp ha).1 ?_
    exact hd.removed.mem_iff.mpr (List.mem_map_of_mem ha)

end Apply

end TrumpCoin
