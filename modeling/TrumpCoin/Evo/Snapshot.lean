import TrumpCoin.Evo.Safety
import TrumpCoin.Lib.Record

/-!
# Stored lists

The disk format of states, nodes and lists (`Serialize` and `Unserialize` of `CDeterministicPNState`,
`CDeterministicPN` and `CDeterministicPNList`). A list is stored as its header and its nodes in the order the map
iterates them; reading adds the nodes back one by one with `AddPN`, which rebuilds the two indexes.
-/

namespace TrumpCoin

open Lib

/-! ## States -/

/-- The fields of a state, in the order of the macro `DPN_STATE_DIFF_ALL_FIELDS` and of `SERIALIZE_METHODS`. -/
def stateFields : List (Field CDeterministicPNState 32) :=
  [⟨Int, 0x0001, int32LE, (·.nRegisteredHeight), fun v s => { s with nRegisteredHeight := v }, fun _ _ => rfl⟩,
   ⟨Int, 0x0002, int32LE, (·.nLastPaidHeight), fun v s => { s with nLastPaidHeight := v }, fun _ _ => rfl⟩,
   ⟨Int, 0x0004, int32LE, (·.nPoSePenalty), fun v s => { s with nPoSePenalty := v }, fun _ _ => rfl⟩,
   ⟨Int, 0x0008, int32LE, (·.nPoSeRevivedHeight), fun v s => { s with nPoSeRevivedHeight := v }, fun _ _ => rfl⟩,
   ⟨Int, 0x0010, int32LE, (·.nPoSeBanHeight), fun v s => { s with nPoSeBanHeight := v }, fun _ _ => rfl⟩,
   ⟨BitVec 16, 0x0020, u16, (·.nRevocationReason), fun v s => { s with nRevocationReason := v }, fun _ _ => rfl⟩,
   ⟨uint256, 0x0040, hash256, (·.confirmedHash), fun v s => { s with confirmedHash := v }, fun _ _ => rfl⟩,
   ⟨uint256, 0x0080, hash256, (·.confirmedHashWithProRegTxHash),
     fun v s => { s with confirmedHashWithProRegTxHash := v }, fun _ _ => rfl⟩,
   ⟨CKeyID, 0x0100, keyID, (·.keyIDOwner), fun v s => { s with keyIDOwner := v }, fun _ _ => rfl⟩,
   ⟨CKeyID, 0x0200, keyID, (·.keyIDOperator), fun v s => { s with keyIDOperator := v }, fun _ _ => rfl⟩,
   ⟨CKeyID, 0x0400, keyID, (·.keyIDVoting), fun v s => { s with keyIDVoting := v }, fun _ _ => rfl⟩,
   ⟨CService, 0x0800, CService.codec, (·.addr), fun v s => { s with addr := v }, fun _ _ => rfl⟩,
   ⟨CScript, 0x1000, byteVector, (·.scriptPayout), fun v s => { s with scriptPayout := v }, fun _ _ => rfl⟩,
   ⟨CScript, 0x2000, byteVector, (·.scriptOperatorPayout), fun v s => { s with scriptOperatorPayout := v },
     fun _ _ => rfl⟩]

def stateRecord : Record CDeterministicPNState 32 where
  fields := stateFields
  independent := by
    simp only [stateFields, List.pairwise_cons, List.mem_cons, forall_eq_or_imp, List.not_mem_nil]
    simp [Field.Independent]
  disjoint := by
    simp only [stateFields, List.pairwise_cons, List.mem_cons, forall_eq_or_imp, List.not_mem_nil]
    simp
  mask_ne := by
    simp [stateFields]
  ext a b h := by
    simp only [stateFields, List.mem_cons, forall_eq_or_imp, List.not_mem_nil] at h
    cases a; cases b
    simp_all

def stateCodec : Codec CDeterministicPNState := stateRecord.codec {}

def pnCodec : Codec CDeterministicPN :=
  (hash256.pair <| (varInt 64 varInt_width_64).pair <| COutPoint.codec.pair <| u16.pair stateCodec).iso
    (fun (h, id, o, r, s) => ⟨id, h, o, r, s⟩)
    (fun dmn => (dmn.proTxHash, dmn.internalId, dmn.collateralOutpoint, dmn.nOperatorReward, dmn.pdmnState))
    (fun _ => rfl) (fun _ => rfl)

/-! ## Lists -/

/-- Read a value from a stream; a stream that does not hold one throws. -/
def readFrom {α : Type} (c : Codec α) (bs : Bytes) : Result (α × Bytes) :=
  match c.read bs with
  | none => .error (.exception "CDataStream")
  | some r => .ok r

section List

variable {D : Type} [Digest D]

/-- `Serialize` of a list whose map is iterated in the given order. -/
def CDeterministicPNList.serialize (order : MapOrder) (l : CDeterministicPNList D) : Bytes :=
  hash256.write l.blockHash ++ int32LE.write l.nHeight ++ (Codec.leNat 4).write l.nTotalRegisteredCount ++
    compactSize.write l.mnMap.size ++ (order.iterate l.mnMap).flatMap pnCodec.write

def unserializePNs : (cnt : Nat) → CDeterministicPNList D → Bytes → Result (CDeterministicPNList D × Bytes)
  | 0, l, bs => .ok (l, bs)
  | cnt + 1, l, bs => do
    let (dmn, bs) ← readFrom pnCodec bs
    let l ← l.addPN dmn false
    unserializePNs cnt l bs

def CDeterministicPNList.unserialize (D : Type) [Digest D] (bs : Bytes) :
    Result (CDeterministicPNList D × Bytes) := do
  let (blockHash, bs) ← readFrom hash256 bs
  let (nHeight, bs) ← readFrom int32LE bs
  let (nTotalRegisteredCount, bs) ← readFrom (Codec.leNat 4) bs
  let (cnt, bs) ← readFrom compactSize bs
  unserializePNs cnt
    { blockHash := blockHash, nHeight := nHeight, nTotalRegisteredCount := nTotalRegisteredCount } bs

/-! ## What reachable lists can hold -/

structure StateBounds (s : CDeterministicPNState) : Prop where
  registered : IsInt s.nRegisteredHeight
  lastPaid : IsInt s.nLastPaidHeight
  penalty : IsInt s.nPoSePenalty
  revived : IsInt s.nPoSeRevivedHeight
  banned : IsInt s.nPoSeBanHeight
  payout : byteVector.valid s.scriptPayout
  operatorPayout : byteVector.valid s.scriptOperatorPayout

/-- The list fits its format, up to the number of its nodes. -/
structure Storable (l : CDeterministicPNList D) : Prop where
  height : IsInt l.nHeight
  count : l.nTotalRegisteredCount < 2 ^ 32
  ids : ∀ (h : uint256) dmn, l.mnMap[h]? = some dmn → dmn.internalId < 2 ^ 32
  states : ∀ (h : uint256) dmn, l.mnMap[h]? = some dmn → StateBounds dmn.pdmnState

theorem StateBounds.valid {s : CDeterministicPNState} (h : StateBounds s) : stateCodec.valid s := by
  show ∀ f ∈ stateFields, f.codec.valid (f.get s)
  simp only [stateFields, List.mem_cons, forall_eq_or_imp, List.not_mem_nil, false_implies, implies_true, and_true]
  exact ⟨h.registered, h.lastPaid, h.penalty, h.revived, h.banned, trivial, trivial, trivial, trivial, trivial, trivial,
    ⟨trivial, trivial⟩, h.payout, h.operatorPayout⟩

variable {l : CDeterministicPNList D} {dmn : CDeterministicPN} {nHeight : Int} {d : CDeterministicPN}

theorem Storable.valid (hl : Storable l) {h : uint256} (hm : l.mnMap[h]? = some dmn) : pnCodec.valid dmn :=
  ⟨trivial, Nat.lt_trans (hl.ids h dmn hm) (by decide), ⟨trivial, trivial⟩, trivial, (hl.states h dmn hm).valid⟩

theorem byteVector_valid_nil : byteVector.valid [] := ⟨Nat.zero_le _, nofun⟩

theorem isInt_zero : IsInt 0 := ⟨by decide, by decide⟩

theorem isInt_neg_one : IsInt (-1) := ⟨by decide, by decide⟩

variable {x : BlockInput D} {st : CDeterministicPNState}

theorem UpdatedBy.bounds {tx : CTransaction} (hst : UpdatedBy nHeight tx dmn st)
    (hheight : IsInt nHeight) (h : StateBounds dmn.pdmnState) :
    StateBounds st := by
  cases hst with
  | service pl _ hpl _ =>
    have hscript := ProUpServPL.script_of_valid (valid_of_getTxPayload hpl)
    unfold serviceState
    dsimp only
    split
    · exact { h with operatorPayout := hscript, penalty := isInt_zero, banned := isInt_neg_one, revived := hheight }
    · exact { h with operatorPayout := hscript }
  | registrar pl _ hpl _ =>
    have hscript := ProUpRegPL.script_of_valid (valid_of_getTxPayload hpl)
    unfold registrarState CDeterministicPNState.banIfNotBanned CDeterministicPNState.resetOperatorFields
    split
    · split
      · exact { h with payout := hscript, operatorPayout := byteVector_valid_nil, banned := hheight }
      · exact { h with payout := hscript, operatorPayout := byteVector_valid_nil }
    · exact { h with payout := hscript }
  | revoked pl _ _ _ =>
    unfold revokedState CDeterministicPNState.banIfNotBanned CDeterministicPNState.resetOperatorFields
    split
    · exact { h with operatorPayout := byteVector_valid_nil, banned := hheight }
    · exact { h with operatorPayout := byteVector_valid_nil }

theorem StateChange.bounds (hst : StateChange x dmn st) (hheight : IsInt x.nHeight)
    (h : StateBounds dmn.pdmnState) : StateBounds st := by
  cases hst with
  | confirmed => exact { h with }
  | decreased _ hpos =>
    have hp := h.penalty
    exact { h with penalty := ⟨by unfold IsInt at hp; dsimp only; omega, by unfold IsInt at hp; dsimp only; omega⟩ }
  | updated _ _ hst => exact hst.bounds hheight h
  | paid => exact { h with lastPaid := hheight }

theorem newPN_bounds {id : Nat} {tx : CTransaction} {pl : ProRegPL} (hheight : IsInt nHeight)
    (hpl : getTxPayload ProRegPL.codec tx = some pl) : StateBounds (newPN nHeight id tx pl).pdmnState where
  registered := hheight
  lastPaid := isInt_zero
  penalty := isInt_zero
  revived := isInt_neg_one
  banned := by
    show IsInt (if pl.addr = CService.null then nHeight else -1)
    split
    · exact hheight
    · exact isInt_neg_one
  payout := (ProRegPL.scripts_of_valid (valid_of_getTxPayload hpl)).1
  operatorPayout := (ProRegPL.scripts_of_valid (valid_of_getTxPayload hpl)).2

theorem BlockSteps.storable {l l' : CDeterministicPNList D} (h : BlockSteps x l l') (hl : RepInv l)
    (hheight : IsInt x.nHeight) (hs : Storable l) : Storable l' := by
  refine h.invariant (I := fun t => Storable t) (fun t t' _ ht hstep => ?_) hl hs
  have hhead := hstep.header.2
  cases hstep with
  | register tx pl htx _ _ hb =>
    refine ⟨hhead ▸ ht.height, by rw [hb.count]; omega, ?_, ?_⟩ <;> rw [hb.mnMap]
    · exact FinMap.forall_insert ht.ids ht.count
    · exact FinMap.forall_insert ht.states (newPN_bounds hheight htx.2.2)
  | update b old st hold hst hb =>
    refine ⟨hhead ▸ ht.height, hb.count ▸ ht.count, ?_, ?_⟩ <;> rw [hb.mnMap]
    · exact FinMap.forall_insert ht.ids (ht.ids b old hold)
    · exact FinMap.forall_insert ht.states (hst.bounds hheight (ht.states b old hold))
  | remove b old _ _ _ hb =>
    refine ⟨hhead ▸ ht.height, hb.count ▸ ht.count, ?_, ?_⟩ <;> rw [hb.mnMap]
    · exact FinMap.forall_erase ht.ids
    · exact FinMap.forall_erase ht.states

theorem Storable.init (blockHash : uint256) (h : IsInt nHeight) {count : Nat} (hcount : count < 2 ^ 32) :
    Storable (⟨blockHash, nHeight, count, ∅, ∅, ∅⟩ : CDeterministicPNList D) where
  height := h
  count := hcount
  ids := FinMap.forall_empty
  states := FinMap.forall_empty

theorem Recount.storable {l l' : CDeterministicPNList D} (h : Recount l l') (hl : Storable l) : Storable l' := by
  rw [h.same]
  exact ⟨hl.height, Nat.lt_of_le_of_lt h.count_le hl.count, hl.ids, hl.states⟩

theorem process_storable {l' : CDeterministicPNList D} (hold : RepInv x.oldList) (hs : Storable x.oldList)
    (hheight : IsInt x.nHeight) (h : x.process = .ok l') : Storable l' := by
  rcases process_cases hold h with ⟨-, rfl⟩ | ⟨-, new, hbuild, hsteps, -, rfl⟩
  · exact Storable.init 0 isInt_neg_one (by decide)
  · have := BlockSteps.storable hsteps hold.start hheight ⟨hheight, hs.count, hs.ids, hs.states⟩
    exact ⟨this.height, this.count, this.ids, this.states⟩

theorem Chain.storable {p : CChainParams} {c : Crypto} {blocks : List CBlock} {pindex : CBlockIndex}
    (hc : Chain p c blocks pindex l) : Storable l := by
  induction hc with
  | genesis => exact Storable.init 0 isInt_neg_one (by decide)
  | @connect blocks pindexPrev l old new env block hprev hcount hheight hnew ih =>
    refine process_storable (hcount.rep hprev.rep) (hcount.storable ih) ⟨?_, ?_⟩ hnew <;>
      simp only [BlockInput.nHeight] <;> omega

/-! ## Reading a stored list -/

theorem readFrom_write {α : Type} {c : Codec α} {a : α} (h : c.valid a) (rest : Bytes) :
    readFrom c (c.write a ++ rest) = .ok (a, rest) := by
  rw [readFrom, c.read_write a h rest]

theorem readFrom_compactSize_of_lt {n : Nat} (h : MAX_SIZE < n) (h64 : n < 2 ^ 64) (rest : Bytes) :
    readFrom compactSize (compactSize.write n ++ rest) = .error (.exception "CDataStream") := by
  rw [readFrom, show compactSize.read (compactSize.write n ++ rest) = none from readCompactSize_write_of_lt h h64 rest]

def Part (t l : CDeterministicPNList D) : Prop :=
  ∀ (h : uint256) dmn, t.mnMap[h]? = some dmn → l.mnMap[h]? = some dmn

/-- Adding back a node of a well-formed list to a part of it fails exactly when the node has no operator key. -/
theorem addPN_of_part (hinj : CollisionFree D) {l t : CDeterministicPNList D}
    (hl : RepInv l) (ht : RepInv t) (hsub : Part t l) (hget : l.mnMap[d.proTxHash]? = some d)
    (hfree : t.mnMap[d.proTxHash]? = none) :
    Outcome (t.addPN d false) (fun t' => d.pdmnState.keyIDOperator ≠ 0 ∧
        Becomes t t' (t.mnMap.insert d.proTxHash d) t.nTotalRegisteredCount)
      (fun _ => d.pdmnState.keyIDOperator = 0) := by
  refine (addPN_outcome ht).mono (fun t' ⟨hadd, hb⟩ => ⟨hadd.operator_ne, hb⟩) fun _ hnot => ?_
  by_contra hne
  refine hnot ⟨hfree, ?_, hl.node _ d hget, hne, fun v hv => ?_⟩
  · -- an id in use belongs to a node of `l` with the same hash
    rw [Option.eq_none_iff_forall_ne_some]
    intro a ha
    obtain ⟨d', hd', hid⟩ := (ht.ids _ a).mp ha
    rw [hl.id_injective (hsub a d' hd') hget hid, hfree] at hd'
    cases hd'
  · rw [← Bool.not_eq_true, ht.hasUniqueProperty_iff hinj]
    rintro ⟨a, d', hd', hv', hnull⟩
    rw [hl.property_owner hinj (hsub a d' hd') hget hv' hv hnull, hfree] at hd'
    cases hd'

def countAfter (fBumpTotalCount : Bool) (count : Nat) (ds : List CDeterministicPN) : Nat :=
  ds.foldl (fun count d => if fBumpTotalCount then max (d.internalId + 1) count % 2 ^ 32 else count) count

/-- `r` is `t` with the nodes `ds` added, all of which have an operator key. -/
structure Readded (b : Bool) (t r : CDeterministicPNList D) (ds : List CDeterministicPN) : Prop where
  operators : ∀ d ∈ ds, d.pdmnState.keyIDOperator ≠ 0
  rep : RepInv r
  blockHash : r.blockHash = t.blockHash
  nHeight : r.nHeight = t.nHeight
  count : r.nTotalRegisteredCount = countAfter b t.nTotalRegisteredCount ds
  nodes : ∀ (h : uint256) dmn, r.mnMap[h]? = some dmn ↔ t.mnMap[h]? = some dmn ∨ dmn ∈ ds ∧ dmn.proTxHash = h

theorem Readded.nil {b : Bool} {t : CDeterministicPNList D} (ht : RepInv t) : Readded b t t [] :=
  ⟨nofun, ht, rfl, rfl, rfl, by simp⟩

theorem countAfter_false (count : Nat) (ds : List CDeterministicPN) : countAfter false count ds = count := by
  induction ds with
  | nil => rfl
  | cons d ds ih => exact ih

theorem Readded.cons {b : Bool} {t t' r : CDeterministicPNList D} {ds : List CDeterministicPN} (h : Readded b t' r ds)
    (hop : d.pdmnState.keyIDOperator ≠ 0) (hfree : t.mnMap[d.proTxHash]? = none)
    (hb : Becomes t t' (t.mnMap.insert d.proTxHash d)
      (if b then max (d.internalId + 1) t.nTotalRegisteredCount % 2 ^ 32 else t.nTotalRegisteredCount)) :
    Readded b t r (d :: ds) where
  operators := List.forall_mem_cons.mpr ⟨hop, h.operators⟩
  rep := h.rep
  blockHash := h.blockHash.trans hb.blockHash
  nHeight := h.nHeight.trans hb.nHeight
  count := by rw [h.count, hb.count]; rfl
  nodes a dmn := by
    rw [h.nodes, hb.mnMap, FinMap.get_insert, List.mem_cons]
    by_cases he : d.proTxHash = a
    · subst he
      rw [if_pos rfl, hfree, Option.some.injEq]
      tauto
    · rw [if_neg he]
      refine or_congr_right ⟨fun ⟨hmem, hkey⟩ => ⟨.inr hmem, hkey⟩, ?_⟩
      rintro ⟨rfl | hmem, hkey⟩
      · exact (he hkey).elim
      · exact ⟨hmem, hkey⟩

theorem unserializePNs_outcome (hinj : CollisionFree D) (hl : RepInv l)
    (hs : Storable l) (rest : Bytes) :
    ∀ {ds : List CDeterministicPN} {t : CDeterministicPNList D}, RepInv t → Part t l →
      (∀ d ∈ ds, l.mnMap[d.proTxHash]? = some d ∧ t.mnMap[d.proTxHash]? = none) →
      (ds.map CDeterministicPN.proTxHash).Nodup →
      Outcome (unserializePNs ds.length t (ds.flatMap pnCodec.write ++ rest))
        (fun r => r.2 = rest ∧ Readded false t r.1 ds) (fun _ => ∃ d ∈ ds, d.pdmnState.keyIDOperator = 0)
  | [], t, ht, _, _, _ => ⟨rfl, .nil ht⟩
  | d :: ds, t, ht, hsub, hds, hnodup => by
    obtain ⟨hget, hfree⟩ := hds d List.mem_cons_self
    rw [List.map_cons, List.nodup_cons] at hnodup
    rw [List.flatMap_cons, List.append_assoc, List.length_cons, unserializePNs, readFrom_write (hs.valid hget)]
    refine ((addPN_of_part hinj hl ht hsub hget hfree).mono (fun _ h => h) fun _ h0 =>
      ⟨d, List.mem_cons_self, h0⟩).bind fun t' _ ⟨hop, hb⟩ => ?_
    have hsub' := FinMap.forall_insert hsub hget
    rw [← hb.mnMap] at hsub'
    refine (unserializePNs_outcome hinj hl hs rest hb.rep hsub' (fun d' hd' => ?_) hnodup.2).mono
      (fun r hr => ⟨hr.1, hr.2.cons hop hfree hb⟩) fun _ ⟨d', hd', h0⟩ => ⟨d', List.mem_cons_of_mem d hd', h0⟩
    · obtain ⟨hget', hfree'⟩ := hds d' (List.mem_cons_of_mem d hd')
      refine ⟨hget', ?_⟩
      have hne : d.proTxHash ≠ d'.proTxHash := fun he => hnodup.1 (he ▸ List.mem_map_of_mem hd')
      rw [hb.mnMap, FinMap.get_insert_ne _ _ hne]
      exact hfree'

theorem mem_iterate {order : MapOrder} {m : MnMap} : d ∈ order.iterate m ↔ ∃ h : uint256, m[h]? = some d := by
  rw [(order.perm m).mem_iff, FinMap.mem_vals]

theorem RepInv.nodup_ids (hl : RepInv l) : (l.mnMap.vals.map CDeterministicPN.internalId).Nodup := by
  refine List.Nodup.map_on (fun d hd d' hd' he => ?_) (FinMap.nodup_vals hl.key)
  obtain ⟨h, hm⟩ := FinMap.mem_vals.mp hd
  obtain ⟨h', hm'⟩ := FinMap.mem_vals.mp hd'
  rw [hl.id_injective hm hm' he, hm'] at hm
  exact (Option.some.inj hm).symm

/-- Ids are distinct, so there are no more nodes than ids. -/
theorem RepInv.size_le (hl : RepInv l) {n : Nat}
    (hlt : ∀ (h : uint256) dmn, l.mnMap[h]? = some dmn → dmn.internalId < n) : l.mnMap.size ≤ n := by
  have hsub : (l.mnMap.vals.map CDeterministicPN.internalId) ⊆ List.range n := by
    intro id hid
    obtain ⟨d, hd, rfl⟩ := List.mem_map.mp hid
    obtain ⟨h, hm⟩ := FinMap.mem_vals.mp hd
    exact List.mem_range.mpr (hlt h d hm)
  have hle := (hl.nodup_ids.subperm hsub).length_le
  rwa [List.length_map, FinMap.length_vals, List.length_range] at hle

theorem Storable.size_le (hl : RepInv l) (hs : Storable l) : l.mnMap.size ≤ 2 ^ 32 :=
  hl.size_le hs.ids

/-- Reading a stored list gives it back, unless a node has no operator key or there are too many nodes. -/
theorem unserialize_serialize_outcome (hinj : CollisionFree D) (hl : RepInv l)
    (hs : Storable l) (order : MapOrder) (rest : Bytes) :
    Outcome (CDeterministicPNList.unserialize D (l.serialize order ++ rest))
      (fun r => r = (l, rest) ∧ (∀ (h : uint256) dmn, l.mnMap[h]? = some dmn → dmn.pdmnState.keyIDOperator ≠ 0) ∧
        l.mnMap.size ≤ MAX_SIZE)
      (fun _ => (∃ (h : uint256) (dmn : CDeterministicPN), l.mnMap[h]? = some dmn ∧ dmn.pdmnState.keyIDOperator = 0) ∨
        MAX_SIZE < l.mnMap.size) := by
  have hlen : (order.iterate l.mnMap).length = l.mnMap.size := by
    rw [(order.perm l.mnMap).length_eq, FinMap.length_vals]
  have hmem : ∀ d ∈ order.iterate l.mnMap, ∃ h : uint256, l.mnMap[h]? = some d := fun d hd => mem_iterate.mp hd
  have hnodup := nodup_proTxHash hl ((order.perm l.mnMap).nodup_iff.mpr (FinMap.nodup_vals hl.key)) hmem
  simp only [CDeterministicPNList.unserialize, CDeterministicPNList.serialize, List.append_assoc]
  rw [readFrom_write (c := hash256) trivial, ok_bind, readFrom_write (c := int32LE) hs.height, ok_bind,
    readFrom_write (c := Codec.leNat 4) hs.count, ok_bind]
  by_cases hsize : l.mnMap.size ≤ MAX_SIZE
  · rw [readFrom_write (c := compactSize) hsize, ok_bind]
    rw [← hlen]
    refine (unserializePNs_outcome hinj hl hs rest (RepInv.init _ _ _) FinMap.forall_empty (fun d hd => ?_)
      hnodup).mono ?_ ?_
    · obtain ⟨h, hm⟩ := hmem d hd
      exact ⟨by rw [hl.key h d hm]; exact hm, FinMap.get_empty _⟩
    · rintro ⟨r, rest'⟩ ⟨rfl, hr⟩
      refine ⟨?_, fun h dmn hm => hr.operators dmn (mem_iterate.mpr ⟨h, hm⟩), hlen ▸ hsize⟩
      congr 1
      refine hr.rep.ext hl (FinMap.ext_get fun h => Option.ext fun dmn => ?_)
        (hr.count.trans (countAfter_false _ _)) hr.blockHash hr.nHeight
      rw [hr.nodes, FinMap.get_empty, mem_iterate]
      constructor
      · rintro (h | ⟨⟨h', hm⟩, hkey⟩)
        · cases h
        · rw [← hkey, hl.key h' dmn hm]
          exact hm
      · exact fun hm => .inr ⟨⟨h, hm⟩, hl.key h dmn hm⟩
    · rintro _ ⟨d, hd, h0⟩
      obtain ⟨h, hm⟩ := hmem d hd
      exact .inl ⟨h, d, hm, h0⟩
  · rw [Nat.not_le] at hsize
    have h64 : l.mnMap.size < 2 ^ 64 := Nat.lt_of_le_of_lt (hs.size_le hl) (by decide)
    rw [readFrom_compactSize_of_lt hsize h64, error_bind]
    exact .inr hsize

end List

/-- **Snapshot round trip.** Reading back the stored form of a reachable list, whatever the iteration order of its
map, gives the list exactly when every node has an operator key and the reader accepts the number of nodes. -/
theorem unserialize_serialize_iff {D : Type} [Digest D] (hinj : Function.Injective (Digest.serializeHash : Bytes → D))
    {p : CChainParams} {c : Crypto} {blocks : List CBlock} {pindex : CBlockIndex} {l : CDeterministicPNList D}
    (hc : Chain p c blocks pindex l) (order : MapOrder) :
    CDeterministicPNList.unserialize D (l.serialize order) = .ok (l, []) ↔
      (∀ (h : uint256) dmn, l.mnMap[h]? = some dmn → dmn.pdmnState.keyIDOperator ≠ 0) ∧ l.mnMap.size ≤ MAX_SIZE := by
  have hout := unserialize_serialize_outcome hinj hc.rep hc.storable order []
  rw [List.append_nil] at hout
  constructor
  · exact fun h => (hout.of_ok h).2
  · rintro ⟨hop, hsize⟩
    cases hr : CDeterministicPNList.unserialize D (l.serialize order) with
    | ok r => rw [(hout.of_ok hr).1]
    | error e =>
      rcases hout.of_error hr with ⟨h, dmn, hm, h0⟩ | hlt
      · exact (hop h dmn hm h0).elim
      · exact absurd hsize (Nat.not_le.mpr hlt)

open Sample

set_option maxRecDepth 10000 in
/-- The list of two nodes is read back, in the order of their hashes. -/
theorem unserialize_serialize_sample : ∃ (pindex : CBlockIndex) (l : CDeterministicPNList Bytes),
    Chain params crypto [laterBlock, registerBlock] pindex l ∧ l.mnMap.size = 2 ∧
    CDeterministicPNList.unserialize Bytes (l.serialize .byHash) = .ok (l, []) := by
  obtain ⟨r, hc, -, hsize, hop⟩ := exists_chain [laterBlock, registerBlock] (P := fun r => r.2.mnMap.size = 2 ∧
    ∀ d ∈ r.2.mnMap.vals, d.pdmnState.keyIDOperator ≠ 0) (by decide +kernel) (by decide)
  exact ⟨r.1, r.2, hc, hsize, (unserialize_serialize_iff (fun _ _ h => h) hc .byHash).mpr
    ⟨fun h dmn hm => hop dmn (FinMap.mem_vals.mpr ⟨h, hm⟩), by rw [hsize]; decide⟩⟩

set_option maxRecDepth 10000 in
/-- A list with a revoked node is stored, and reading it stops the process in an assertion. -/
theorem unserialize_of_revoked_asserts : ∃ (pindex : CBlockIndex) (l : CDeterministicPNList Bytes),
    Chain params crypto [revokeBlock, registerBlock] pindex l ∧
    CDeterministicPNList.unserialize Bytes (l.serialize .byHash) =
      .error (.assertFailure "AddUniqueProperty: v != nullValue") := by
  obtain ⟨r, hc, -, hread⟩ := exists_chain [revokeBlock, registerBlock] (P := fun r =>
    Outcome (CDeterministicPNList.unserialize Bytes (r.2.serialize .byHash)) (fun _ => False)
      (fun e => e = .assertFailure "AddUniqueProperty: v != nullValue")) (by decide +kernel) (by decide)
  exact ⟨r.1, r.2, hc, hread.eq_error⟩

end TrumpCoin
