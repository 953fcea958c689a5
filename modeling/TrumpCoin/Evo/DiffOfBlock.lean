import TrumpCoin.Evo.ListDiff

/-!
# The difference a block leaves

`ProcessBlock` stores the difference between the list before a block and the one it computed. `ApplyDiff` removes,
adds and updates in an order of its own, so it needs that what a node newly holds was not held by another node that
is still there; the checks of the transactions say that (`build_succeeds`).

* `absent_iff`: the nodes a block removes are those whose collateral it spends or registers again;
* `throughDiff_outcome`: what reading the stored difference back and applying it gives.
-/

namespace TrumpCoin

open Lib

variable {D : Type} [Digest D] {x : BlockInput D} {l l' new : CDeterministicPNList D}

/-! ## The nodes a block removes -/

/-- The block spends the outpoint, or registers a node with it. -/
def BlockInput.Uses (x : BlockInput D) (o : COutPoint) : Prop :=
  o ∈ x.block.prevouts ∨ ∃ tx pl, x.HasTx TxType.PROREG ProRegPL.codec tx pl ∧ proRegCollateral tx pl = o

section OnChain

variable {blocks : List CBlock} (hinj : CollisionFree D) (hx : OnChain x blocks)
variable {a : uint256} {old : CDeterministicPN}

include hinj hx in
/-- An old node that is gone does not come back: its hash is not that of a registration. -/
theorem BlockSteps.absent (h : BlockSteps x l l') (hl : RepInv l) (hold : x.oldList.mnMap[a]? = some old)
    (hnone : l.mnMap[a]? = none) : l'.mnMap[a]? = none := by
  refine h.invariant (I := fun t => t.mnMap[a]? = none) (fun t t' _ ht hstep => ?_) hl hnone
  cases hstep with
  | register tx pl htx _ _ hb =>
    rw [hb.mnMap, FinMap.get_insert_ne _ _ ?_]
    · exact ht
    · rintro rfl
      rw [hx.fresh_hash hinj htx.1 htx.2.1] at hold
      cases hold
  | update b dmn _ hm _ hb =>
    rw [hb.mnMap, FinMap.get_insert_ne _ _ ?_]
    · exact ht
    · rintro rfl
      rw [ht] at hm
      cases hm
  | remove b _ _ _ _ hb =>
    rw [hb.mnMap, FinMap.get_erase]
    split
    · rfl
    · exact ht

include hinj hx in
theorem BlockSteps.uses_of_absent (h : BlockSteps x x.start l) (hold : x.oldList.mnMap[a]? = some old)
    (hnone : l.mnMap[a]? = none) : x.Uses old.collateralOutpoint := by
  -- carried along the steps: the node is there, or the block uses its collateral
  have key : (BlockSteps x x.start l ∧ (x.Uses old.collateralOutpoint ∨ ∃ dmn : CDeterministicPN,
      l.mnMap[a]? = some dmn)) := by
    refine h.invariant (I := fun t => BlockSteps x x.start t ∧ (x.Uses old.collateralOutpoint ∨
      ∃ dmn : CDeterministicPN, t.mnMap[a]? = some dmn)) (fun t t' ht hI hstep => ⟨hI.1.tail hstep, ?_⟩) hx.rep.start
      ⟨.refl, .inr ⟨old, hold⟩⟩
    obtain ⟨hsteps, huses | ⟨dmn, hm⟩⟩ := hI
    · exact .inl huses
    cases hstep with
    | register tx pl htx _ _ hb =>
      refine .inr ?_
      rw [hb.mnMap, FinMap.get_insert]
      split
      · exact ⟨_, rfl⟩
      · exact ⟨dmn, hm⟩
    | update b _ _ _ _ hb =>
      refine .inr ?_
      rw [hb.mnMap, FinMap.get_insert]
      split
      · exact ⟨_, rfl⟩
      · exact ⟨dmn, hm⟩
    | remove b dmn' hm' _ hwhy hb =>
      rw [hb.mnMap, FinMap.get_erase]
      split_ifs with hab
      · subst hab
        have hcoll : dmn'.collateralOutpoint = old.collateralOutpoint := by
          rw [hsteps.node_of_old hinj hx hold hm']
        refine .inl ?_
        rcases hwhy with ⟨tx, pl, htx, hget⟩ | hspent
        · exact .inr ⟨tx, pl, htx, ((ht.getPNByCollateral_iff hinj).mp hget).2.symm.trans hcoll⟩
        · exact .inl (hcoll ▸ hspent)
      · exact .inr ⟨dmn, hm⟩
  rcases key.2 with huses | ⟨dmn, hm⟩
  · exact huses
  · rw [hnone] at hm
    cases hm

include hinj hx in
theorem TxStep.absent_of_collateral {tx : CTransaction} {pl : ProRegPL} (hstep : TxStep x tx l l')
    (hsteps : BlockSteps x x.start l) (htx : x.HasTx TxType.PROREG ProRegPL.codec tx pl)
    (hold : x.oldList.mnMap[a]? = some old) (hcoll : proRegCollateral tx pl = old.collateralOutpoint) :
    l'.mnMap[a]? = none := by
  have hl := BlockSteps.rep hsteps hx.rep.start
  cases hstep with
  | update _ _ _ hst => exact (hst.nType_ne htx.2.1).elim
  | other hne => exact (hne.1 htx.2.1).elim
  | register pl' l₁ hty hpl _ hrep _ hb =>
    obtain rfl : pl = pl' := Option.some.inj (htx.2.2.symm.trans hpl)
    have hne : tx.getHash ≠ a := by
      rintro rfl
      rw [hx.fresh_hash hinj htx.1 hty] at hold
      cases hold
    rw [hb.mnMap, FinMap.get_insert_ne _ _ hne, Option.eq_none_iff_forall_ne_some]
    intro d hd
    have hfree := hrep.collateral_free hinj hl
    have hcoll' : d.collateralOutpoint = proRegCollateral tx pl := by
      rw [hsteps.node_of_old hinj hx hold (hrep.get hd), hcoll]
    have hne_null := ((hrep.rep hl).node a d hd).collateral_ne
    have hhas := ((hrep.rep hl).hasUniqueProperty_iff hinj).mpr ⟨a, d, hd, outpoint_mem_properties.mpr hcoll',
      fun hn => hne_null (hcoll'.trans (UniqueProperty.isNull_outpoint.mp hn))⟩
    rw [hfree] at hhas
    cases hhas

include hinj hx in
theorem build_absent (hbuild : x.build = .ok new) (hold : x.oldList.mnMap[a]? = some old)
    (huses : x.Uses old.collateralOutpoint) : new.mnMap[a]? = none := by
  obtain ⟨l₂, l₃, l₄, st⟩ := build_stages hx.rep hbuild
  rcases huses with hmem | ⟨tx, pl, htx, hcoll⟩
  · rw [Option.eq_none_iff_forall_ne_some]
    intro d hd
    refine build_unspent hinj hx.rep hbuild a d hd ?_
    rw [BlockSteps.node_of_old hinj hx (build_steps hx.rep hbuild) hold hd]
    exact hmem
  · -- the node is gone after the registration
    obtain ⟨pre, post, hsplit⟩ := List.append_of_mem htx.1
    have htxs := st.txs
    rw [hsplit] at htxs
    obtain ⟨t, t', hpre, hstep, hpost⟩ := foldlM_split htxs
    have spre := foldlM_steps (fun tx' htx' _ _ ht hs => applySpecialTx_steps
      (by rw [hsplit]; exact List.mem_append_left _ htx') ht hs) st.rep_before hpre
    have rt := BlockSteps.rep spre st.rep_before
    have htxs := (applySpecialTx_outcome rt).of_ok hstep
    have rt' := BlockSteps.rep (htxs.steps htx.1 rt) rt
    have spost := foldlM_steps (fun tx' htx' _ _ ht hs => applySpecialTx_steps
      (by rw [hsplit]; exact List.mem_append_right _ (List.mem_cons_of_mem _ htx')) ht hs) rt' hpost
    exact BlockSteps.absent hinj hx (spost.trans (st.spends_steps.trans st.paid_steps.steps)) rt' hold
      (htxs.absent_of_collateral hinj hx (st.before.trans spre) htx hold hcoll)

include hinj hx in
/-- **A block removes the old nodes whose collateral it uses.** -/
theorem absent_iff (hbuild : x.build = .ok new) (hold : x.oldList.mnMap[a]? = some old) :
    new.mnMap[a]? = none ↔ x.Uses old.collateralOutpoint :=
  ⟨fun hnone => BlockSteps.uses_of_absent hinj hx (build_steps hx.rep hbuild) hold hnone,
    build_absent hinj hx hbuild hold⟩

/-! ## The new list succeeds the old one -/

include hx in
theorem OnChain.collateral_hash_ne (hold : x.oldList.mnMap[a]? = some old) : old.collateralOutpoint.hash ≠ 0 := by
  obtain ⟨block, hb, tx, htx, pl, -, -, -, -, hcoll⟩ := hx.registered a old hold
  rw [← hcoll]
  exact proRegCollateral_hash_ne pl
    (hx.txids.ne_zero block (List.mem_cons_of_mem _ hb) tx (mem_vtx_of_mem_nonCoinbase htx))

include hinj hx in
/-- What a registration holds is free in the old list, or held by the node it replaces. -/
theorem ProRegChecked.uses {tx : CTransaction} {pl : ProRegPL} (hc : ProRegChecked x tx pl)
    (htx : x.HasTx TxType.PROREG ProRegPL.codec tx pl) {v : UniqueProperty} {id : Nat}
    (hv : v ∈ (newPN x.nHeight id tx pl).properties) (hnull : ¬v.IsNull) (hold : x.oldList.mnMap[a]? = some old)
    (hv' : v ∈ old.properties) : x.Uses old.collateralOutpoint := by
  have hheld := (hx.rep.hasUniqueProperty_iff hinj).mpr ⟨a, old, hold, hv', hnull⟩
  simp only [CDeterministicPN.properties, List.mem_cons, List.not_mem_nil, or_false] at hv
  rcases hv with rfl | rfl | rfl | rfl
  · exact .inr ⟨tx, pl, htx, (outpoint_mem_properties.mp hv').symm⟩
  · have hsame := hc.addr old (hx.rep.getUniquePropertyPN_of_mem hinj hold hv' hnull)
    have hext : pl.collateralOutpoint.hash ≠ 0 := hsame ▸ hx.collateral_hash_ne hold
    refine .inr ⟨tx, pl, htx, ?_⟩
    rw [proRegCollateral, if_neg hext, hsame]
  · rw [show (newPN x.nHeight id tx pl).pdmnState.keyIDOwner = pl.keyIDOwner from rfl, hc.owner_free] at hheld
    cases hheld
  · rw [show (newPN x.nHeight id tx pl).pdmnState.keyIDOperator = pl.keyIDOperator from rfl, hc.operator_free] at hheld
    cases hheld

include hinj hx in
theorem build_succeeds (hbuild : x.build = .ok new) : Succeeds x.oldList new := by
  have hsteps := build_steps hx.rep hbuild
  have hnew := BlockSteps.rep hsteps hx.rep.start
  have kept : ∀ (h : uint256) a b, x.oldList.mnMap[h]? = some a → new.mnMap[h]? = some b →
      b.pdmnState.keyIDOwner = a.pdmnState.keyIDOwner ∧
      (b.pdmnState.addr = a.pdmnState.addr ∨ b.pdmnState.addr = CService.null ∨
        ¬HeldByOther (MnMap.holdings D x.oldList.mnMap) h (.service b.pdmnState.addr)) ∧
      (b.pdmnState.keyIDOperator = a.pdmnState.keyIDOperator ∨ b.pdmnState.keyIDOperator = 0 ∨
        ¬HeldByOther (MnMap.holdings D x.oldList.mnMap) h (.keyID b.pdmnState.keyIDOperator)) := by
    intro h a b ha hb
    obtain rfl := hnew.key h b hb
    cases BlockSteps.origin hinj hx hsteps _ b hb with
    | kept old hold _ howner haddr hop =>
      rw [ha] at hold
      cases hold
      exact ⟨howner, haddr, hop⟩
    | fresh tx pl id _ hnone heq =>
      rw [heq] at ha
      rw [show (newPN x.nHeight id tx pl).proTxHash = tx.getHash from rfl, hnone] at ha
      cases ha
  have fresh : ∀ (h : uint256) b, x.oldList.mnMap[h]? = none → new.mnMap[h]? = some b →
      ∃ tx pl id, x.HasTx TxType.PROREG ProRegPL.codec tx pl ∧ b = newPN x.nHeight id tx pl := by
    intro h b hnone hb
    obtain rfl := hnew.key h b hb
    cases BlockSteps.origin hinj hx hsteps _ b hb with
    | kept old hold => rw [hnone] at hold; cases hold
    | fresh tx pl id htx _ heq => exact ⟨tx, pl, id, htx, heq⟩
  have checked : ∀ {tx pl}, x.HasTx TxType.PROREG ProRegPL.codec tx pl → ProRegChecked x tx pl := by
    intro tx pl htx
    obtain ⟨pl', hc⟩ := check_proReg (hx.check htx.1) htx.2.1
    obtain rfl : pl = pl' := Option.some.inj (htx.2.2.symm.trans hc.payload)
    exact hc
  refine ⟨hx.rep, hnew, fun h a b ha hb => ⟨hsteps.node_of_old hinj hx ha hb, (kept h a b ha hb).1⟩,
    fun h a b ha hb hne => ?_, fun h a b ha hb hne => ?_, fun h b hnone hb => ?_, fun h b hnone hb v hv hnull h' a ha hv' => ?_⟩
  · rcases (kept h a b ha hb).2.1 with heq | hnull | hfree
    · exact (hne heq.symm).elim
    · exact not_heldByOther_of_isNull hinj (UniqueProperty.isNull_service.mpr hnull)
    · exact hfree
  · rcases (kept h a b ha hb).2.2 with heq | hnull | hfree
    · exact (hne heq.symm).elim
    · exact not_heldByOther_of_isNull hinj (UniqueProperty.isNull_keyID.mpr hnull)
    · exact hfree
  · obtain ⟨tx, pl, id, htx, rfl⟩ := fresh h b hnone hb
    exact (checked htx).operator_ne
  · obtain ⟨tx, pl, id, htx, rfl⟩ := fresh h b hnone hb
    exact build_absent hinj hx hbuild ha ((checked htx).uses hinj hx htx hv hnull ha hv')

end OnChain

/-! ## The stored difference -/

/-- Store the difference to `target`, read it back and apply it. -/
def CDeterministicPNList.throughDiff (order : MapOrder) (l target : CDeterministicPNList D) (pindex : CBlockIndex) :
    Result (CDeterministicPNList D) := do
  let diff ← l.buildDiff order target
  let (diff, _) ← CDeterministicPNListDiff.unserialize diff.serialize
  l.applyDiff pindex diff

/-- The reader accepts the vectors of the difference between two lists. -/
def DiffSizesFit (l target : CDeterministicPNList D) : Prop :=
  CDeterministicPNListDiff.SizesFit (addedNodes l target).length (updatedNodes l target).length
    (removedNodes l target).length

theorem length_filter_vals_lt (hl : RepInv l) (hs : Storable l) (p : CDeterministicPN → Bool) :
    (l.mnMap.vals.filter p).length < 2 ^ 64 := by
  have hle := List.length_filter_le p l.mnMap.vals
  have hsize := hs.size_le hl
  rw [FinMap.length_vals] at hle
  omega

variable {d : CDeterministicPNListDiff}

theorem IsDiff.fits (hd : IsDiff l new d) (hl : RepInv l) (hnew : RepInv new) (hs : Storable l) (hs' : Storable new) :
    d.Fits where
  added b hb := hs'.valid ((mem_addedNodes hnew).mp (hd.added.mem_iff.mp hb)).1
  updated e he := by
    obtain ⟨b, hb, rfl⟩ := List.mem_map.mp (hd.updated.mem_iff.mp he)
    have hget := ((mem_updatedNodes hnew).mp hb).1
    have hid := hs'.ids _ b hget
    exact ⟨Nat.lt_trans hid (by decide), Record.diff_valid (fun _ => trivial) (hs'.states _ b hget).valid⟩
  removed e he := by
    obtain ⟨a, ha, hid⟩ := List.mem_map.mp (hd.removed.mem_iff.mp (List.mem_map_of_mem he))
    rw [← hid]
    exact Nat.lt_trans (hs.ids _ a ((mem_addedNodes hl).mp ha).1) (by decide)

theorem IsDiff.sizes (hd : IsDiff l new d) :
    d.addedPNs.length = (addedNodes l new).length ∧ d.updatedPNs.size = (updatedNodes l new).length ∧
      d.removedMns.size = (removedNodes l new).length := by
  refine ⟨hd.added.length_eq, ?_, ?_⟩
  · rw [← Std.ExtTreeMap.length_toList, hd.updated.length_eq, List.length_map]
  · have h := hd.removed.length_eq
    rwa [List.length_map, List.length_map, Std.ExtTreeMap.length_toList] at h

theorem IsDiff.unserialize_outcome (hd : IsDiff l new d) (hl : RepInv l) (hnew : RepInv new) (hs : Storable l)
    (hs' : Storable new) :
    Outcome (CDeterministicPNListDiff.unserialize d.serialize) (fun r => r = (d, []) ∧ DiffSizesFit l new)
      (fun _ => ¬DiffSizesFit l new) := by
  obtain ⟨hadded, hupdated, hremoved⟩ := hd.sizes
  have h := CDeterministicPNListDiff.unserialize_serialize (hd.fits hl hnew hs hs')
    (hadded ▸ length_filter_vals_lt hnew hs' _) (hupdated ▸ length_filter_vals_lt hnew hs' _)
    (hremoved ▸ length_filter_vals_lt hl hs _) []
  rw [hadded, hupdated, hremoved, List.append_nil] at h
  refine h.mono (fun r hr => ⟨?_, hr.2⟩) fun _ h => h
  rw [hr.1, ← hd.nHeight]

/-- **Diff round trip.** Applying the stored difference gives the new list up to the counter, unless it removes a
node that had no operator key or a vector is too long. -/
theorem throughDiff_outcome (hinj : CollisionFree D) (h : Succeeds l new)
    (hs : Storable l) (hs' : Storable new) (order : MapOrder) (pindex : CBlockIndex) :
    Outcome (l.throughDiff order new pindex)
      (fun r => (∃ d, IsDiff l new d ∧ r = { new with
          blockHash := pindex.getBlockHash, nHeight := pindex.nHeight
          nTotalRegisteredCount := countAfter true l.nTotalRegisteredCount d.addedPNs }) ∧
        (∀ a ∈ removedNodes l new, a.pdmnState.keyIDOperator ≠ 0) ∧ DiffSizesFit l new)
      (fun _ => (∃ a ∈ removedNodes l new, a.pdmnState.keyIDOperator = 0) ∨ ¬DiffSizesFit l new) := by
  obtain ⟨d, hbuild, hd⟩ := buildDiff_spec order h.rep h.rep_target
  unfold CDeterministicPNList.throughDiff
  rw [hbuild, ok_bind]
  refine ((hd.unserialize_outcome h.rep h.rep_target hs hs').mono (fun _ h => h) fun _ h => .inr h).bind ?_
  rintro _ - ⟨rfl, hfit⟩
  exact (applyDiff_outcome hinj h hd pindex).mono (fun r hr => ⟨⟨d, hd, hr.1⟩, hr.2, hfit⟩) fun _ h => .inl h

/-- Equal but for the counter. -/
structure SameList (l l' : CDeterministicPNList D) : Prop where
  blockHash : l.blockHash = l'.blockHash
  nHeight : l.nHeight = l'.nHeight
  mnMap : l.mnMap = l'.mnMap
  mnInternalIdMap : l.mnInternalIdMap = l'.mnInternalIdMap
  mnUniquePropertyMap : l.mnUniquePropertyMap = l'.mnUniquePropertyMap

/-- Every node of the list whose collateral the block uses has an operator key before the block. -/
def KeyedBefore (x : BlockInput D) : Prop :=
  ∀ (h : uint256) dmn, x.oldList.mnMap[h]? = some dmn → x.Uses dmn.collateralOutpoint → dmn.pdmnState.keyIDOperator ≠ 0

theorem process_succeeds (hinj : CollisionFree D) {blocks : List CBlock}
    (hx : OnChain x blocks) (hdip : isDIP3Enforced x.p (x.pindexPrev.nHeight + 1) = true)
    (hnew : x.process = .ok new) :
    Succeeds x.oldList new ∧ new.blockHash = x.block.getHash ∧ new.nHeight = x.nHeight ∧
      ((∀ a ∈ removedNodes x.oldList new, a.pdmnState.keyIDOperator ≠ 0) ↔ KeyedBefore x) := by
  rcases process_cases hx.rep hnew with ⟨hnot, -⟩ | ⟨-, b, hbuild, -, -, rfl⟩
  · rw [hdip] at hnot
    cases hnot
  have hsucc := build_succeeds hinj hx hbuild
  have hrep := hsucc.rep_target
  refine ⟨⟨hsucc.rep, ⟨hrep.key, hrep.node, hrep.ids, hrep.props⟩, hsucc.node, hsucc.addr, hsucc.operator,
    hsucc.fresh_operator, hsucc.fresh⟩, rfl, (build_header hx.rep hbuild).2, ?_⟩
  constructor
  · intro h a dmn hm huses
    have hkey := hx.rep.key a dmn hm
    refine h dmn ((mem_addedNodes hx.rep).mpr ⟨hkey.symm ▸ hm, ?_⟩)
    rw [hkey]
    exact (absent_iff hinj hx hbuild hm).mpr huses
  · intro h a ha
    obtain ⟨hm, hnone⟩ := (mem_addedNodes hx.rep).mp ha
    exact h _ a hm ((absent_iff hinj hx hbuild hm).mp hnone)

/-- **Diff correctness.** For every block on top of a chain, going through the stored difference gives the list that
the block produced exactly when every node whose collateral the block uses had an operator key before the block, and
the reader accepts the vectors of the difference. -/
theorem throughDiff_sameList_iff (hinj : Function.Injective (Digest.serializeHash : Bytes → D)) {p : CChainParams}
    {c : Crypto} {blocks : List CBlock} {pindexPrev : CBlockIndex} {l old new : CDeterministicPNList D} {env : Env}
    {block : CBlock} (hc : Chain p c blocks pindexPrev l) (hcount : Recount l old)
    (htxids : TxidsSound (block :: blocks)) (hheight : pindexPrev.nHeight + 1 < 2 ^ 31)
    (hdip : isDIP3Enforced p (pindexPrev.nHeight + 1) = true)
    (hnew : (⟨p, c, env, block, pindexPrev, old⟩ : BlockInput D).process = .ok new) (order : MapOrder) :
    (∃ r, old.throughDiff order new (.child pindexPrev block.getHash) = .ok r ∧ SameList r new) ↔
      KeyedBefore (⟨p, c, env, block, pindexPrev, old⟩ : BlockInput D) ∧ DiffSizesFit old new := by
  have hx := hc.onChain hcount htxids (process_eq_ok.mp hnew).1
  obtain ⟨hsucc, hhash, hh, hkeyed⟩ := process_succeeds hinj hx hdip hnew
  have hs' := (Chain.connect env block hc hcount hheight hnew).storable
  have h := throughDiff_outcome hinj hsucc (hcount.storable hc.storable) hs' order (.child pindexPrev block.getHash)
  rw [← hkeyed]
  constructor
  · rintro ⟨r, hr, -⟩
    exact (h.of_ok hr).2
  · rintro ⟨hop, hfit⟩
    cases hr : old.throughDiff order new (.child pindexPrev block.getHash) with
    | error e =>
      rcases h.of_error hr with ⟨a, ha, h0⟩ | hnot
      · exact (hop a ha h0).elim
      · exact (hnot hfit).elim
    | ok r =>
      obtain ⟨⟨d, -, rfl⟩, -⟩ := h.of_ok hr
      exact ⟨_, rfl, hhash.symm, hh.symm, rfl, rfl, rfl⟩

open Sample

set_option maxRecDepth 10000 in
theorem throughDiff_sameList_sample : ∃ (r : CBlockIndex × CDeterministicPNList Bytes) (new : CDeterministicPNList Bytes),
    Chain params crypto [registerBlock] r.1 r.2 ∧ r.2.mnMap.size = 1 ∧
    (spendInput r).process = .ok new ∧ new.mnMap.size = 0 ∧
    ∃ r', r.2.throughDiff .byHash new (.child r.1 spendBlock.getHash) = .ok r' ∧ SameList r' new := by
  obtain ⟨r, hc, hh, hsize, hop, hnew⟩ := exists_chain [registerBlock] (P := fun r => r.2.mnMap.size = 1 ∧
    (∀ d ∈ r.2.mnMap.vals, d.pdmnState.keyIDOperator ≠ 0) ∧ Returns (spendInput r).process (fun new =>
      new.mnMap.size = 0 ∧ (addedNodes r.2 new).length ≤ 1 ∧ (updatedNodes r.2 new).length ≤ 1 ∧
      (removedNodes r.2 new).length ≤ 1)) (by decide +kernel) (by decide)
  obtain ⟨new, hnew, hempty, hadded, hupdated, hremoved⟩ := hnew.exists_ok
  have hmax : 1 ≤ MAX_SIZE := by decide
  refine ⟨r, new, hc, hsize, hnew, hempty, (throughDiff_sameList_iff (fun _ _ h => h) hc (.refl _)
    ⟨by decide, by decide⟩ (by rw [hh]; decide) (by rw [hh]; decide) hnew .byHash).mpr ⟨fun h dmn hm _ => ?_, ?_⟩⟩
  · exact hop dmn (FinMap.mem_vals.mpr ⟨h, hm⟩)
  · exact ⟨hadded.trans hmax, hupdated.trans hmax, hremoved.trans hmax⟩

namespace Sample

/-- A registrar update of the node `proTxHash` with operator key `k`. -/
def updateRegistrar (h proTxHash : uint256) (k : CKeyID) : CTransaction where
  nVersion := 3
  nType := TxType.PROUPREG
  vin := [{ prevout := ⟨h + 1, 0⟩ }]
  hash := h
  extraPayload := some (ProUpRegPL.codec.write
    { proTxHash := proTxHash, keyIDOperator := k, keyIDVoting := k + 1, scriptPayout := p2pkh (k + 2),
      inputsHash := 0 })

def collateralEnv : Env :=
  { env with getUTXOCoin := fun o => if o = ⟨0x11, 0⟩ then some ⟨⟨100 * COIN, p2pkh 0x55⟩, false, false, 1⟩ else none }

def rekeyBlock : CBlock :=
  { hash := 0xb3, vtx := [coinbase 0xc3, updateRegistrar 0x31 0x11 0x61, spend 0x33 ⟨0x11, 0⟩] }

def rekeyInput (r : CBlockIndex × CDeterministicPNList Bytes) : BlockInput Bytes :=
  ⟨params, crypto, collateralEnv, rekeyBlock, r.1, r.2⟩

end Sample

set_option maxRecDepth 10000 in
/-- A revoked node that gets an operator key and is removed by one block: the block is accepted, and applying its
difference stops the process in an assertion. -/
theorem throughDiff_of_rekeyed_asserts :
    ∃ (r : CBlockIndex × CDeterministicPNList Bytes) (new : CDeterministicPNList Bytes),
    Chain params crypto [revokeBlock, registerBlock] r.1 r.2 ∧
    (rekeyInput r).process = .ok new ∧
    r.2.throughDiff .byHash new (.child r.1 rekeyBlock.getHash) =
      .error (.assertFailure "DeleteUniqueProperty: oldValue != nullValue") := by
  obtain ⟨r, hc, -, hnew⟩ := exists_chain [revokeBlock, registerBlock] (P := fun r => Returns (rekeyInput r).process
    (fun new => Outcome (r.2.throughDiff .byHash new (.child r.1 rekeyBlock.getHash)) (fun _ => False)
      (fun e => e = .assertFailure "DeleteUniqueProperty: oldValue != nullValue"))) (by decide +kernel) (by decide)
  obtain ⟨new, hnew, hdiff⟩ := hnew.exists_ok
  exact ⟨r, new, hc, hnew, hdiff.eq_error⟩

end TrumpCoin
