import TrumpCoin.Evo.Chain

/-!
# Where the nodes of a block's list come from

The transactions of a block are checked against the list of the previous block and applied to a list that
already contains the effects of the earlier ones. This module relates the two.

* `ProRegChecked`, `check_update`: what a passed check says of the old list;
* `Chain.registered`: every node was registered by a transaction of the chain that has its hash and owner key;
* `Origin`: a node of a list under construction is a node of the old list or registered by the block.
-/

namespace TrumpCoin

open Lib

variable {D : Type} [Digest D] {x : BlockInput D} {tx : CTransaction}

/-! ## What a passed check says -/

/-- Facts of a registration that passed its check. -/
structure ProRegChecked (x : BlockInput D) (tx : CTransaction) (pl : ProRegPL) : Prop where
  payload : getTxPayload ProRegPL.codec tx = some pl
  owner_ne : pl.keyIDOwner ≠ 0
  operator_ne : pl.keyIDOperator ≠ 0
  internal : pl.collateralOutpoint.hash = 0 → ∃ out, tx.vout[pl.collateralOutpoint.n.toNat]? = some out ∧
    (extractDestination x.c.hash160 out.scriptPubKey).isSome = true ∧ out.nValue = x.p.nPNCollateralAmt
  external : pl.collateralOutpoint.hash ≠ 0 → ∃ coin, x.env.getUTXOCoin pl.collateralOutpoint = some coin ∧
    coin.out.nValue = x.p.nPNCollateralAmt
  owner_free : x.oldList.hasUniqueProperty (.keyID pl.keyIDOwner) = false
  operator_free : x.oldList.hasUniqueProperty (.keyID pl.keyIDOperator) = false
  addr : ∀ other, x.oldList.getUniquePropertyPN (.service pl.addr) = some other →
    other.collateralOutpoint = pl.collateralOutpoint

theorem check_special (h : x.check tx = .ok ()) :
    (tx.nType = TxType.PROREG → checkProRegTx x.p x.c x.env tx (some ⟨x.pindexPrev, x.oldList⟩) = .ok ()) ∧
    (tx.nType = TxType.PROUPSERV → checkProUpServTx x.p x.c tx (some ⟨x.pindexPrev, x.oldList⟩) = .ok ()) ∧
    (tx.nType = TxType.PROUPREG → checkProUpRegTx x.c x.env tx (some ⟨x.pindexPrev, x.oldList⟩) = .ok ()) ∧
    (tx.nType = TxType.PROUPREV → checkProUpRevTx x.c tx (some ⟨x.pindexPrev, x.oldList⟩) = .ok ()) := by
  refine ⟨fun hty => ?_, fun hty => ?_, fun hty => ?_, fun hty => ?_⟩
  all_goals
    rw [BlockInput.check, checkSpecialTx, CTransaction.isNormalType, hty, if_neg (by decide)] at h
    obtain ⟨_, _, h⟩ := bind_eq_ok.mp h
    obtain ⟨_, _, h⟩ := bind_eq_ok.mp h
    exact h

variable {p : CChainParams} {c : Crypto} {block : CBlock} {blocks : List CBlock}

theorem checkCollateralOut_eq_ok {out : CTxOut} {pl : ProRegPL} {dest : CTxDestination}
    (h : checkCollateralOut p c out pl = .ok dest) :
    (extractDestination c.hash160 out.scriptPubKey).isSome = true ∧ out.nValue = p.nPNCollateralAmt := by
  unfold checkCollateralOut at h
  split at h
  · cases h
  · rename_i d hd
    simp only [bind_eq_ok, invalidUnless, require_eq_ok] at h
    obtain ⟨_, _, _, hamt, _⟩ := h
    exact ⟨by rw [hd]; rfl, hamt⟩

/-- What an accepted registration has passed. -/
theorem check_proReg (h : x.check tx = .ok ()) (hty : tx.nType = TxType.PROREG) : ∃ pl, ProRegChecked x tx pl := by
  have h := (check_special h).1 hty
  simp only [checkProRegTx, bind_eq_ok, payloadOrReject_eq_ok] at h
  obtain ⟨pl, hpl, _, hfields, _, hcoll, _, _, hlist⟩ := h
  simp only [checkProRegFields, bind_eq_ok, invalidUnless, require_eq_ok] at hfields
  obtain ⟨_, _, _, _, _, _, _, hkeys, _⟩ := hfields
  simp only [checkProRegList, bind_eq_ok, duplicateUnless, require_eq_ok] at hlist
  obtain ⟨_, haddr, _, howner, hoper⟩ := hlist
  refine ⟨pl, hpl, hkeys.1, hkeys.2.1, fun hz => ?_, fun hnz => ?_, howner, hoper, fun other hother => ?_⟩
  · rw [checkProRegCollateral, if_pos hz] at hcoll
    split at hcoll
    · cases hcoll
    · rename_i out hout
      obtain ⟨dest, hdest, _⟩ := bind_eq_ok.mp hcoll
      exact ⟨out, hout, checkCollateralOut_eq_ok hdest⟩
  · rw [checkProRegCollateral, if_neg hnz] at hcoll
    simp only [Option.isSome_some, if_true] at hcoll
    split at hcoll
    · cases hcoll
    · rename_i coin hcoin
      obtain ⟨dest, hdest, _⟩ := bind_eq_ok.mp hcoll
      exact ⟨coin, hcoin, (checkCollateralOut_eq_ok hdest).2⟩
  · have hhas : x.oldList.hasUniqueProperty (.service pl.addr) = true := by
      unfold CDeterministicPNList.getUniquePropertyPN at hother
      unfold CDeterministicPNList.hasUniqueProperty
      split at hother
      · cases hother
      · rename_i e he; rw [he]; rfl
    rw [checkProRegAddress, if_pos hhas, hother] at haddr
    exact require_eq_ok.mp haddr

/-- Facts of an update that passed its check: the node it names is an old one, and the address and operator key it
sets are null or not held by another old node. -/
structure UpdateChecked (x : BlockInput D) (dmn : CDeterministicPN) (st : CDeterministicPNState) : Prop where
  target : x.oldList.hasPN dmn.proTxHash = true
  addr : st.addr = dmn.pdmnState.addr ∨ st.addr = CService.null ∨
    ¬HeldByOther (MnMap.holdings D x.oldList.mnMap) dmn.proTxHash (.service st.addr)
  operator : st.keyIDOperator = dmn.pdmnState.keyIDOperator ∨ st.keyIDOperator = 0 ∨
    ¬HeldByOther (MnMap.holdings D x.oldList.mnMap) dmn.proTxHash (.keyID st.keyIDOperator)

variable {l : CDeterministicPNList D}

theorem not_heldByOther_of_usedByOther (hl : RepInv l) {v : UniqueProperty} {a : uint256}
    (h : l.usedByOther v a = .ok false) : ¬HeldByOther (MnMap.holdings D l.mnMap) a v := by
  classical
  rw [hl.usedByOther_eq] at h
  exact of_decide_eq_false (Except.ok.inj h)

variable {st : CDeterministicPNState} {dmn : CDeterministicPN}

/-- An accepted update is of a listed node; no other node holds its new address or operator key. -/
theorem check_update (hold : RepInv x.oldList)
    (h : x.check tx = .ok ()) (hst : UpdatedBy x.nHeight tx dmn st) : UpdateChecked x dmn st := by
  cases hst with
  | service pl hty hpl hkey =>
    have h := (check_special h).2.1 hty
    simp only [checkProUpServTx, bind_eq_ok, payloadOrReject_eq_ok, hpl, Option.some.injEq] at h
    obtain ⟨_, rfl, _, _, _, _, _, _, h⟩ := h
    split at h
    · cases h
    · rename_i mn hmn
      simp only [bind_eq_ok, duplicateUnless, require_eq_ok] at h
      obtain ⟨_, hother, _, rfl, _⟩ := h
      rw [hkey] at hmn hother
      refine ⟨hasPN_iff.mpr ⟨mn, hmn⟩, .inr (.inr ?_), .inl (serviceState_operator ..)⟩
      rw [serviceState_addr]
      exact not_heldByOther_of_usedByOther hold hother
  | registrar pl hty hpl hkey =>
    have h := (check_special h).2.2.1 hty
    simp only [checkProUpRegTx, bind_eq_ok, payloadOrReject_eq_ok, hpl, Option.some.injEq] at h
    obtain ⟨_, rfl, dest, _, _, _, h⟩ := h
    simp only [checkProUpRegList, bind_eq_ok] at h
    obtain ⟨_, _, h⟩ := h
    split at h
    · cases h
    · rename_i mn hmn
      simp only [bind_eq_ok] at h
      obtain ⟨_, _, h⟩ := h
      split at h
      · cases h
      · split at h
        · cases h
        · simp only [bind_eq_ok, duplicateUnless, require_eq_ok] at h
          obtain ⟨_, _, _, hother, _, rfl, _⟩ := h
          rw [hkey] at hmn hother
          refine ⟨hasPN_iff.mpr ⟨mn, hmn⟩, ?_, .inr (.inr (not_heldByOther_of_usedByOther hold hother))⟩
          exact (registrarState_addr x.nHeight dmn.pdmnState pl).imp_right .inl
  | revoked pl hty hpl hkey =>
    have h := (check_special h).2.2.2 hty
    simp only [checkProUpRevTx, bind_eq_ok, payloadOrReject_eq_ok, hpl, Option.some.injEq] at h
    obtain ⟨_, rfl, _, _, _, _, _, _, h⟩ := h
    split at h
    · cases h
    · rename_i mn hmn
      rw [hkey] at hmn
      exact ⟨hasPN_iff.mpr ⟨mn, hmn⟩, .inr (.inl (revokedState_addr ..)), .inr (.inl (revokedState_operator ..))⟩

/-! ## Registrations of a chain -/

/-- Transaction ids name transactions: they are collision free and never null. -/
structure TxidsSound (blocks : List CBlock) : Prop where
  inj : ∀ b ∈ blocks, ∀ tx ∈ b.vtx, ∀ b' ∈ blocks, ∀ tx' ∈ b'.vtx, tx.getHash = tx'.getHash → tx = tx'
  ne_zero : ∀ b ∈ blocks, ∀ tx ∈ b.vtx, tx.getHash ≠ 0

theorem TxidsSound.tail (h : TxidsSound (block :: blocks)) : TxidsSound blocks where
  inj b hb tx htx b' hb' := h.inj b (List.mem_cons_of_mem _ hb) tx htx b' (List.mem_cons_of_mem _ hb')
  ne_zero b hb := h.ne_zero b (List.mem_cons_of_mem _ hb)

/-- A registration of one of the blocks has the node's hash, owner key and collateral. -/
def RegisteredIn (blocks : List CBlock) (dmn : CDeterministicPN) : Prop :=
  ∃ block ∈ blocks, ∃ tx ∈ block.nonCoinbase, ∃ pl, tx.nType = TxType.PROREG ∧
    getTxPayload ProRegPL.codec tx = some pl ∧ tx.getHash = dmn.proTxHash ∧
    pl.keyIDOwner = dmn.pdmnState.keyIDOwner ∧ proRegCollateral tx pl = dmn.collateralOutpoint

theorem mem_vtx_of_mem_nonCoinbase (h : tx ∈ block.nonCoinbase) : tx ∈ block.vtx :=
  List.mem_of_mem_drop h

theorem RegisteredIn.mono {blocks blocks' : List CBlock} (hsub : blocks ⊆ blocks')
    (h : RegisteredIn blocks dmn) : RegisteredIn blocks' dmn := by
  obtain ⟨block, hb, rest⟩ := h
  exact ⟨block, hsub hb, rest⟩

theorem BlockSteps.registered (blocks : List CBlock) {l' : CDeterministicPNList D} (h : BlockSteps x l l')
    (hl : RepInv l) (hblock : x.block ∈ blocks)
    (hreg : ∀ (a : uint256) dmn, l.mnMap[a]? = some dmn → RegisteredIn blocks dmn) (a : uint256)
    (dmn : CDeterministicPN) (hm : l'.mnMap[a]? = some dmn) : RegisteredIn blocks dmn := by
  refine BlockSteps.nodes (P := RegisteredIn blocks) (fun tx pl id htx _ => ?_) (fun d st hd hst => ?_) h hl hreg a dmn hm
  · exact ⟨x.block, hblock, tx, htx.1, pl, htx.2.1, htx.2.2, rfl, rfl, rfl⟩
  · obtain ⟨block, hb, tx, htx, pl, hty, hpl, hhash, howner, hcoll⟩ := hd
    exact ⟨block, hb, tx, htx, pl, hty, hpl, hhash, howner.trans hst.owner_eq.symm, hcoll⟩

/-- Every node of a list goes back to a registration in one of the blocks. -/
theorem Chain.registered {pindex : CBlockIndex} (hc : Chain p c blocks pindex l)
    (h : uint256) (dmn : CDeterministicPN) (hm : l.mnMap[h]? = some dmn) : RegisteredIn blocks dmn := by
  induction hc generalizing h dmn with
  | genesis => rw [FinMap.get_empty] at hm; cases hm
  | @connect blocks pindexPrev l old new env block hprev hcount _ hnew ih =>
    have hold := hcount.rep hprev.rep
    rcases process_cases hold hnew with ⟨-, rfl⟩ | ⟨-, new, -, hsteps, -, rfl⟩
    · rw [FinMap.get_empty] at hm; cases hm
    · refine BlockSteps.registered (block :: blocks) hsteps hold.start List.mem_cons_self (fun a d hd => ?_) h dmn hm
      exact (ih a d (hcount.mnMap ▸ hd)).mono (List.subset_cons_self _ _)

/-! ## A block on top of a chain -/

/-- The input of a block whose transactions passed their checks against the list of `blocks`. -/
structure OnChain (x : BlockInput D) (blocks : List CBlock) : Prop where
  rep : RepInv x.oldList
  registered : ∀ (h : uint256) dmn, x.oldList.mnMap[h]? = some dmn → RegisteredIn blocks dmn
  txids : TxidsSound (x.block :: blocks)
  checked : ∀ tx ∈ x.block.vtx, x.check tx = .ok ()

/-- A checked block on a chain supplies all the facts of `OnChain`. -/
theorem Chain.onChain {pindexPrev : CBlockIndex} {old : CDeterministicPNList D} {env : Env}
    (hc : Chain p c blocks pindexPrev l) (hcount : Recount l old) (htxids : TxidsSound (block :: blocks))
    (hchecked : ∀ tx ∈ block.vtx, (⟨p, c, env, block, pindexPrev, old⟩ : BlockInput D).check tx = .ok ()) :
    OnChain ⟨p, c, env, block, pindexPrev, old⟩ blocks :=
  ⟨hcount.rep hc.rep, fun h dmn hm => hc.registered h dmn (hcount.mnMap ▸ hm), htxids, hchecked⟩

theorem proRegCollateral_hash_ne (pl : ProRegPL) (hne : tx.getHash ≠ 0) : (proRegCollateral tx pl).hash ≠ 0 := by
  unfold proRegCollateral
  split
  · exact hne
  · assumption

section OnChain

variable {blocks : List CBlock} (hinj : CollisionFree D) (hx : OnChain x blocks)

include hx in
theorem OnChain.check (htx : tx ∈ x.block.nonCoinbase) : x.check tx = .ok () :=
  hx.checked tx (mem_vtx_of_mem_nonCoinbase htx)

variable {dmn : CDeterministicPN} {l : CDeterministicPNList D}

include hx in
theorem OnChain.payload_of_registered {pl : ProRegPL} (hreg : RegisteredIn (x.block :: blocks) dmn)
    (htx : tx ∈ x.block.nonCoinbase) (hpl : getTxPayload ProRegPL.codec tx = some pl)
    (hhash : tx.getHash = dmn.proTxHash) :
    pl.keyIDOwner = dmn.pdmnState.keyIDOwner ∧ proRegCollateral tx pl = dmn.collateralOutpoint := by
  obtain ⟨block, hb, tx', htx', pl', -, hpl', hhash', howner, hcoll⟩ := hreg
  have : tx = tx' := hx.txids.inj x.block List.mem_cons_self tx (mem_vtx_of_mem_nonCoinbase htx) block hb tx'
    (mem_vtx_of_mem_nonCoinbase htx') (hhash.trans hhash'.symm)
  subst this
  rw [hpl] at hpl'
  cases hpl'
  exact ⟨howner, hcoll⟩

include hinj hx in
/-- A registration that passed its check has a hash no old node has: its owner key would be in use. -/
theorem OnChain.fresh_hash (htx : tx ∈ x.block.nonCoinbase) (hty : tx.nType = TxType.PROREG) :
    x.oldList.mnMap[tx.getHash]? = none := by
  obtain ⟨pl, hc⟩ := check_proReg (hx.check htx) hty
  rw [Option.eq_none_iff_forall_ne_some]
  intro a ha
  have howner := (hx.payload_of_registered ((hx.registered _ a ha).mono (List.subset_cons_self _ _)) htx hc.payload
    (hx.rep.key _ a ha).symm).1
  have hhas := (hx.rep.hasUniqueProperty_iff hinj).mpr ⟨_, a, ha, keyID_mem_properties.mpr (.inl howner.symm),
    fun hn => hc.owner_ne (UniqueProperty.isNull_keyID.mp hn)⟩
  rw [hc.owner_free] at hhas
  cases hhas

/-- Where a node of a list under construction comes from. -/
inductive Origin (x : BlockInput D) (dmn : CDeterministicPN) : Prop
  | kept (old : CDeterministicPN) (hold : x.oldList.mnMap[dmn.proTxHash]? = some old)
      (hnode : dmn = { old with pdmnState := dmn.pdmnState })
      (howner : dmn.pdmnState.keyIDOwner = old.pdmnState.keyIDOwner)
      (haddr : dmn.pdmnState.addr = old.pdmnState.addr ∨ dmn.pdmnState.addr = CService.null ∨
        ¬HeldByOther (MnMap.holdings D x.oldList.mnMap) dmn.proTxHash (.service dmn.pdmnState.addr))
      (hop : dmn.pdmnState.keyIDOperator = old.pdmnState.keyIDOperator ∨ dmn.pdmnState.keyIDOperator = 0 ∨
        ¬HeldByOther (MnMap.holdings D x.oldList.mnMap) dmn.proTxHash (.keyID dmn.pdmnState.keyIDOperator))
  | fresh (tx : CTransaction) (pl : ProRegPL) (id : Nat) (htx : x.HasTx TxType.PROREG ProRegPL.codec tx pl)
      (hnone : x.oldList.mnMap[tx.getHash]? = none) (heq : dmn = newPN x.nHeight id tx pl)

include hx in
theorem OnChain.stateChange (hst : StateChange x dmn st) : UpdateChecked x dmn st := by
  cases hst with
  | confirmed hold => exact ⟨hold, .inl rfl, .inl rfl⟩
  | decreased hold => exact ⟨hold, .inl rfl, .inl rfl⟩
  | updated tx htx hst => exact check_update hx.rep (hx.check htx) hst
  | paid payee hpayee hkey =>
    obtain ⟨⟨a, ha⟩, -⟩ := mem_forEachPN.mp (best_mem hpayee)
    refine ⟨hasPN_iff.mpr ⟨payee, ?_⟩, .inl rfl, .inl rfl⟩
    rw [← hkey, hx.rep.key a payee ha, ha]

include hx in
theorem Origin.change (ho : Origin x dmn) (hst : StateChange x dmn st) :
    Origin x { dmn with pdmnState := st } := by
  have hc := hx.stateChange hst
  cases ho with
  | kept old hold hnode howner haddr hop =>
    refine .kept old hold (by rw [hnode]) (hst.owner_eq.trans howner) ?_ ?_
    · rcases hc.addr with h | h
      · dsimp only; rw [h]; exact haddr
      · exact .inr h
    · rcases hc.operator with h | h
      · dsimp only; rw [h]; exact hop
      · exact .inr h
  | fresh tx pl id htx hnone heq =>
    obtain ⟨a, ha⟩ := hasPN_iff.mp hc.target
    rw [heq, show (newPN x.nHeight id tx pl).proTxHash = tx.getHash from rfl, hnone] at ha
    cases ha

include hinj hx in
/-- While a block is applied, each node is one of the old list or registered in the block. -/
theorem BlockSteps.origin (h : BlockSteps x x.start l) (a : uint256) (dmn : CDeterministicPN)
    (hm : l.mnMap[a]? = some dmn) : Origin x dmn := by
  refine BlockSteps.nodes (P := Origin x) (fun tx pl id htx _ => ?_) (fun d st hd hst => hd.change hx hst) h
    hx.rep.start (fun a d hd => ?_) a dmn hm
  · exact .fresh tx pl id htx (hx.fresh_hash hinj htx.1 htx.2.1) rfl
  · have hd : x.oldList.mnMap[a]? = some d := hd
    obtain rfl := hx.rep.key a d hd
    exact .kept d hd rfl rfl (.inl rfl) (.inl rfl)

include hinj hx in
theorem BlockSteps.node_of_old (h : BlockSteps x x.start l) {a : uint256} {old : CDeterministicPN}
    (hold : x.oldList.mnMap[a]? = some old) (hm : l.mnMap[a]? = some dmn) :
    dmn = { old with pdmnState := dmn.pdmnState } := by
  have hkey := (BlockSteps.rep h hx.rep.start).key a dmn hm
  cases BlockSteps.origin hinj hx h a dmn hm with
  | kept old' hold' hnode =>
    rw [hkey, hold] at hold'
    cases hold'
    exact hnode
  | fresh tx pl id _ hnone heq =>
    rw [heq] at hkey
    rw [show tx.getHash = a from hkey, hold] at hnone
    cases hnone

end OnChain

end TrumpCoin
