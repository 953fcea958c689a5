import TrumpCoin.Evo.Rotation

/-!
# The list of a block is determined

`BuildNewListFromBlock` iterates hash maps, whose order differs between nodes and between runs of one node, and looks
up coins and spork values. The list it returns is a function of the old list and the block (`process_determined`).
-/

namespace TrumpCoin

open Lib

variable {D : Type} [Digest D] {l l' l₁ l₂ : CDeterministicPNList D}

structure SameHeader (l t : CDeterministicPNList D) : Prop where
  rep : RepInv t
  count : t.nTotalRegisteredCount = l.nTotalRegisteredCount
  blockHash : t.blockHash = l.blockHash
  nHeight : t.nHeight = l.nHeight

theorem SameHeader.refl (hl : RepInv l) : SameHeader l l := ⟨hl, rfl, rfl, rfl⟩

theorem SameHeader.ext (h₁ : SameHeader l l₁) (h₂ : SameHeader l l₂)
    (hmap : ∀ a : uint256, l₁.mnMap[a]? = l₂.mnMap[a]?) : l₁ = l₂ :=
  h₁.rep.ext h₂.rep (FinMap.ext_get hmap) (h₁.count.trans h₂.count.symm) (h₁.blockHash.trans h₂.blockHash.symm)
    (h₁.nHeight.trans h₂.nHeight.symm)

variable {t : CDeterministicPNList D}

theorem updatePNByHash_get {a : uint256} {st : CDeterministicPNState}
    (ht : SameHeader l t) (howner : st.keyIDOwner ≠ 0) (h : t.updatePNByHash a st = .ok l') :
    SameHeader l l' ∧ l'.mnMap[a]? = (t.mnMap[a]?).map (fun d => { d with pdmnState := st }) ∧
      ∀ k : uint256, k ≠ a → l'.mnMap[k]? = t.mnMap[k]? := by
  unfold CDeterministicPNList.updatePNByHash at h
  split at h
  · cases h
  · rename_i old hold
    obtain rfl := ht.rep.key a old hold
    have hb := (updatePN_outcome ht.rep hold howner).of_ok h
    refine ⟨⟨hb.rep, hb.count.trans ht.count, hb.blockHash.trans ht.blockHash, hb.nHeight.trans ht.nHeight⟩, ?_,
      fun k hk => ?_⟩
    · rw [hb.mnMap, FinMap.get_insert_self, hold]
      rfl
    · rw [hb.mnMap, FinMap.get_insert_ne _ _ (Ne.symm hk)]

section Orders

variable {p : CChainParams} {c : Crypto} {env env' : Env} {pindexPrev : CBlockIndex} {old : CDeterministicPNList D}

theorem forEachPN_perm (order order' : MapOrder) (onlyValid : Bool) :
    (l.forEachPN order onlyValid).Perm (l.forEachPN order' onlyValid) :=
  ((order.perm l.mnMap).trans (order'.perm l.mnMap).symm).filter _

variable (p c pindexPrev) in
/-- What the confirmation loop does to the entry of the node `d`. -/
def confirmEntry (d : CDeterministicPN) (v : Option CDeterministicPN) : Option CDeterministicPN :=
  if d.pdmnState.confirmedHash ≠ 0 then v
  else if p.patriotnodeCollateralMinConf ≤ pindexPrev.nHeight - d.pdmnState.nRegisteredHeight then
    v.map fun e =>
      { e with pdmnState := d.pdmnState.updateConfirmedHash c.sha256 d.proTxHash pindexPrev.getBlockHash }
  else v

theorem confirmPN_get {d : CDeterministicPN} (ht : SameHeader l t)
    (howner : d.pdmnState.keyIDOwner ≠ 0) (h : confirmPN p c pindexPrev t d = .ok l') :
    SameHeader l l' ∧ l'.mnMap[d.proTxHash]? = confirmEntry p c pindexPrev d (t.mnMap[d.proTxHash]?) ∧
      ∀ k : uint256, k ≠ d.proTxHash → l'.mnMap[k]? = t.mnMap[k]? := by
  unfold confirmPN at h
  unfold confirmEntry
  split at h
  · rename_i hconf
    cases h
    exact ⟨ht, by rw [if_pos hconf], fun _ _ => rfl⟩
  · rename_i hconf
    rw [if_neg hconf]
    split_ifs at h with hdeep
    · rw [if_pos hdeep]
      exact updatePNByHash_get ht howner h
    · cases h
      exact ⟨ht, by rw [if_neg hdeep], fun _ _ => rfl⟩

theorem confirmPNs_determined (hold : RepInv old) (hl : RepInv l)
    (h₁ : confirmPNs p c env pindexPrev old l = .ok l₁) (h₂ : confirmPNs p c env' pindexPrev old l = .ok l₂) :
    l₁ = l₂ := by
  have hmem : ∀ d ∈ old.forEachPN env.order false, ∃ h : uint256, old.mnMap[h]? = some d :=
    fun d hd => (mem_forEachPN.mp hd).1
  have howner : ∀ d ∈ old.forEachPN env.order false, d.pdmnState.keyIDOwner ≠ 0 := fun d hd => by
    obtain ⟨a, ha⟩ := hmem d hd
    exact (hold.node a d ha).owner_ne
  obtain ⟨hs₁, hs₂, hmap⟩ := foldlM_update_perm (fun (t : CDeterministicPNList D) (k : uint256) => t.mnMap[k]?)
    CDeterministicPN.proTxHash (fun d hd t t' ht hs => confirmPN_get ht (howner d hd) hs)
    (nodup_proTxHash hold (nodup_forEachPN hold _ _) hmem) (forEachPN_perm _ _ _) (.refl hl) h₁ h₂
  exact hs₁.ext hs₂ (congrFun hmap)

theorem poSeDecrease_get {a : uint256} (ht : SameHeader l t)
    (h : t.poSeDecrease a = .ok l') :
    SameHeader l l' ∧ l'.mnMap[a]? = (t.mnMap[a]?).map (fun d =>
      { d with pdmnState := { d.pdmnState with nPoSePenalty := d.pdmnState.nPoSePenalty - 1 } }) ∧
      ∀ k : uint256, k ≠ a → l'.mnMap[k]? = t.mnMap[k]? := by
  unfold CDeterministicPNList.poSeDecrease at h
  split at h
  · cases h
  · rename_i d hget
    have hget : t.mnMap[a]? = some d := hget
    obtain ⟨_, -, h⟩ := bind_eq_ok.mp h
    have howner := (ht.rep.node a d hget).owner_ne
    obtain ⟨hsame, hself, hother⟩ := updatePNByHash_get ht (by exact howner) h
    refine ⟨hsame, ?_, hother⟩
    rw [hself, hget]
    rfl

theorem decreasePoSePenalties_determined {order order' : MapOrder} (hl : RepInv l)
    (h₁ : l.decreasePoSePenalties order = .ok l₁) (h₂ : l.decreasePoSePenalties order' = .ok l₂) : l₁ = l₂ := by
  have hmem : ∀ d ∈ (l.forEachPN order true).filter fun dmn : CDeterministicPN =>
      decide (0 < dmn.pdmnState.nPoSePenalty ∧ dmn.pdmnState.nPoSeBanHeight = -1), ∃ h : uint256, l.mnMap[h]? = some d :=
    fun d hd => (mem_forEachPN.mp (List.mem_filter.mp hd).1).1
  have hnodup := nodup_proTxHash hl ((nodup_forEachPN hl order true).filter _) hmem
  obtain ⟨hs₁, hs₂, hmap⟩ := foldlM_update_perm (fun (t : CDeterministicPNList D) (k : uint256) => t.mnMap[k]?) id
    (fun a _ t t' ht hs => poSeDecrease_get ht hs) (by rwa [List.map_id])
    (((forEachPN_perm order order' true).filter _).map _) (.refl hl) h₁ h₂
  exact hs₁.ext hs₂ (congrFun hmap)

/-- Coins and sporks decide whether a special transaction is applied, not what it does. -/
theorem applySpecialTx_determined {nHeight : Int} {tx : CTransaction} (h₁ : applySpecialTx p env nHeight l tx = .ok l₁)
    (h₂ : applySpecialTx p env' nHeight l tx = .ok l₂) : l₁ = l₂ := by
  unfold applySpecialTx at h₁ h₂
  by_cases hreg : tx.nType = TxType.PROREG
  · rw [if_pos hreg] at h₁ h₂
    simp only [applyProReg, bind_eq_ok] at h₁ h₂
    obtain ⟨pl, hpl, _, -, t, ht, _, -, _, -, _, -, h₁⟩ := h₁
    obtain ⟨pl', hpl', _, -, t', ht', _, -, _, -, _, -, h₂⟩ := h₂
    obtain rfl := Except.ok.inj (hpl.symm.trans hpl')
    obtain rfl := Except.ok.inj (ht.symm.trans ht')
    exact Except.ok.inj (h₁.symm.trans h₂)
  · rw [if_neg hreg] at h₁ h₂
    exact Except.ok.inj (h₁.symm.trans h₂)

theorem applySpecialTxs_determined {nHeight : Int} : ∀ {txs : List CTransaction} {l : CDeterministicPNList D},
    txs.foldlM (applySpecialTx p env nHeight) l = .ok l₁ → txs.foldlM (applySpecialTx p env' nHeight) l = .ok l₂ →
    l₁ = l₂
  | [], _, h₁, h₂ => Except.ok.inj (h₁.symm.trans h₂)
  | tx :: txs, l, h₁, h₂ => by
    rw [List.foldlM_cons] at h₁ h₂
    obtain ⟨t, ht, h₁⟩ := bind_eq_ok.mp h₁
    obtain ⟨t', ht', h₂⟩ := bind_eq_ok.mp h₂
    obtain rfl := applySpecialTx_determined ht ht'
    exact applySpecialTxs_determined h₁ h₂

end Orders

variable {x : BlockInput D}

theorem build_determined (hold : RepInv x.oldList) {env : Env} (h₁ : x.build = .ok l₁)
    (h₂ : ({ x with env := env } : BlockInput D).build = .ok l₂) : l₁ = l₂ := by
  obtain ⟨a, b, d, e, ha, hb, hd, he, h₁⟩ := build_eq_ok.mp h₁
  obtain ⟨a', b', d', e', ha', hb', hd', he', h₂⟩ := build_eq_ok.mp h₂
  have hrep := BlockSteps.rep ((confirmPNs_outcome hold).of_ok ha).steps hold.start
  obtain rfl := confirmPNs_determined hold hold.start ha ha'
  obtain rfl := decreasePoSePenalties_determined hrep hb hb'
  obtain rfl := applySpecialTxs_determined hd hd'
  obtain rfl := Except.ok.inj (he.symm.trans he')
  have hpayee : x.oldList.getPNPayee x.env.order = x.oldList.getPNPayee env.order := getPNPayee_order hold _ _
  rw [hpayee] at h₁
  exact Except.ok.inj (h₁.symm.trans h₂)

/-- **The list of a block is a function of the old list and the block.** -/
theorem process_determined (hold : RepInv x.oldList) {env : Env} (h₁ : x.process = .ok l₁)
    (h₂ : ({ x with env := env } : BlockInput D).process = .ok l₂) : l₁ = l₂ := by
  rcases newListOfBlock_eq_ok.mp (process_eq_ok.mp h₁).2 with ⟨hdip, rfl⟩ | ⟨hdip, n₁, hb₁, rfl⟩ <;>
    rcases newListOfBlock_eq_ok.mp (process_eq_ok.mp h₂).2 with ⟨hdip', rfl⟩ | ⟨hdip', n₂, hb₂, rfl⟩
  · rfl
  · exact absurd hdip' (by rw [hdip]; decide)
  · exact absurd hdip (by rw [hdip']; decide)
  · rw [build_determined hold hb₁ hb₂]

end TrumpCoin
