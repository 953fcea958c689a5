import TrumpCoin.Evo.Manager

/-!
# Blocks that lose nothing in storage

A difference says nothing about a node that a block registers and removes again, and the counter of registrations is
rebuilt from the nodes that were added. `Careful` collects what must hold of a block and the list before it so that
storing the difference and, at times, the list loses nothing.

* `build_count`: how far a block moves the counter;
* `Careful.count_eq`: the counter after the difference is the one that the block computed;
* `Careful.operators`: a list that is written can be read back.
-/

namespace TrumpCoin

open Lib

variable {D : Type} [Digest D] {x : BlockInput D} {l l' new : CDeterministicPNList D}

structure Careful (x : BlockInput D) : Prop where
  /-- nodes whose collateral the block uses have an operator key before it -/
  keyed : KeyedBefore x
  /-- the collateral of the last registration is not spent in the block -/
  lastReg : ∀ pre tx post pl, x.block.nonCoinbase = pre ++ tx :: post → (∀ t ∈ post, t.nType ≠ TxType.PROREG) →
    x.HasTx TxType.PROREG ProRegPL.codec tx pl → proRegCollateral tx pl ∉ x.block.prevouts
  /-- the reader of lists accepts that many nodes -/
  count : x.oldList.nTotalRegisteredCount + registrations x.block.nonCoinbase ≤ MAX_SIZE
  /-- where the list is written, no node is without operator key and none is revoked -/
  written : (x.pindexPrev.nHeight + 1) % DISK_SNAPSHOT_PERIOD = 0 ∨ x.oldList.nHeight = -1 →
    (∀ (h : uint256) dmn, x.oldList.mnMap[h]? = some dmn → dmn.pdmnState.keyIDOperator ≠ 0) ∧
      ∀ tx ∈ x.block.nonCoinbase, tx.nType ≠ TxType.PROUPREV

/-! ## The counter -/

variable {tx : CTransaction}

theorem TxStep.count_eq (h : TxStep x tx l l') (hlt : l.nTotalRegisteredCount + 1 < 2 ^ 32) :
    l'.nTotalRegisteredCount = l.nTotalRegisteredCount + if tx.nType = TxType.PROREG then 1 else 0 := by
  cases h with
  | register pl l₁ hty _ _ hrep _ hb =>
    rw [if_pos hty, hb.count, hrep.count, Nat.mod_eq_of_lt hlt]
  | update _ _ _ hst hb => rw [if_neg hst.nType_ne, hb.count, Nat.add_zero]
  | other hty heq => rw [if_neg hty.1, heq, Nat.add_zero]

theorem before_counted (hold : RepInv x.oldList) (hc : Counted x.oldList.nTotalRegisteredCount x.oldList)
    {l₁ l₂ : CDeterministicPNList D} (h₁ : confirmPNs x.p x.c x.env x.pindexPrev x.oldList x.start = .ok l₁)
    (h₂ : l₁.decreasePoSePenalties x.env.order = .ok l₂) :
    RepInv l₂ ∧ Counted l₂.nTotalRegisteredCount l₂ ∧ l₂.nTotalRegisteredCount = x.oldList.nTotalRegisteredCount := by
  have hq := (confirmPNs_outcome hold).of_ok h₁
  have hq := hq.trans ((decreasePoSePenalties_outcome (BlockSteps.rep hq.steps hold.start) fun _ h => hq.hasPN h).of_ok h₂)
  have hcount : l₂.nTotalRegisteredCount = x.oldList.nTotalRegisteredCount := hq.count
  refine ⟨BlockSteps.rep hq.steps hold.start, ?_, hcount⟩
  rw [hcount]
  exact hq.counted ⟨hc.count_le, hc.ids_lt⟩

theorem registrations_append (as bs : List CTransaction) :
    registrations (as ++ bs) = registrations as + registrations bs := List.countP_append

theorem txs_count {txs : List CTransaction} (hl : RepInv l) (hc : Counted l.nTotalRegisteredCount l)
    (hsub : ∀ tx ∈ txs, tx ∈ x.block.nonCoinbase) (hn : l.nTotalRegisteredCount + registrations txs + 1 < 2 ^ 32)
    (h : txs.foldlM (applySpecialTx x.p x.env x.nHeight) l = .ok l') :
    RepInv l' ∧ Counted l'.nTotalRegisteredCount l' ∧
      l'.nTotalRegisteredCount = l.nTotalRegisteredCount + registrations txs := by
  refine foldlM_along (I := fun pre t => RepInv t ∧ Counted t.nTotalRegisteredCount t ∧
    t.nTotalRegisteredCount = l.nTotalRegisteredCount + registrations pre) ?_ ⟨hl, hc, rfl⟩ h
  rintro pre tx post t t' rfl ⟨ht, htc, hcount⟩ hs
  have hstep := (applySpecialTx_outcome ht).of_ok hs
  have hregs := registrations_append pre (tx :: post)
  have hone : registrations (tx :: post) = (if tx.nType = TxType.PROREG then 1 else 0) + registrations post := by
    rw [registrations, List.countP_cons, Nat.add_comm]
    simp [registrations]
  have heq := hstep.count_eq (by omega)
  refine ⟨BlockSteps.rep (hstep.steps (hsub tx (by simp)) ht) ht, ?_, ?_⟩
  · rw [heq]
    exact hstep.counted htc (by omega)
  · rw [registrations_concat]
    omega

/-- **The counter.** A block adds one for every registration. -/
theorem build_count (hinj : CollisionFree D) (hold : RepInv x.oldList)
    (hc : Counted x.oldList.nTotalRegisteredCount x.oldList)
    (hn : x.oldList.nTotalRegisteredCount + registrations x.block.nonCoinbase + 1 < 2 ^ 32) (h : x.build = .ok new) :
    Counted new.nTotalRegisteredCount new ∧
      new.nTotalRegisteredCount = x.oldList.nTotalRegisteredCount + registrations x.block.nonCoinbase := by
  obtain ⟨l₁, l₂, l₃, l₄, h₁, h₂, h₃, h₄, h₅⟩ := build_eq_ok.mp h
  obtain ⟨hrep₂, hc₂, hcount₂⟩ := before_counted hold hc h₁ h₂
  obtain ⟨hrep₃, hc₃, hcount₃⟩ := txs_count hrep₂ hc₂ (fun _ h => h) (by omega) h₃
  have hr := (removeSpentCollaterals_outcome hinj hrep₃ x.block).of_ok h₄
  have hq₅ := (markPaid_outcome hr.rep).of_ok h₅
  have hc₄ : Counted l₄.nTotalRegisteredCount l₄ := by
    refine ⟨Nat.le_refl _, fun a dmn hm => ?_⟩
    rw [hr.count]
    exact hc₃.ids_lt a dmn ((hr.nodes a dmn).mp hm).1
  have hcount : new.nTotalRegisteredCount = l₄.nTotalRegisteredCount := hq₅.count
  refine ⟨?_, ?_⟩
  · rw [hcount]
    exact hq₅.counted hc₄
  · rw [hcount, hr.count, hcount₃, hcount₂]

/-! ## The last registration -/

/-- The list has the node that `tx` registered, with the last id given out. -/
def HasLast (o : COutPoint) (h : uint256) (l : CDeterministicPNList D) : Prop :=
  ∃ d : CDeterministicPN, l.mnMap[h]? = some d ∧ d.collateralOutpoint = o ∧ d.internalId + 1 = l.nTotalRegisteredCount

theorem TxStep.hasLast_of_register {pl : ProRegPL} (h : TxStep x tx l l') (hty : tx.nType = TxType.PROREG)
    (hpl : getTxPayload ProRegPL.codec tx = some pl) (hlt : l.nTotalRegisteredCount + 1 < 2 ^ 32) :
    HasLast (proRegCollateral tx pl) tx.getHash l' := by
  cases h with
  | register pl' l₁ _ hpl' _ hrep _ hb =>
    rw [hpl] at hpl'
    cases hpl'
    refine ⟨_, by rw [hb.mnMap, FinMap.get_insert_self], rfl, ?_⟩
    rw [hb.count, Nat.mod_eq_of_lt (by rw [hrep.count]; exact hlt)]
    rfl
  | update _ _ _ hst => exact (hst.nType_ne hty).elim
  | other hne => exact (hne.1 hty).elim

theorem TxStep.hasLast {o : COutPoint} {a : uint256} (h : TxStep x tx l l') (hty : tx.nType ≠ TxType.PROREG)
    (hlast : HasLast o a l) : HasLast o a l' := by
  cases h with
  | register _ _ h => exact (hty h).elim
  | update dmn st hm hst hb =>
    obtain ⟨d, hd, hcoll, hid⟩ := hlast
    unfold HasLast
    rw [hb.count, hb.mnMap, FinMap.get_insert]
    split_ifs with heq
    · rw [← heq, hm] at hd
      cases hd
      exact ⟨_, rfl, hcoll, hid⟩
    · exact ⟨d, hd, hcoll, hid⟩
  | other _ heq => rw [heq]; exact hlast

theorem QuietSteps.hasLast {o : COutPoint} {a : uint256} (h : QuietSteps x l l') (hlast : HasLast o a l) :
    HasLast o a l' := by
  obtain ⟨d, hd, hcoll, hid⟩ := hlast
  obtain ⟨b, hb⟩ := hasPN_iff.mp (h.keeps a (hasPN_iff.mpr ⟨d, hd⟩))
  obtain ⟨d', hd', hs⟩ := h.nodes a b hb
  rw [hd] at hd'
  cases hd'
  refine ⟨b, hb, ?_, ?_⟩
  · rw [hs.node]
    exact hcoll
  · rw [hs.node, h.count]
    exact hid

theorem build_hasLast (hinj : CollisionFree D) (hold : RepInv x.oldList)
    (hc : Counted x.oldList.nTotalRegisteredCount x.oldList)
    (hn : x.oldList.nTotalRegisteredCount + registrations x.block.nonCoinbase + 1 < 2 ^ 32) (h : x.build = .ok new)
    {pre post : List CTransaction} {pl : ProRegPL} (hsplit : x.block.nonCoinbase = pre ++ tx :: post)
    (hpost : ∀ t ∈ post, t.nType ≠ TxType.PROREG) (hty : tx.nType = TxType.PROREG)
    (hpl : getTxPayload ProRegPL.codec tx = some pl) (hunspent : proRegCollateral tx pl ∉ x.block.prevouts) :
    HasLast (proRegCollateral tx pl) tx.getHash new := by
  obtain ⟨l₁, l₂, l₃, l₄, h₁, h₂, h₃, h₄, h₅⟩ := build_eq_ok.mp h
  obtain ⟨hrep₂, hc₂, hcount₂⟩ := before_counted hold hc h₁ h₂
  have hsub : ∀ t ∈ pre ++ tx :: post, t ∈ x.block.nonCoinbase := fun t ht => hsplit ▸ ht
  have hregs := registrations_append pre (tx :: post)
  rw [hsplit] at h₃ hn
  obtain ⟨t, t', hpre, hstep, hrest⟩ := foldlM_split h₃
  obtain ⟨hrep, -, hcount⟩ := txs_count hrep₂ hc₂ (fun s hs => hsub s (List.mem_append_left _ hs)) (by omega) hpre
  have htx := (applySpecialTx_outcome hrep).of_ok hstep
  have hrep' := BlockSteps.rep (htx.steps (hsub tx (by simp)) hrep) hrep
  have hl₃ : RepInv l₃ ∧ HasLast (proRegCollateral tx pl) tx.getHash l₃ := by
    refine foldlM_inv (I := fun u => RepInv u ∧ HasLast (proRegCollateral tx pl) tx.getHash u)
      (fun s hs u u' hu hstep => ?_) ⟨hrep', htx.hasLast_of_register hty hpl (by omega)⟩ hrest
    have hus := (applySpecialTx_outcome hu.1).of_ok hstep
    exact ⟨BlockSteps.rep (hus.steps (hsub s (by simp [hs])) hu.1) hu.1, hus.hasLast (hpost s hs) hu.2⟩
  have hr := (removeSpentCollaterals_outcome hinj hl₃.1 x.block).of_ok h₄
  obtain ⟨d, hd, hcoll, hid⟩ := hl₃.2
  refine ((markPaid_outcome hr.rep).of_ok h₅).hasLast ⟨d, (hr.nodes _ d).mpr ⟨hd, ?_⟩, hcoll, ?_⟩
  · rw [hcoll]
    exact hunspent
  · rw [hr.count]
    exact hid

/-! ## The counter after a difference -/

theorem countAfter_eq {n : Nat} (hn : n < 2 ^ 32) : ∀ {ds : List CDeterministicPN} {count : Nat}, count ≤ n →
    (∀ d ∈ ds, d.internalId < n) → (count = n ∨ ∃ d ∈ ds, d.internalId + 1 = n) → countAfter true count ds = n
  | [], count, _, _, h => h.resolve_right nofun
  | d :: ds, count, hle, hlt, h => by
    rw [List.forall_mem_cons] at hlt
    have hmod : max (d.internalId + 1) count % 2 ^ 32 = max (d.internalId + 1) count := Nat.mod_eq_of_lt (by omega)
    show countAfter true (max (d.internalId + 1) count % 2 ^ 32) ds = n
    rw [hmod]
    refine countAfter_eq hn (by omega) hlt.2 ?_
    rcases h with rfl | ⟨e, he, hid⟩
    · exact .inl (by omega)
    · rcases List.mem_cons.mp he with rfl | he
      · exact .inl (by omega)
      · exact .inr ⟨e, he, hid⟩

theorem maxSize_lt : MAX_SIZE + 1 < 2 ^ 32 := by decide

section OnChain

variable {blocks : List CBlock} (hinj : CollisionFree D) (hx : OnChain x blocks)

include hinj hx in
/-- **The counter survives the difference** of a careful block. -/
theorem Careful.count_eq (hcare : Careful x) (hc : Counted x.oldList.nTotalRegisteredCount x.oldList)
    (h : x.build = .ok new) {d : CDeterministicPNListDiff} (hd : IsDiff x.oldList new d) :
    countAfter true x.oldList.nTotalRegisteredCount d.addedPNs = new.nTotalRegisteredCount := by
  have hmax := maxSize_lt
  have hle := hcare.count
  have hn : x.oldList.nTotalRegisteredCount + registrations x.block.nonCoinbase + 1 < 2 ^ 32 := by omega
  obtain ⟨hcnew, hcount⟩ := build_count hinj hx.rep hc hn h
  have hsteps := build_steps hx.rep h
  have hrep := BlockSteps.rep hsteps hx.rep.start
  refine countAfter_eq (by omega) (by omega) (fun b hb => ?_) ?_
  · exact hcnew.ids_lt _ b ((mem_addedNodes hrep).mp (hd.added.mem_iff.mp hb)).1
  · by_cases hany : ∃ tx ∈ x.block.nonCoinbase, tx.nType = TxType.PROREG
    · -- the last registration is the first from the end
      have hrev : ∃ tx ∈ x.block.nonCoinbase.reverse, tx.nType = TxType.PROREG := by simpa using hany
      obtain ⟨post, tx, pre, heq, hpost, hty⟩ := exists_first hrev
      have hsplit : x.block.nonCoinbase = pre.reverse ++ tx :: post.reverse := by
        rw [← List.reverse_reverse x.block.nonCoinbase, heq]
        simp
      have hpost : ∀ t ∈ post.reverse, t.nType ≠ TxType.PROREG := by simpa using hpost
      have htx : tx ∈ x.block.nonCoinbase := by rw [hsplit]; simp
      obtain ⟨pl, hc'⟩ := check_proReg (hx.check htx) hty
      have hlast := build_hasLast hinj hx.rep hc hn h hsplit hpost hty hc'.payload
        (hcare.lastReg _ tx _ pl hsplit hpost ⟨htx, hty, hc'.payload⟩)
      obtain ⟨b, hb, -, hid⟩ := hlast
      refine .inr ⟨b, hd.added.mem_iff.mpr ((mem_addedNodes hrep).mpr ⟨?_, ?_⟩), hid⟩
      · rw [hrep.key _ b hb]
        exact hb
      · rw [hrep.key _ b hb]
        exact hx.fresh_hash hinj htx hty
    · have hzero : registrations x.block.nonCoinbase = 0 := by
        rw [registrations, List.countP_eq_zero]
        simpa using hany
      exact .inl (by omega)

/-! ## Reading back -/

include hx in
theorem registrar_key_ne {tx : CTransaction} {pl : ProUpRegPL} (htx : tx ∈ x.block.nonCoinbase)
    (hty : tx.nType = TxType.PROUPREG) (hpl : getTxPayload ProUpRegPL.codec tx = some pl) : pl.keyIDOperator ≠ 0 := by
  have h := (check_special (hx.check htx)).2.2.1 hty
  simp only [checkProUpRegTx, bind_eq_ok, payloadOrReject_eq_ok, hpl, Option.some.injEq] at h
  obtain ⟨_, rfl, dest, hfields, -⟩ := h
  simp only [checkProUpRegFields, bind_eq_ok, invalidUnless, require_eq_ok] at hfields
  obtain ⟨_, -, _, -, _, hne, -⟩ := hfields
  exact hne

include hx in
theorem Careful.operators (hcare : Careful x)
    (hwrite : (x.pindexPrev.nHeight + 1) % DISK_SNAPSHOT_PERIOD = 0 ∨ x.oldList.nHeight = -1) (h : x.build = .ok new) :
    ∀ (a : uint256) dmn, new.mnMap[a]? = some dmn → dmn.pdmnState.keyIDOperator ≠ 0 := by
  obtain ⟨hold, hrev⟩ := hcare.written hwrite
  refine (build_steps hx.rep h).invariant (I := fun l => ∀ (a : uint256) dmn, l.mnMap[a]? = some dmn →
    dmn.pdmnState.keyIDOperator ≠ 0) (fun t t' _ ht hstep => ?_) hx.rep.start hold
  cases hstep with
  | register tx pl htx _ hadd hb =>
    rw [hb.mnMap]
    exact FinMap.forall_insert ht hadd.operator_ne
  | update b old st hold hst hb =>
    rw [hb.mnMap]
    refine FinMap.forall_insert ht ?_
    have hne := ht b old hold
    cases hst with
    | confirmed => exact hne
    | decreased => exact hne
    | paid => exact hne
    | updated tx htx hupd =>
      cases hupd with
        | service pl => simpa using hne
        | registrar pl hty hpl => simpa using registrar_key_ne hx htx hty hpl
        | revoked pl hty => exact (hrev tx htx hty).elim
  | remove b _ _ _ _ hb =>
    rw [hb.mnMap]
    exact FinMap.forall_erase ht

end OnChain

end TrumpCoin
