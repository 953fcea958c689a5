import TrumpCoin.Evo.Origin

/-!
# Building a list without failing assertions

`BuildNewListFromBlock` may reject a block; it must not throw or reach a failing assertion. `RemovePN` deletes the
operator key of the node it removes, and a revocation leaves that key null, so removing a revoked node fails an
assertion. `KeyedRemovals` says of a block and the list before it that this does not happen;
`build_error_isReject` says that nothing else can go wrong.
-/

namespace TrumpCoin

open Lib

variable {D : Type} [Digest D] {x : BlockInput D} {tx : CTransaction} {l l' : CDeterministicPNList D}

/-! ## The operator key of a node within a block -/

/-- The operator key `tx` gives to the node `h`, if it sets one. -/
def operatorKeySet (h : uint256) (tx : CTransaction) : Option CKeyID :=
  if tx.nType = TxType.PROUPREG then
    (getTxPayload ProUpRegPL.codec tx).bind fun pl => if pl.proTxHash = h then some pl.keyIDOperator else none
  else if tx.nType = TxType.PROUPREV then
    (getTxPayload ProUpRevPL.codec tx).bind fun pl => if pl.proTxHash = h then some 0 else none
  else none

/-- The operator key of the node `h` after some transactions, from `key` before them. -/
def operatorKeyAfter (h : uint256) (key : CKeyID) (txs : List CTransaction) : CKeyID :=
  txs.foldl (fun key tx => (operatorKeySet h tx).getD key) key

theorem operatorKeyAfter_concat (h : uint256) (key : CKeyID) (txs : List CTransaction) (tx : CTransaction) :
    operatorKeyAfter h key (txs ++ [tx]) = (operatorKeySet h tx).getD (operatorKeyAfter h key txs) := by
  simp only [operatorKeyAfter, List.foldl_append, List.foldl_cons, List.foldl_nil]

/-- Every old node whose collateral a registration among `txs` uses has an operator key before it. -/
def KeyedReplacements (x : BlockInput D) (txs : List CTransaction) : Prop :=
  ∀ pre tx post pl, txs = pre ++ tx :: post → tx.nType = TxType.PROREG →
    getTxPayload ProRegPL.codec tx = some pl → ∀ (h : uint256) dmn, x.oldList.mnMap[h]? = some dmn →
    dmn.collateralOutpoint = proRegCollateral tx pl → operatorKeyAfter h dmn.pdmnState.keyIDOperator pre ≠ 0

/-- Every old node that the block replaces or whose collateral it spends has an operator key at that point. -/
structure KeyedRemovals (x : BlockInput D) : Prop where
  replaced : KeyedReplacements x x.block.nonCoinbase
  spent : ∀ (h : uint256) dmn, x.oldList.mnMap[h]? = some dmn → dmn.collateralOutpoint ∈ x.block.prevouts →
    operatorKeyAfter h dmn.pdmnState.keyIDOperator x.block.nonCoinbase ≠ 0

theorem operatorKeySet_of_ne (h : uint256) (hreg : tx.nType ≠ TxType.PROUPREG) (hrev : tx.nType ≠ TxType.PROUPREV) :
    operatorKeySet h tx = none := by
  rw [operatorKeySet, if_neg hreg, if_neg hrev]

variable {dmn : CDeterministicPN} {nHeight : Int} {st : CDeterministicPNState} {n : Nat}

theorem UpdatedBy.operator_eq (h : UpdatedBy nHeight tx dmn st) :
    st.keyIDOperator = (operatorKeySet dmn.proTxHash tx).getD dmn.pdmnState.keyIDOperator := by
  cases h with
  | service pl hty hpl hkey =>
    rw [operatorKeySet_of_ne _ (by rw [hty]; decide) (by rw [hty]; decide), serviceState_operator]; rfl
  | registrar pl hty hpl hkey => simp [operatorKeySet, hty, hpl, hkey]
  | revoked pl hty hpl hkey =>
    rw [operatorKeySet, if_neg (by rw [hty]; decide), if_pos hty]
    simp [hpl, hkey]

variable {a : uint256}

theorem UpdatedBy.operatorKeySet_ne (h : UpdatedBy nHeight tx dmn st) (hne : a ≠ dmn.proTxHash) :
    operatorKeySet a tx = none := by
  cases h with
  | service pl hty hpl hkey => exact operatorKeySet_of_ne _ (by rw [hty]; decide) (by rw [hty]; decide)
  | registrar pl hty hpl hkey => simp [operatorKeySet, hty, hpl, hkey, hne.symm]
  | revoked pl hty hpl hkey =>
    rw [operatorKeySet, if_neg (by rw [hty]; decide), if_pos hty]
    simp [hpl, hkey, hne.symm]

/-- The operator key of a node after the transactions `pre`: an old node has the last one set, a node of this block
has one. -/
def OperatorTracked (x : BlockInput D) (pre : List CTransaction) (dmn : CDeterministicPN) : Prop :=
  (∃ old : CDeterministicPN, x.oldList.mnMap[dmn.proTxHash]? = some old ∧
    dmn.pdmnState.keyIDOperator = operatorKeyAfter dmn.proTxHash old.pdmnState.keyIDOperator pre) ∨
  (x.oldList.mnMap[dmn.proTxHash]? = none ∧ dmn.pdmnState.keyIDOperator ≠ 0)

theorem OperatorTracked.skip {pre : List CTransaction} (h : OperatorTracked x pre dmn)
    (hnone : operatorKeySet dmn.proTxHash tx = none) : OperatorTracked x (pre ++ [tx]) dmn := by
  rcases h with ⟨old, hold, hop⟩ | h
  · exact .inl ⟨old, hold, by rw [operatorKeyAfter_concat, hnone]; exact hop⟩
  · exact .inr h

variable {l₁ : CDeterministicPNList D}

theorem Replaced.get {o : COutPoint} (h : Replaced l l₁ o)
    (hm : l₁.mnMap[a]? = some dmn) : l.mnMap[a]? = some dmn := by
  cases h with
  | unused _ heq => exact heq ▸ hm
  | removed _ _ _ hb =>
    rw [hb.mnMap] at hm
    exact FinMap.forall_erase (fun _ _ h => h) a dmn hm

/-! ## The counter -/

def registrations (txs : List CTransaction) : Nat := txs.countP fun tx => tx.nType = TxType.PROREG

def totalRegistrations (blocks : List CBlock) : Nat := (blocks.map fun b => registrations b.nonCoinbase).sum

/-- The counter is at most `n` and above every id in use. -/
structure Counted (n : Nat) (l : CDeterministicPNList D) : Prop where
  count_le : l.nTotalRegisteredCount ≤ n
  ids_lt : ∀ (h : uint256) dmn, l.mnMap[h]? = some dmn → dmn.internalId < l.nTotalRegisteredCount

theorem registrations_concat (txs : List CTransaction) (tx : CTransaction) :
    registrations (txs ++ [tx]) = registrations txs + if tx.nType = TxType.PROREG then 1 else 0 := by
  simp [registrations, List.countP_append, List.countP_singleton]

theorem UpdatedBy.nType_ne (h : UpdatedBy nHeight tx dmn st) : tx.nType ≠ TxType.PROREG := by
  cases h with
  | service _ hty => rw [hty]; decide
  | registrar _ hty => rw [hty]; decide
  | revoked _ hty => rw [hty]; decide

theorem QuietSteps.counted (h : QuietSteps x l l') (hl : Counted n l) : Counted n l' where
  count_le := h.count ▸ hl.count_le
  ids_lt a b hb := by
    obtain ⟨b', hb', hs⟩ := h.nodes a b hb
    rw [h.count, hs.node]
    exact hl.ids_lt a b' hb'

theorem TxStep.counted (h : TxStep x tx l l') (hl : Counted n l)
    (hn : (n + if tx.nType = TxType.PROREG then 1 else 0) < 2 ^ 32) :
    Counted (n + if tx.nType = TxType.PROREG then 1 else 0) l' := by
  cases h with
  | register pl l₁ hty hpl _ hrep _ hb =>
    have hle := hl.count_le
    rw [if_pos hty] at hn ⊢
    have hcount : l'.nTotalRegisteredCount = l.nTotalRegisteredCount + 1 := by
      rw [hb.count, hrep.count]
      omega
    refine ⟨by omega, ?_⟩
    rw [hb.mnMap]
    refine FinMap.forall_insert (fun a dmn hm => ?_) ?_
    · have := hl.ids_lt a dmn (hrep.get hm)
      omega
    · rw [hcount, ← hrep.count]
      exact Nat.lt_succ_self _
  | update old st hold hst hb =>
    rw [if_neg hst.nType_ne]
    refine ⟨hb.count ▸ hl.count_le, ?_⟩
    rw [hb.mnMap, hb.count]
    exact FinMap.forall_insert hl.ids_lt (hl.ids_lt _ old hold)
  | other hty heq => rw [if_neg hty.1, heq]; exact hl

section OnChain

variable {blocks : List CBlock} (hinj : CollisionFree D) (hx : OnChain x blocks)
variable {n : Nat} {pre : List CTransaction}

include hinj hx in
theorem TxStep.tracked (h : TxStep x tx l l') (htx : tx ∈ x.block.nonCoinbase) (hl : RepInv l)
    (hkeys : ∀ (a : uint256) dmn, l.mnMap[a]? = some dmn → OperatorTracked x pre dmn) (a : uint256)
    (dmn : CDeterministicPN) (hm : l'.mnMap[a]? = some dmn) : OperatorTracked x (pre ++ [tx]) dmn := by
  cases h with
  | register pl l₁ hty hpl _ hrep _ hb =>
    rw [hb.mnMap, FinMap.get_insert] at hm
    split at hm
    · cases hm
      obtain ⟨pl', hc⟩ := check_proReg (hx.check htx) hty
      obtain rfl : pl = pl' := Option.some.inj (hpl.symm.trans hc.payload)
      exact .inr ⟨hx.fresh_hash hinj htx hty, hc.operator_ne⟩
    · exact (hkeys a dmn (hrep.get hm)).skip
        (operatorKeySet_of_ne _ (by rw [hty]; decide) (by rw [hty]; decide))
  | update old st hold hst hb =>
    rw [hb.mnMap, FinMap.get_insert] at hm
    split_ifs at hm with hne
    · cases hm
      have htarget := (check_update hx.rep (hx.check htx) hst).target
      rcases hkeys _ old hold with ⟨old', hold', hop⟩ | ⟨hnone, -⟩
      · exact .inl ⟨old', hold', by rw [operatorKeyAfter_concat, ← hop]; exact hst.operator_eq⟩
      · obtain ⟨old', hold'⟩ := hasPN_iff.mp htarget
        rw [hnone] at hold'
        cases hold'
    · refine (hkeys a dmn hm).skip (hst.operatorKeySet_ne ?_)
      rw [hl.key a dmn hm]
      exact Ne.symm hne
  | other hty heq =>
    rw [heq] at hm
    exact (hkeys a dmn hm).skip (operatorKeySet_of_ne _ hty.2.2.1 hty.2.2.2)

/-! ## The transaction loop -/

/-- What holds of the list after the transactions `pre`, where `n` registrations came before the block. -/
structure TxLoop (x : BlockInput D) (n : Nat) (pre : List CTransaction) (l : CDeterministicPNList D) : Prop where
  steps : BlockSteps x x.start l
  counted : Counted (n + registrations pre) l
  tracked : ∀ (a : uint256) dmn, l.mnMap[a]? = some dmn → OperatorTracked x pre dmn
  gone : ∀ (a : uint256) old, x.oldList.mnMap[a]? = some old → l.mnMap[a]? = none →
    operatorKeyAfter a old.pdmnState.keyIDOperator pre ≠ 0
  replaced : KeyedReplacements x pre

theorem Replaced.collateral_free (hinj : CollisionFree D) {o : COutPoint} (h : Replaced l l₁ o) (hl : RepInv l) :
    l₁.hasUniqueProperty (.outpoint o) = false := by
  rw [← Bool.not_eq_true, (h.rep hl).hasUniqueProperty_iff hinj]
  rintro ⟨a, dmn, hm, hv, -⟩
  have hm' := h.get hm
  have hcoll := outpoint_mem_properties.mp hv
  have hkey := hl.key a dmn hm'
  have hfound : l.getPNByCollateral o = some dmn := (hl.getPNByCollateral_iff hinj).mpr ⟨hkey ▸ hm', hcoll⟩
  cases h with
  | unused hget _ => rw [hget] at hfound; cases hfound
  | removed dmn' hget _ hb =>
    rw [hget] at hfound
    cases hfound
    rw [hb.mnMap, ← hkey, FinMap.get_erase_self] at hm
    cases hm

section

variable (h : TxLoop x n pre l)
include h

include hinj hx in
/-- The node of a checked registration can be added once the duplicate checks of the loop passed. -/
theorem TxLoop.addable {pl : ProRegPL} (hn : n + registrations pre < 2 ^ 32) (htx : tx ∈ x.block.nonCoinbase)
    (hc : ProRegChecked x tx pl) (hrep : Replaced l l₁ (proRegCollateral tx pl))
    (haddr : l₁.hasUniqueProperty (.service pl.addr) = false)
    (howner : l₁.hasUniqueProperty (.keyID pl.keyIDOwner) = false)
    (hoperator : l₁.hasUniqueProperty (.keyID pl.keyIDOperator) = false) :
    Addable l₁ (newPN x.nHeight l₁.nTotalRegisteredCount tx pl) := by
  have hl := BlockSteps.rep h.steps hx.rep.start
  have hl₁ := hrep.rep hl
  have hreg := BlockSteps.registered (x.block :: blocks) h.steps hx.rep.start List.mem_cons_self fun a d hd =>
    (hx.registered a d hd).mono (List.subset_cons_self _ _)
  have hcount := h.counted.count_le
  have hne := hx.txids.ne_zero x.block List.mem_cons_self tx (mem_vtx_of_mem_nonCoinbase htx)
  refine ⟨?_, ?_, ⟨?_, ?_, hc.owner_ne⟩, hc.operator_ne, ?_⟩
  · -- a node with this hash would have the same owner key
    rw [Option.eq_none_iff_forall_ne_some]
    intro d (hd : l₁.mnMap[tx.getHash]? = some d)
    have hsame := (hx.payload_of_registered (hreg _ d (hrep.get hd)) htx hc.payload (hl₁.key _ d hd).symm).1
    have hhas := (hl₁.hasUniqueProperty_iff hinj).mpr ⟨_, d, hd, keyID_mem_properties.mpr (.inl hsame.symm),
      fun hn => hc.owner_ne (UniqueProperty.isNull_keyID.mp hn)⟩
    rw [howner] at hhas
    cases hhas
  · rw [Option.eq_none_iff_forall_ne_some]
    intro a ha
    obtain ⟨d, hd, hid⟩ := (hl₁.ids _ a).mp ha
    have := h.counted.ids_lt a d (hrep.get hd)
    rw [hid, ← hrep.count] at this
    exact Nat.lt_irrefl _ this
  · show l₁.nTotalRegisteredCount ≠ 2 ^ 64 - 1
    rw [hrep.count]
    omega
  · intro hnull
    exact proRegCollateral_hash_ne pl hne (congrArg COutPoint.hash hnull)
  · intro v hv
    simp only [CDeterministicPN.properties, List.mem_cons, List.not_mem_nil, or_false] at hv
    rcases hv with rfl | rfl | rfl | rfl
    · exact hrep.collateral_free hinj hl
    · exact haddr
    · exact howner
    · exact hoperator

include hinj hx in
theorem TxLoop.no_hazard {post : List CTransaction} (hn : n + registrations pre < 2 ^ 32)
    (hsplit : x.block.nonCoinbase = pre ++ tx :: post) (hty : tx.nType = TxType.PROREG) (hkeyed : KeyedRemovals x) :
    ¬RegistrationHazard x tx l := by
  have hl := BlockSteps.rep h.steps hx.rep.start
  have htx : tx ∈ x.block.nonCoinbase := by rw [hsplit]; simp
  rintro (⟨pl, dmn, hpl, hget, hop⟩ | ⟨pl, l₁, hpl, hrep, haddr, howner, hoperator, hnot⟩)
  · obtain ⟨hm, hcoll⟩ := (hl.getPNByCollateral_iff hinj).mp hget
    rcases h.tracked _ dmn hm with ⟨old, hold, hkey⟩ | ⟨-, hkey⟩
    · refine hkeyed.replaced pre tx post pl hsplit hty hpl _ old hold ?_ (hkey.symm.trans hop)
      rw [← hcoll, h.steps.node_of_old hinj hx hold hm]
    · exact hkey hop
  · obtain ⟨pl', hc⟩ := check_proReg (hx.check htx) hty
    obtain rfl : pl = pl' := Option.some.inj (hpl.symm.trans hc.payload)
    exact hnot (h.addable hinj hx hn htx hc hrep haddr howner hoperator)

theorem TxLoop.operator_of_old (hl : RepInv l) {old dmn : CDeterministicPN} (hold : x.oldList.mnMap[a]? = some old)
    (hm : l.mnMap[a]? = some dmn) :
    dmn.pdmnState.keyIDOperator = operatorKeyAfter a old.pdmnState.keyIDOperator pre := by
  have hkey := hl.key a dmn hm
  rcases h.tracked a dmn hm with ⟨old', hold', hop⟩ | ⟨hnone, -⟩
  · rw [hkey, hold] at hold'
    cases hold'
    rw [hop, hkey]
  · rw [hkey, hold] at hnone
    cases hnone

include hx in
theorem TxLoop.gone_step (hstep : TxStep x tx l l') (a : uint256) (old : CDeterministicPN)
    (hold : x.oldList.mnMap[a]? = some old) (hnone : l'.mnMap[a]? = none) :
    operatorKeyAfter a old.pdmnState.keyIDOperator (pre ++ [tx]) ≠ 0 := by
  have hl := BlockSteps.rep h.steps hx.rep.start
  rw [operatorKeyAfter_concat]
  cases hstep with
  | register pl l₁ hty hpl _ hrep _ hb =>
    rw [operatorKeySet_of_ne _ (by rw [hty]; decide) (by rw [hty]; decide)]
    rw [hb.mnMap, FinMap.get_insert] at hnone
    split at hnone
    · cases hnone
    · cases hrep with
      | unused _ heq => exact h.gone a old hold (heq ▸ hnone)
      | removed dmn hget hop hb₁ =>
        rw [hb₁.mnMap, FinMap.get_erase] at hnone
        split_ifs at hnone with ha
        · subst ha
          rw [Option.getD_none, ← h.operator_of_old hl hold (hl.get_of_getUniquePropertyPN hget)]
          exact hop
        · exact h.gone a old hold hnone
  | update dmn st hm hst hb =>
    rw [hb.mnMap, FinMap.get_insert] at hnone
    split at hnone
    · cases hnone
    · rename_i hne
      rw [hst.operatorKeySet_ne (Ne.symm hne)]
      exact h.gone a old hold hnone
  | other hty heq =>
    rw [operatorKeySet_of_ne _ hty.2.2.1 hty.2.2.2]
    exact h.gone a old hold (heq ▸ hnone)

include hinj hx in
theorem TxLoop.replaced_step (hstep : TxStep x tx l l') : KeyedReplacements x (pre ++ [tx]) := by
  intro pre' tx' post pl hsplit hty hpl a old hold hcoll
  have hl := BlockSteps.rep h.steps hx.rep.start
  rcases List.eq_nil_or_concat post with rfl | ⟨post, last, rfl⟩
  · obtain ⟨rfl, hlast⟩ := List.append_inj' hsplit rfl
    cases hlast
    cases hm : l.mnMap[a]? with
    | none => exact h.gone a old hold hm
    | some dmn =>
      rw [← h.operator_of_old hl hold hm]
      have hcoll' : dmn.collateralOutpoint = proRegCollateral tx pl := by
        rw [h.steps.node_of_old hinj hx hold hm]
        exact hcoll
      have hget := (hl.getPNByCollateral_iff hinj).mpr ⟨hl.key a dmn hm ▸ hm, hcoll'⟩
      cases hstep with
      | register pl' l₁ _ hpl' _ hrep =>
        obtain rfl := Option.some.inj (hpl.symm.trans hpl')
        cases hrep with
        | unused hnone => rw [hget] at hnone; cases hnone
        | removed dmn' hget' hop => rw [hget] at hget'; cases hget'; exact hop
      | update _ _ _ hst => exact (hst.nType_ne hty).elim
      | other hne => exact (hne.1 hty).elim
  · rw [List.concat_eq_append, ← List.cons_append, ← List.append_assoc] at hsplit
    obtain ⟨rfl, -⟩ := List.append_inj' hsplit rfl
    exact h.replaced pre' tx' post pl rfl hty hpl a old hold hcoll

end

include hinj hx in
theorem txLoop_outcome (hn : n + registrations x.block.nonCoinbase < 2 ^ 32) (hl : TxLoop x n [] l) :
    Outcome (x.block.nonCoinbase.foldlM (applySpecialTx x.p x.env x.nHeight) l) (TxLoop x n x.block.nonCoinbase)
      (fun e => KeyedRemovals x → e.IsReject) := by
  refine Outcome.foldlM (I := TxLoop x n) (fun pre tx post t hsplit ht => ?_) hl
  have htx : tx ∈ x.block.nonCoinbase := by rw [hsplit]; simp
  have hrep := BlockSteps.rep ht.steps hx.rep.start
  have hle : registrations (pre ++ [tx]) ≤ registrations x.block.nonCoinbase := by
    rw [hsplit, List.append_cons pre tx post]
    exact List.Sublist.countP_le (List.sublist_append_left _ _)
  have hcat := registrations_concat pre tx
  refine (applySpecialTx_outcome hrep).mono (fun t' hstep => ?_) fun e he hkeyed =>
    he hinj fun hty => ht.no_hazard hinj hx (by omega) hsplit hty hkeyed
  refine ⟨ht.steps.trans (hstep.steps htx hrep), ?_, hstep.tracked hinj hx htx hrep ht.tracked,
    ht.gone_step hx hstep, ht.replaced_step hinj hx hstep⟩
  rw [hcat, ← Nat.add_assoc]
  exact hstep.counted ht.counted (by omega)

/-! ## The whole function -/

include hx in
theorem QuietSteps.txLoop (h : QuietSteps x x.start l) (hn : Counted n x.oldList) : TxLoop x n [] l where
  steps := h.steps
  counted := h.counted ⟨hn.count_le, hn.ids_lt⟩
  tracked a b hb := by
    obtain ⟨old, hold, hs⟩ := h.nodes a b hb
    have hkey := (BlockSteps.rep h.steps hx.rep.start).key a b hb
    exact .inl ⟨old, hkey ▸ hold, hs.operator⟩
  gone a old hold hnone := by
    obtain ⟨b, hb⟩ := hasPN_iff.mp (h.keeps a (hasPN_iff.mpr ⟨old, hold⟩))
    rw [hnone] at hb
    cases hb
  replaced pre tx post _ hsplit := by cases pre <;> cases hsplit

include hinj hx in
theorem TxLoop.spendsRevoked (h : TxLoop x n x.block.nonCoinbase l) (hkeyed : KeyedRemovals x) :
    ¬SelectsRevoked (fun d => d.collateralOutpoint ∈ x.block.prevouts) l := by
  rintro ⟨a, dmn, hm, hmem, hop⟩
  rcases h.tracked a dmn hm with ⟨old, hold, hop'⟩ | ⟨-, hop'⟩
  · refine hkeyed.spent dmn.proTxHash old hold ?_ (hop'.symm.trans hop)
    rw [(BlockSteps.rep h.steps hx.rep.start).key a dmn hm] at hold
    rwa [h.steps.node_of_old hinj hx hold hm] at hmem
  · exact hop' hop

include hinj hx in
theorem TxLoop.keyedRemovals (h : TxLoop x n x.block.nonCoinbase l)
    (hspent : Removed (fun d => d.collateralOutpoint ∈ x.block.prevouts) l l') : KeyedRemovals x where
  replaced := h.replaced
  spent a old hold hmem := by
    have hl := BlockSteps.rep h.steps hx.rep.start
    cases hm : l.mnMap[a]? with
    | none => exact h.gone a old hold hm
    | some dmn =>
      rw [← h.operator_of_old hl hold hm]
      refine hspent.operator_ne a dmn hm ?_
      rw [h.steps.node_of_old hinj hx hold hm]
      exact hmem

include hinj hx in
/-- A returned list shows that the block removed only nodes with an operator key; if it does, errors are
rejections. -/
theorem build_outcome (hcounted : Counted n x.oldList) (hn : n + registrations x.block.nonCoinbase < 2 ^ 32) :
    Outcome x.build (fun new => Counted (n + registrations x.block.nonCoinbase) new ∧ KeyedRemovals x)
      (fun e => KeyedRemovals x → e.IsReject) := by
  have quiet : ∀ {r : Result (CDeterministicPNList D)} {l : CDeterministicPNList D}, Outcome r (QuietSteps x l)
      (fun _ => ¬CollisionFree D) →
      Outcome r (QuietSteps x l) (fun e => KeyedRemovals x → e.IsReject) :=
    fun h => h.mono (fun _ h => h) fun _ h => (h hinj).elim
  refine (quiet (confirmPNs_outcome hx.rep)).bind fun l₁ _ q₁ => ?_
  refine (quiet (decreasePoSePenalties_outcome (BlockSteps.rep q₁.steps hx.rep.start) fun _ => q₁.hasPN)).bind
    fun l₂ _ q₂ => ?_
  refine (txLoop_outcome hinj hx hn ((q₁.trans q₂).txLoop hx hcounted)).bind fun l₃ _ h₃ => ?_
  refine ((removeSpentCollaterals_outcome hinj (BlockSteps.rep h₃.steps hx.rep.start) x.block).mono (fun _ h => h)
    fun e hrevoked hkeyed => (h₃.spendsRevoked hinj hx hkeyed hrevoked).elim).bind fun l₄ _ h₄ => ?_
  have hcounted₄ : Counted (n + registrations x.block.nonCoinbase) l₄ :=
    ⟨h₄.count ▸ h₃.counted.count_le, fun a d hd => h₄.count ▸ h₃.counted.ids_lt a d ((h₄.nodes a d).mp hd).1⟩
  exact (quiet (markPaid_outcome h₄.rep)).mono (fun _ q => ⟨q.counted hcounted₄, h₃.keyedRemovals hinj hx h₄⟩)
    fun _ h => h

end OnChain

theorem Recount.counted (h : Recount l l') (hl : Counted n l) : Counted n l' where
  count_le := Nat.le_trans h.count_le hl.count_le
  ids_lt a d hd := by
    rw [h.mnMap] at hd
    exact h.ids_lt a d hd (hl.ids_lt a d hd)

theorem totalRegistrations_cons (block : CBlock) (blocks : List CBlock) :
    totalRegistrations (block :: blocks) = totalRegistrations blocks + registrations block.nonCoinbase := by
  simp [totalRegistrations, Nat.add_comm]

section Chain

variable (hinj : CollisionFree D) {p : CChainParams} {c : Crypto}
  {blocks : List CBlock} {pindexPrev : CBlockIndex}

include hinj in
theorem Chain.counted (hc : Chain p c blocks pindexPrev l) (htxids : TxidsSound blocks)
    (hregs : totalRegistrations blocks < 2 ^ 32) : Counted (totalRegistrations blocks) l := by
  induction hc with
  | genesis => exact ⟨Nat.zero_le _, FinMap.forall_empty⟩
  | @connect blocks pindexPrev l old new env block hprev hcount _ hnew ih =>
    rw [totalRegistrations_cons] at hregs ⊢
    have hl := hcount.counted (ih htxids.tail (by omega))
    have hx := hprev.onChain hcount htxids (process_eq_ok.mp hnew).1
    rcases process_cases (hcount.rep hprev.rep) hnew with ⟨-, rfl⟩ | ⟨-, new, hbuild, -, -, rfl⟩
    · exact ⟨Nat.zero_le _, FinMap.forall_empty⟩
    · have h := ((build_outcome hinj hx hl hregs).of_ok hbuild).1
      exact ⟨h.count_le, h.ids_lt⟩

/-- **No assertion fails and nothing is thrown.** On top of every chain, for every block whose transactions pass
their checks: if it removes no node without operator key, `BuildNewListFromBlock` returns a list or a rejection; and
it returns a list only if it removes no such node. -/
theorem build_error_isReject {l old : CDeterministicPNList D} {env : Env} {block : CBlock}
    (hinj : Function.Injective (Digest.serializeHash : Bytes → D)) (hc : Chain p c blocks pindexPrev l)
    (hcount : Recount l old) (htxids : TxidsSound (block :: blocks))
    (hchecked : ∀ tx ∈ block.vtx, (⟨p, c, env, block, pindexPrev, old⟩ : BlockInput D).check tx = .ok ())
    (hregs : totalRegistrations (block :: blocks) < 2 ^ 32) :
    (KeyedRemovals (⟨p, c, env, block, pindexPrev, old⟩ : BlockInput D) →
      ∀ e, (⟨p, c, env, block, pindexPrev, old⟩ : BlockInput D).build = .error e → e.IsReject) ∧
    ((∃ new, (⟨p, c, env, block, pindexPrev, old⟩ : BlockInput D).build = .ok new) →
      KeyedRemovals (⟨p, c, env, block, pindexPrev, old⟩ : BlockInput D)) := by
  rw [totalRegistrations_cons] at hregs
  have hl := hcount.counted (hc.counted hinj htxids.tail (by omega))
  have h := build_outcome hinj (hc.onChain hcount htxids hchecked) hl hregs
  exact ⟨fun hkeyed e he => h.of_error he hkeyed, fun ⟨new, hnew⟩ => (h.of_ok hnew).2⟩

end Chain

namespace Sample

def revoke (h proTxHash : uint256) : CTransaction where
  nVersion := 3
  nType := TxType.PROUPREV
  vin := [{ prevout := ⟨h + 1, 0⟩ }]
  hash := h
  extraPayload := some (ProUpRevPL.codec.write { proTxHash := proTxHash, inputsHash := 0 })

def spend (h : uint256) (prevout : COutPoint) : CTransaction := { vin := [{ prevout := prevout }], hash := h }

def revokeBlock : CBlock := { hash := 0xb2, vtx := [coinbase 0xc2, revoke 0x21 0x11] }

def spendBlock : CBlock := { hash := 0xb3, vtx := [coinbase 0xc3, spend 0x31 ⟨0x11, 0⟩] }

def spendInput (r : CBlockIndex × CDeterministicPNList Bytes) : BlockInput Bytes :=
  ⟨params, crypto, env, spendBlock, r.1, r.2⟩

end Sample

open Sample

set_option maxRecDepth 10000 in
theorem build_error_isReject_sample : ∃ r : CBlockIndex × CDeterministicPNList Bytes,
    Chain params crypto [registerBlock] r.1 r.2 ∧ r.2.mnMap.size = 1 ∧
    KeyedRemovals (spendInput r) := by
  obtain ⟨r, hc, -, hsize, hchecked, hbuild⟩ := exists_chain [registerBlock] (P := fun r => r.2.mnMap.size = 1 ∧
    (∀ tx ∈ spendBlock.vtx, (spendInput r).check tx = .ok ()) ∧ Returns (spendInput r).build (fun _ => True))
    (by decide +kernel) (by decide)
  obtain ⟨new, hnew, -⟩ := hbuild.exists_ok
  exact ⟨r, hc, hsize, (build_error_isReject (fun _ _ h => h) hc (.refl _) ⟨by decide, by decide⟩ hchecked
    (by decide)).2 ⟨new, hnew⟩⟩

set_option maxRecDepth 10000 in
/-- Spending the collateral of a revoked node stops the process in an assertion. -/
theorem spend_of_revoked_asserts : ∃ r : CBlockIndex × CDeterministicPNList Bytes,
    Chain params crypto [revokeBlock, registerBlock] r.1 r.2 ∧
    (∀ tx ∈ spendBlock.vtx, (spendInput r).check tx = .ok ()) ∧
    (spendInput r).build = .error (.assertFailure "DeleteUniqueProperty: oldValue != nullValue") := by
  obtain ⟨r, hc, -, hchecked, hbuild⟩ := exists_chain [revokeBlock, registerBlock] (P := fun r =>
    (∀ tx ∈ spendBlock.vtx, (spendInput r).check tx = .ok ()) ∧ Outcome (spendInput r).build (fun _ => False)
      (fun e => e = .assertFailure "DeleteUniqueProperty: oldValue != nullValue")) (by decide +kernel) (by decide)
  exact ⟨r, hc, hchecked, hbuild.eq_error⟩

end TrumpCoin
