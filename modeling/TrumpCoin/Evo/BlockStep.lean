import Mathlib.Logic.Relation
import TrumpCoin.Evo.BuildList
import TrumpCoin.Evo.RepInv

/-!
# What a block does to a list

Every change `BuildNewListFromBlock` makes to a list is one of three steps (`BlockStep`): a registration adds a
node, a node's state is replaced (for one of six reasons, `StateChange`), or a node is removed. `build_steps`
says once that the whole function is a sequence of such steps; invariants of lists are proved for the three
steps and carried over by induction on the sequence.
-/

namespace TrumpCoin

open Lib

/-- Everything the processing of one block reads. -/
structure BlockInput (D : Type) [Digest D] where
  p : CChainParams
  c : Crypto
  env : Env
  block : CBlock
  pindexPrev : CBlockIndex
  oldList : CDeterministicPNList D

variable {D : Type} [Digest D]

namespace BlockInput

variable (x : BlockInput D)

def nHeight : Int := x.pindexPrev.nHeight + 1

def build : Result (CDeterministicPNList D) :=
  buildNewListFromBlock x.p x.c x.env x.block x.pindexPrev x.oldList

def process : Result (CDeterministicPNList D) :=
  processSpecialTxsInBlock x.p x.c x.env x.block x.pindexPrev x.oldList

def check (tx : CTransaction) : Result Unit :=
  checkSpecialTx x.p x.c x.env tx { pindexPrev := x.pindexPrev, mnList := x.oldList }

def start : CDeterministicPNList D := { x.oldList with blockHash := 0, nHeight := x.nHeight }

/-- `tx` is a special transaction of the block with payload `pl`. -/
def HasTx {α : Type} (nType : Int16) (cd : Codec α) (tx : CTransaction) (pl : α) : Prop :=
  tx ∈ x.block.nonCoinbase ∧ tx.nType = nType ∧ getTxPayload cd tx = some pl

end BlockInput

/-! ## States after an update -/

section States

variable (nHeight : Int) (s : CDeterministicPNState)

@[simp] theorem serviceState_addr (pl : ProUpServPL) : (serviceState nHeight pl s).addr = pl.addr := by
  unfold serviceState; dsimp only; split <;> rfl

@[simp] theorem serviceState_operator (pl : ProUpServPL) :
    (serviceState nHeight pl s).keyIDOperator = s.keyIDOperator := by
  unfold serviceState; dsimp only; split <;> rfl

@[simp] theorem serviceState_owner (pl : ProUpServPL) : (serviceState nHeight pl s).keyIDOwner = s.keyIDOwner := by
  unfold serviceState; dsimp only; split <;> rfl

theorem registrarState_addr (pl : ProUpRegPL) :
    (registrarState nHeight pl s).addr = s.addr ∨ (registrarState nHeight pl s).addr = CService.null := by
  unfold registrarState CDeterministicPNState.banIfNotBanned CDeterministicPNState.resetOperatorFields
  dsimp only; split <;> [split; skip] <;> simp

@[simp] theorem registrarState_operator (pl : ProUpRegPL) :
    (registrarState nHeight pl s).keyIDOperator = pl.keyIDOperator := rfl
@[simp] theorem registrarState_owner (pl : ProUpRegPL) : (registrarState nHeight pl s).keyIDOwner = s.keyIDOwner := by
  unfold registrarState CDeterministicPNState.banIfNotBanned CDeterministicPNState.resetOperatorFields
  dsimp only; split <;> [split; skip] <;> rfl

@[simp] theorem revokedState_addr (pl : ProUpRevPL) : (revokedState nHeight pl s).addr = CService.null := by
  unfold revokedState CDeterministicPNState.banIfNotBanned CDeterministicPNState.resetOperatorFields
  dsimp only; split <;> rfl

@[simp] theorem revokedState_operator (pl : ProUpRevPL) : (revokedState nHeight pl s).keyIDOperator = 0 := by
  unfold revokedState CDeterministicPNState.banIfNotBanned CDeterministicPNState.resetOperatorFields
  dsimp only; split <;> rfl

@[simp] theorem revokedState_owner (pl : ProUpRevPL) : (revokedState nHeight pl s).keyIDOwner = s.keyIDOwner := by
  unfold revokedState CDeterministicPNState.banIfNotBanned CDeterministicPNState.resetOperatorFields
  dsimp only; split <;> rfl

end States

/-! ## Steps -/

/-- The state an update transaction gives to the node `dmn` its payload names. -/
inductive UpdatedBy (nHeight : Int) (tx : CTransaction) (dmn : CDeterministicPN) : CDeterministicPNState → Prop
  | service (pl : ProUpServPL) (hty : tx.nType = TxType.PROUPSERV) (hpl : getTxPayload ProUpServPL.codec tx = some pl)
      (hkey : pl.proTxHash = dmn.proTxHash) : UpdatedBy nHeight tx dmn (serviceState nHeight pl dmn.pdmnState)
  | registrar (pl : ProUpRegPL) (hty : tx.nType = TxType.PROUPREG) (hpl : getTxPayload ProUpRegPL.codec tx = some pl)
      (hkey : pl.proTxHash = dmn.proTxHash) : UpdatedBy nHeight tx dmn (registrarState nHeight pl dmn.pdmnState)
  | revoked (pl : ProUpRevPL) (hty : tx.nType = TxType.PROUPREV) (hpl : getTxPayload ProUpRevPL.codec tx = some pl)
      (hkey : pl.proTxHash = dmn.proTxHash) : UpdatedBy nHeight tx dmn (revokedState nHeight pl dmn.pdmnState)

/-- The states that may replace the state of `dmn`. -/
inductive StateChange (x : BlockInput D) (dmn : CDeterministicPN) : CDeterministicPNState → Prop
  | confirmed (hold : x.oldList.hasPN dmn.proTxHash = true) : StateChange x dmn
      (dmn.pdmnState.updateConfirmedHash x.c.sha256 dmn.proTxHash x.pindexPrev.getBlockHash)
  | decreased (hold : x.oldList.hasPN dmn.proTxHash = true) (hpos : 0 < dmn.pdmnState.nPoSePenalty) :
      StateChange x dmn { dmn.pdmnState with nPoSePenalty := dmn.pdmnState.nPoSePenalty - 1 }
  | updated {st : CDeterministicPNState} (tx : CTransaction) (htx : tx ∈ x.block.nonCoinbase)
      (hst : UpdatedBy x.nHeight tx dmn st) : StateChange x dmn st
  | paid (payee : CDeterministicPN) (hpayee : x.oldList.getPNPayee x.env.order = some payee)
      (hpl : payee.proTxHash = dmn.proTxHash) :
      StateChange x dmn { dmn.pdmnState with nLastPaidHeight := x.nHeight }

/-- Why a node may be removed: a registration uses its collateral, or the block spends it. -/
def RemovalReason (x : BlockInput D) (l : CDeterministicPNList D) (dmn : CDeterministicPN) : Prop :=
  (∃ tx pl, x.HasTx TxType.PROREG ProRegPL.codec tx pl ∧ l.getPNByCollateral (proRegCollateral tx pl) = some dmn) ∨
    dmn.collateralOutpoint ∈ x.block.prevouts

inductive BlockStep (x : BlockInput D) (l l' : CDeterministicPNList D) : Prop
  | register (tx : CTransaction) (pl : ProRegPL) (htx : x.HasTx TxType.PROREG ProRegPL.codec tx pl)
      (hcoll : pl.collateralOutpoint.hash = 0 ∨ externalCollateralOk x.p x.env pl = true)
      (hadd : Addable l (newPN x.nHeight l.nTotalRegisteredCount tx pl))
      (hbecomes : Becomes l l' (l.mnMap.insert tx.getHash (newPN x.nHeight l.nTotalRegisteredCount tx pl))
        ((l.nTotalRegisteredCount + 1) % 2 ^ 32))
  | update (h : uint256) (dmn : CDeterministicPN) (st : CDeterministicPNState) (hm : l.mnMap[h]? = some dmn)
      (hst : StateChange x dmn st)
      (hbecomes : Becomes l l' (l.mnMap.insert h { dmn with pdmnState := st }) l.nTotalRegisteredCount)
  | remove (h : uint256) (dmn : CDeterministicPN) (hm : l.mnMap[h]? = some dmn)
      (hop : dmn.pdmnState.keyIDOperator ≠ 0) (hwhy : RemovalReason x l dmn)
      (hbecomes : Becomes l l' (l.mnMap.erase h) l.nTotalRegisteredCount)

abbrev BlockSteps (x : BlockInput D) : CDeterministicPNList D → CDeterministicPNList D → Prop :=
  Relation.ReflTransGen (BlockStep x)

variable {st : CDeterministicPNState} {dmn : CDeterministicPN}

theorem UpdatedBy.owner_eq {nHeight : Int} {tx : CTransaction}
    (h : UpdatedBy nHeight tx dmn st) : st.keyIDOwner = dmn.pdmnState.keyIDOwner := by
  cases h <;> simp

variable {x : BlockInput D} {l l' : CDeterministicPNList D}

theorem StateChange.owner_eq (h : StateChange x dmn st) :
    st.keyIDOwner = dmn.pdmnState.keyIDOwner := by
  cases h with
  | confirmed | decreased | paid => rfl
  | updated _ _ hst => exact hst.owner_eq

theorem BlockStep.rep (h : BlockStep x l l') : RepInv l' := by
  cases h with
  | register _ _ _ _ _ hb => exact hb.rep
  | update _ _ _ _ _ hb => exact hb.rep
  | remove _ _ _ _ _ hb => exact hb.rep

theorem BlockSteps.rep (h : BlockSteps x l l') (hl : RepInv l) : RepInv l' := by
  induction h with
  | refl => exact hl
  | tail _ hs _ => exact hs.rep

theorem BlockStep.header (h : BlockStep x l l') : l'.blockHash = l.blockHash ∧ l'.nHeight = l.nHeight := by
  cases h with
  | register _ _ _ _ _ hb => exact ⟨hb.blockHash, hb.nHeight⟩
  | update _ _ _ _ _ hb => exact ⟨hb.blockHash, hb.nHeight⟩
  | remove _ _ _ _ _ hb => exact ⟨hb.blockHash, hb.nHeight⟩

/-- What each step keeps, a run of steps keeps. -/
theorem BlockSteps.invariant {I : CDeterministicPNList D → Prop}
    (step : ∀ l l', RepInv l → I l → BlockStep x l l' → I l') (h : BlockSteps x l l') (hl : RepInv l) (hI : I l) :
    I l' := by
  induction h with
  | refl => exact hI
  | tail hs hstep ih => exact step _ _ (BlockSteps.rep hs hl) ih hstep

/-- An invariant of nodes is kept when it holds of new nodes and is kept by every change of state. -/
theorem BlockSteps.nodes {P : CDeterministicPN → Prop}
    (hnew : ∀ tx pl id, x.HasTx TxType.PROREG ProRegPL.codec tx pl →
      (pl.collateralOutpoint.hash = 0 ∨ externalCollateralOk x.p x.env pl = true) → P (newPN x.nHeight id tx pl))
    (hchange : ∀ dmn st, P dmn → StateChange x dmn st → P { dmn with pdmnState := st }) (h : BlockSteps x l l')
    (hl : RepInv l) (hP : ∀ (a : uint256) dmn, l.mnMap[a]? = some dmn → P dmn) (a : uint256) (dmn : CDeterministicPN)
    (hm : l'.mnMap[a]? = some dmn) : P dmn := by
  refine h.invariant (I := fun l => ∀ (a : uint256) dmn, l.mnMap[a]? = some dmn → P dmn) ?_ hl hP a dmn hm
  intro l l' _ hI hstep
  cases hstep with
  | register tx pl htx hcoll _ hb =>
    rw [hb.mnMap]
    exact FinMap.forall_insert hI (hnew tx pl _ htx hcoll)
  | update h old st hold hst hb =>
    rw [hb.mnMap]
    exact FinMap.forall_insert hI (hchange old st (hI h old hold) hst)
  | remove h old _ _ _ hb =>
    rw [hb.mnMap]
    exact FinMap.forall_erase hI

/-! ## Each stage is a sequence of steps -/

section Stages

variable {x : BlockInput D} {l l' : CDeterministicPNList D} {h : uint256} {dmn : CDeterministicPN}
  {st : CDeterministicPNState} {tx : CTransaction}

theorem RepInv.start (hold : RepInv x.oldList) : RepInv x.start := ⟨hold.key, hold.node, hold.ids, hold.props⟩

theorem hasPN_iff : l.hasPN h = true ↔ ∃ dmn : CDeterministicPN, l.mnMap[h]? = some dmn := Option.isSome_iff_exists

theorem mem_forEachPN {order : MapOrder} {onlyValid : Bool} : dmn ∈ l.forEachPN order onlyValid ↔
    (∃ h : uint256, l.mnMap[h]? = some dmn) ∧ (onlyValid = true → dmn.isPNValid = true) := by
  rw [CDeterministicPNList.forEachPN, List.mem_filter, (order.perm l.mnMap).mem_iff, FinMap.mem_vals]
  cases onlyValid <;> simp

theorem nodup_forEachPN (hl : RepInv l) (order : MapOrder) (onlyValid : Bool) : (l.forEachPN order onlyValid).Nodup :=
  ((order.perm l.mnMap).nodup_iff.mpr (FinMap.nodup_vals hl.key)).filter _

/-- An update is a step of the block, or it finds a property already taken. -/
theorem updatePNByHash_outcome (hl : RepInv l) (hm : l.mnMap[h]? = some dmn) (hst : StateChange x dmn st) :
    Outcome (l.updatePNByHash h st)
      (fun l' => BlockStep x l l' ∧
        Becomes l l' (l.mnMap.insert h { dmn with pdmnState := st }) l.nTotalRegisteredCount)
      (fun _ => Blocked l dmn st) := by
  obtain rfl := hl.key h dmn hm
  rw [updatePNByHash_eq hm]
  refine (updatePN_outcome hl hm (hst.owner_eq ▸ (hl.node _ dmn hm).owner_ne)).mono (fun l' hb => ?_) fun _ h => h
  exact ⟨.update _ dmn st hm hst hb, hb⟩

variable {α : Type} {f : CDeterministicPNList D → α → Result (CDeterministicPNList D)} {as : List α}
  {collateral : COutPoint}

/-- A loop whose body takes steps takes steps. -/
theorem foldlM_steps (hf : ∀ a ∈ as, ∀ l l', RepInv l → f l a = .ok l' → BlockSteps x l l') (hl : RepInv l)
    (h : as.foldlM f l = .ok l') : BlockSteps x l l' :=
  (foldlM_inv (I := fun t => BlockSteps x l t ∧ RepInv t)
    (fun a ha t t' ht hs =>
      have hst := hf a ha t t' ht.2 hs
      ⟨ht.1.trans hst, BlockSteps.rep hst ht.2⟩) ⟨.refl, hl⟩ h).1

/-! ### Stages that keep every property

Confirmations, penalties and the payment replace states without touching what is indexed. With a collision-free
hash they cannot fail. -/

/-- `b` is `a` with a state that has the same address and keys. -/
structure SameProperties (a b : CDeterministicPN) : Prop where
  node : b = { a with pdmnState := b.pdmnState }
  addr : b.pdmnState.addr = a.pdmnState.addr
  owner : b.pdmnState.keyIDOwner = a.pdmnState.keyIDOwner
  operator : b.pdmnState.keyIDOperator = a.pdmnState.keyIDOperator

/-- `l'` comes from `l` by steps that keep the counter and every node's properties. -/
structure QuietSteps (x : BlockInput D) (l l' : CDeterministicPNList D) : Prop where
  steps : BlockSteps x l l'
  count : l'.nTotalRegisteredCount = l.nTotalRegisteredCount
  nodes : ∀ (h : uint256) b, l'.mnMap[h]? = some b →
    ∃ a : CDeterministicPN, l.mnMap[h]? = some a ∧ SameProperties a b
  keeps : ∀ h, l.hasPN h = true → l'.hasPN h = true

theorem SameProperties.refl (a : CDeterministicPN) : SameProperties a a := ⟨rfl, rfl, rfl, rfl⟩

theorem SameProperties.trans {a b d : CDeterministicPN} (h : SameProperties a b) (h' : SameProperties b d) :
    SameProperties a d :=
  ⟨by rw [h'.node, h.node], h'.addr.trans h.addr, h'.owner.trans h.owner, h'.operator.trans h.operator⟩

theorem QuietSteps.refl (l : CDeterministicPNList D) : QuietSteps x l l :=
  ⟨.refl, rfl, fun _ b hb => ⟨b, hb, .refl b⟩, fun _ h => h⟩

variable {l₁ : CDeterministicPNList D}

theorem QuietSteps.trans {l₂ l₃ : CDeterministicPNList D} (h : QuietSteps x l₁ l₂) (h' : QuietSteps x l₂ l₃) :
    QuietSteps x l₁ l₃ where
  steps := h.steps.trans h'.steps
  count := h'.count.trans h.count
  nodes a b hb := by
    obtain ⟨b', hb', hs'⟩ := h'.nodes a b hb
    obtain ⟨b'', hb'', hs⟩ := h.nodes a b' hb'
    exact ⟨b'', hb'', hs.trans hs'⟩
  keeps a ha := h'.keeps a (h.keeps a ha)

theorem QuietSteps.hasPN (hq : QuietSteps x l l') (h' : l'.hasPN h = true) : l.hasPN h = true := by
  obtain ⟨b, hb⟩ := hasPN_iff.mp h'
  obtain ⟨a, ha, -⟩ := hq.nodes h b hb
  exact hasPN_iff.mpr ⟨a, ha⟩

/-- A change of state is blocked only by an address or operator key that another node holds. -/
theorem not_blocked (hinj : CollisionFree D) (hl : RepInv l)
    (hm : l.mnMap[dmn.proTxHash]? = some dmn) (howner : st.keyIDOwner = dmn.pdmnState.keyIDOwner)
    (haddr : dmn.pdmnState.addr ≠ st.addr →
      ¬HeldByOther (MnMap.holdings D l.mnMap) dmn.proTxHash (.service st.addr))
    (hop : dmn.pdmnState.keyIDOperator ≠ st.keyIDOperator →
      ¬HeldByOther (MnMap.holdings D l.mnMap) dmn.proTxHash (.keyID st.keyIDOperator)) : ¬Blocked l dmn st := by
  rintro (h | h | h | h)
  · obtain ⟨o, other, hne, ho, hv, hnull⟩ := (heldByOther_iff hinj).mp h
    exact hne (hl.property_owner hinj ho hm hv (service_mem_properties.mpr rfl) hnull)
  · exact haddr h.1 h.2
  · exact h.1 howner.symm
  · exact hop h.1 h.2

theorem not_heldByOther_of_isNull (hinj : CollisionFree D) {m : MnMap}
    {v : UniqueProperty} (hv : v.IsNull) : ¬HeldByOther (MnMap.holdings D m) h v := by
  rw [heldByOther_iff hinj]
  rintro ⟨_, _, _, _, _, hnull⟩
  exact hnull hv

theorem quiet_of_updatePNByHash (hl : RepInv l) (hm : l.mnMap[h]? = some dmn) (hst : StateChange x dmn st)
    (hsame : SameProperties dmn { dmn with pdmnState := st }) :
    Outcome (l.updatePNByHash h st)
      (fun l' => QuietSteps x l l' ∧ ∀ a : uint256, a ≠ h → l'.mnMap[a]? = l.mnMap[a]?)
      (fun _ => ¬CollisionFree D) := by
  refine (updatePNByHash_outcome hl hm hst).mono (fun l' ⟨hs, hb⟩ => ⟨⟨.single hs, hb.count, fun a b hget => ?_,
    fun a ha => ?_⟩, fun a ha => ?_⟩) fun _ hblocked hinj => ?_
  · rw [hb.mnMap, FinMap.get_insert] at hget
    split at hget
    · subst a; cases hget; exact ⟨dmn, hm, hsame⟩
    · exact ⟨b, hget, .refl b⟩
  · rw [hasPN_iff] at ha ⊢
    rw [hb.mnMap, FinMap.get_insert]
    split
    · exact ⟨_, rfl⟩
    · exact ha
  · rw [hb.mnMap, FinMap.get_insert_ne _ _ (Ne.symm ha)]
  · obtain rfl := hl.key h dmn hm
    exact not_blocked hinj hl hm hsame.owner (fun hne => (hne hsame.addr.symm).elim)
      (fun hne => (hne hsame.operator.symm).elim) hblocked

/-- A loop that visits every hash at most once: the body for a hash still finds the node the loop started with. -/
theorem visit_outcome (key : α → uint256) {Q : Fault → Prop} (hnodup : (as.map key).Nodup)
    (hf : ∀ a ∈ as, ∀ t, RepInv t → t.mnMap[key a]? = l.mnMap[key a]? →
      Outcome (f t a) (fun t' => QuietSteps x t t' ∧ ∀ b : uint256, b ≠ key a → t'.mnMap[b]? = t.mnMap[b]?) Q)
    (hl : RepInv l) : Outcome (as.foldlM f l) (QuietSteps x l) Q := by
  refine (Outcome.foldlM (I := fun pre t => QuietSteps x l t ∧
      ∀ b : uint256, (∀ a ∈ pre, b ≠ key a) → t.mnMap[b]? = l.mnMap[b]?) ?_ ⟨.refl l, fun _ _ => rfl⟩).mono
    (fun _ h => h.1) fun _ h => h
  rintro pre a post t rfl ⟨hq, hsame⟩
  have hnotin : ∀ d ∈ pre, key a ≠ key d := by
    intro d hd he
    rw [List.map_append, List.nodup_append] at hnodup
    exact hnodup.2.2 _ (List.mem_map_of_mem hd) _ (by simp) he.symm
  refine (hf a (by simp) t (BlockSteps.rep hq.steps hl) (hsame _ hnotin)).mono (fun t' ⟨hq', hframe⟩ => ?_)
    fun _ h => h
  refine ⟨hq.trans hq', fun b hb => ?_⟩
  rw [hframe b (hb a (by simp)), hsame b fun d hd => hb d (by simp [hd])]

theorem nodup_proTxHash (hl : RepInv l) {ds : List CDeterministicPN} (hds : ds.Nodup)
    (hmem : ∀ d ∈ ds, ∃ h : uint256, l.mnMap[h]? = some d) : (ds.map CDeterministicPN.proTxHash).Nodup := by
  refine List.Nodup.map_on (fun d hd d' hd' he => ?_) hds
  obtain ⟨h, hget⟩ := hmem d hd
  obtain ⟨h', hget'⟩ := hmem d' hd'
  rw [hl.key h d hget, hl.key h' d' hget'] at he
  subst he
  exact Option.some.inj (hget.symm.trans hget')

/-- The confirmation loop reads the states of the old list; a node not yet visited still has its old state. -/
theorem confirmPNs_outcome (hold : RepInv x.oldList) :
    Outcome (confirmPNs x.p x.c x.env x.pindexPrev x.oldList x.start) (QuietSteps x x.start)
      (fun _ => ¬CollisionFree D) := by
  have hmem : ∀ d ∈ x.oldList.forEachPN x.env.order false, ∃ h : uint256, x.oldList.mnMap[h]? = some d :=
    fun d hd => (mem_forEachPN.mp hd).1
  refine visit_outcome CDeterministicPN.proTxHash (nodup_proTxHash hold (nodup_forEachPN hold _ _) hmem) (fun d hd t ht hget => ?_) hold.start
  have hgetd : t.mnMap[d.proTxHash]? = some d := by
    obtain ⟨a, ha⟩ := hmem d hd
    rw [hget, hold.key a d ha]
    exact ha
  unfold confirmPN
  split
  · exact ⟨.refl t, fun _ _ => rfl⟩
  · split
    · have hhas : x.oldList.hasPN d.proTxHash = true := hasPN_iff.mpr ⟨d, hget ▸ hgetd⟩
      exact quiet_of_updatePNByHash ht hgetd (.confirmed hhas) ⟨rfl, rfl, rfl, rfl⟩
    · exact ⟨.refl t, fun _ _ => rfl⟩

theorem decreasePoSePenalties_outcome (hl : RepInv l) (hold : ∀ a, l.hasPN a = true → x.oldList.hasPN a = true) :
    Outcome (l.decreasePoSePenalties x.env.order) (QuietSteps x l)
      (fun _ => ¬CollisionFree D) := by
  have hnodup := (nodup_forEachPN hl x.env.order true).filter fun dmn : CDeterministicPN =>
    decide (0 < dmn.pdmnState.nPoSePenalty ∧ dmn.pdmnState.nPoSeBanHeight = -1)
  have hmem : ∀ d ∈ (l.forEachPN x.env.order true).filter fun dmn : CDeterministicPN =>
      decide (0 < dmn.pdmnState.nPoSePenalty ∧ dmn.pdmnState.nPoSeBanHeight = -1),
      (∃ h : uint256, l.mnMap[h]? = some d) ∧ 0 < d.pdmnState.nPoSePenalty ∧ d.pdmnState.nPoSeBanHeight = -1 :=
    fun d hd => ⟨(mem_forEachPN.mp (List.mem_filter.mp hd).1).1, by simpa using (List.mem_filter.mp hd).2⟩
  refine visit_outcome id
    (by rw [List.map_id]; exact nodup_proTxHash hl hnodup fun d hd => (hmem d hd).1)
    (fun a ha t ht hget => ?_) hl
  obtain ⟨d, hd, rfl⟩ := List.mem_map.mp ha
  obtain ⟨⟨b, hb⟩, hpen⟩ := hmem d hd
  have hgetd : t.mnMap[d.proTxHash]? = some d := by
    rw [show t.mnMap[d.proTxHash]? = l.mnMap[d.proTxHash]? from hget, hl.key b d hb]
    exact hb
  unfold CDeterministicPNList.poSeDecrease
  rw [show t.getPN d.proTxHash = some d from hgetd]
  refine Outcome.bind (P := fun _ => True) (Outcome.of_forall (fun _ _ => trivial) fun e he => ?_) fun _ _ _ =>
    quiet_of_updatePNByHash ht hgetd (.decreased (hold _ (hasPN_iff.mpr ⟨d, hget ▸ hgetd⟩)) hpen.1) ⟨rfl, rfl, rfl, rfl⟩
  rw [Lib.require, if_pos hpen] at he
  cases he

theorem markPaid_outcome (hl : RepInv l) :
    Outcome (markPaid x.nHeight (x.oldList.getPNPayee x.env.order) l) (QuietSteps x l)
      (fun _ => ¬CollisionFree D) := by
  unfold markPaid
  split
  · exact QuietSteps.refl l
  · rename_i payee hpayee
    split
    · exact QuietSteps.refl l
    · rename_i dmn hm
      exact (quiet_of_updatePNByHash hl hm (.paid payee hpayee (hl.key _ _ hm).symm) ⟨rfl, rfl, rfl, rfl⟩).mono
        (fun _ h => h.1) fun _ h => h

/-! ### Special transactions -/

/-- `l₁` is `l` without the node that uses the collateral, if there is one. -/
inductive Replaced (l l₁ : CDeterministicPNList D) (collateral : COutPoint) : Prop
  | unused (hget : l.getPNByCollateral collateral = none) (heq : l₁ = l)
  | removed (dmn : CDeterministicPN) (hget : l.getPNByCollateral collateral = some dmn)
      (hop : dmn.pdmnState.keyIDOperator ≠ 0)
      (hbecomes : Becomes l l₁ (l.mnMap.erase dmn.proTxHash) l.nTotalRegisteredCount)

/-- What one transaction does to the list. -/
inductive TxStep (x : BlockInput D) (tx : CTransaction) (l l' : CDeterministicPNList D) : Prop
  | register (pl : ProRegPL) (l₁ : CDeterministicPNList D) (hty : tx.nType = TxType.PROREG)
      (hpl : getTxPayload ProRegPL.codec tx = some pl)
      (hcoll : pl.collateralOutpoint.hash = 0 ∨ externalCollateralOk x.p x.env pl = true)
      (hreplaced : Replaced l l₁ (proRegCollateral tx pl))
      (hadd : Addable l₁ (newPN x.nHeight l₁.nTotalRegisteredCount tx pl))
      (hbecomes : Becomes l₁ l' (l₁.mnMap.insert tx.getHash (newPN x.nHeight l₁.nTotalRegisteredCount tx pl))
        ((l₁.nTotalRegisteredCount + 1) % 2 ^ 32))
  | update (dmn : CDeterministicPN) (st : CDeterministicPNState) (hm : l.mnMap[dmn.proTxHash]? = some dmn)
      (hst : UpdatedBy x.nHeight tx dmn st)
      (hbecomes : Becomes l l' (l.mnMap.insert dmn.proTxHash { dmn with pdmnState := st }) l.nTotalRegisteredCount)
  | other (hty : tx.nType ≠ TxType.PROREG ∧ tx.nType ≠ TxType.PROUPSERV ∧ tx.nType ≠ TxType.PROUPREG ∧
      tx.nType ≠ TxType.PROUPREV) (heq : l' = l)

/-- How a registration can stop other than by a rejection: it replaces a node without operator key, or the node it
creates cannot be added. -/
inductive RegistrationHazard (x : BlockInput D) (tx : CTransaction) (l : CDeterministicPNList D) : Prop
  | revoked (pl : ProRegPL) (dmn : CDeterministicPN) (hpl : getTxPayload ProRegPL.codec tx = some pl)
      (hget : l.getPNByCollateral (proRegCollateral tx pl) = some dmn) (hop : dmn.pdmnState.keyIDOperator = 0)
  | notAddable (pl : ProRegPL) (l₁ : CDeterministicPNList D) (hpl : getTxPayload ProRegPL.codec tx = some pl)
      (hreplaced : Replaced l l₁ (proRegCollateral tx pl))
      (haddr : l₁.hasUniqueProperty (.service pl.addr) = false)
      (howner : l₁.hasUniqueProperty (.keyID pl.keyIDOwner) = false)
      (hoperator : l₁.hasUniqueProperty (.keyID pl.keyIDOperator) = false)
      (hnot : ¬Addable l₁ (newPN x.nHeight l₁.nTotalRegisteredCount tx pl))

/-- The error is a rejection, provided the hash is collision free and the registration hazards are absent. -/
def Rejects (x : BlockInput D) (tx : CTransaction) (l : CDeterministicPNList D) (e : Fault) : Prop :=
  Function.Injective (Digest.serializeHash : Bytes → D) →
    (tx.nType = TxType.PROREG → ¬RegistrationHazard x tx l) → e.IsReject

theorem payloadOrReject_eq_ok {cd : Codec α} {pl : α} :
    payloadOrReject cd tx = .ok pl ↔ getTxPayload cd tx = some pl := by
  unfold payloadOrReject dosInvalid
  split <;> simp_all

theorem payloadOrReject_outcome (cd : Codec α) :
    Outcome (payloadOrReject cd tx) (fun pl => getTxPayload cd tx = some pl) (Rejects x tx l) := by
  unfold payloadOrReject
  split
  · exact fun _ _ => trivial
  · assumption

theorem invalidUnless_outcome {n : Nat} {reason : String} {cond : Prop} [Decidable cond] :
    Outcome (invalidUnless n reason cond) (fun _ => cond) (Rejects x tx l) :=
  Outcome.require fun _ _ _ => trivial

theorem duplicateUnless_outcome {n : Nat} {reason : String} {cond : Prop} [Decidable cond] :
    Outcome (duplicateUnless n reason cond) (fun _ => cond) (Rejects x tx l) :=
  Outcome.require fun _ _ _ => trivial

theorem usedByOther_outcome (hl : RepInv l) (v : UniqueProperty) (a : uint256) :
    Outcome (l.usedByOther v a) (fun r => r = false → ¬HeldByOther (MnMap.holdings D l.mnMap) a v)
      (Rejects x tx l) := by
  classical
  rw [hl.usedByOther_eq]
  exact fun h => of_decide_eq_false h

theorem removeReplaced_outcome (hl : RepInv l) :
    Outcome (removeReplaced collateral l) (fun l₁ => Replaced l l₁ collateral)
      (fun _ => ∃ dmn, l.getPNByCollateral collateral = some dmn ∧ dmn.pdmnState.keyIDOperator = 0) := by
  unfold removeReplaced
  split
  · exact .unused ‹_› rfl
  · rename_i dmn hget
    exact (removePN_outcome hl (hl.get_of_getUniquePropertyPN hget)).mono
      (fun l₁ h => .removed dmn hget h.1 h.2) fun _ h => ⟨dmn, hget, h⟩

theorem Replaced.rep (h : Replaced l l₁ collateral) (hl : RepInv l) : RepInv l₁ := by
  cases h with
  | unused _ heq => exact heq ▸ hl
  | removed _ _ _ hb => exact hb.rep

theorem Replaced.count (h : Replaced l l₁ collateral) :
    l₁.nTotalRegisteredCount = l.nTotalRegisteredCount := by
  cases h with
  | unused _ heq => rw [heq]
  | removed _ _ _ hb => exact hb.count

/-- A registration adds its node or, hazards apart, is rejected. -/
theorem applyProReg_outcome (hty : tx.nType = TxType.PROREG) (hl : RepInv l) :
    Outcome (applyProReg x.p x.env x.nHeight l tx) (TxStep x tx l) (Rejects x tx l) := by
  refine (payloadOrReject_outcome _).bind fun pl _ hpl => ?_
  refine invalidUnless_outcome.bind fun _ _ hcoll => ?_
  refine ((removeReplaced_outcome hl).mono (fun _ h => h) fun e ⟨dmn, hget, hop⟩ _ hsafe =>
    (hsafe hty (.revoked pl dmn hpl hget hop)).elim).bind fun l₁ _ hrep => ?_
  refine duplicateUnless_outcome.bind fun _ _ haddr => ?_
  refine duplicateUnless_outcome.bind fun _ _ howner => ?_
  refine duplicateUnless_outcome.bind fun _ _ hoperator => ?_
  rw [← hrep.count]
  refine (addPN_outcome (hrep.rep hl)).mono (fun l' ⟨hadd, hb⟩ => ?_) fun e hnot _ hsafe =>
    (hsafe hty (.notAddable pl l₁ hpl hrep haddr howner hoperator hnot)).elim
  refine .register pl l₁ hty hpl hcoll hrep hadd ?_
  have hmax : max (l₁.nTotalRegisteredCount + 1) l₁.nTotalRegisteredCount = l₁.nTotalRegisteredCount + 1 := by
    omega
  simpa only [newPN, if_true, hmax] using hb

theorem updated_outcome (hl : RepInv l) (hm : l.mnMap[h]? = some dmn) (hst : UpdatedBy x.nHeight tx dmn st)
    (haddr : dmn.pdmnState.addr ≠ st.addr → st.addr ≠ CService.null →
      ¬HeldByOther (MnMap.holdings D l.mnMap) dmn.proTxHash (.service st.addr))
    (hop : dmn.pdmnState.keyIDOperator ≠ st.keyIDOperator → st.keyIDOperator ≠ 0 →
      ¬HeldByOther (MnMap.holdings D l.mnMap) dmn.proTxHash (.keyID st.keyIDOperator)) :
    Outcome (l.updatePNByHash h st) (TxStep x tx l) (Rejects x tx l) := by
  obtain rfl := hl.key h dmn hm
  rw [updatePNByHash_eq hm]
  refine (updatePN_outcome hl hm (hst.owner_eq ▸ (hl.node _ dmn hm).owner_ne)).mono
    (fun l' hb => .update dmn st hm hst hb) fun _ hblocked hinj _ => ?_
  refine (not_blocked hinj hl hm hst.owner_eq (fun hne => ?_) (fun hne => ?_) hblocked).elim
  · by_cases hnull : st.addr = CService.null
    · exact not_heldByOther_of_isNull hinj (UniqueProperty.isNull_service.mpr hnull)
    · exact haddr hne hnull
  · by_cases hnull : st.keyIDOperator = 0
    · exact not_heldByOther_of_isNull hinj (UniqueProperty.isNull_keyID.mpr hnull)
    · exact hop hne hnull

theorem applyProUpServ_outcome (hty : tx.nType = TxType.PROUPSERV) (hl : RepInv l) :
    Outcome (applyProUpServ x.nHeight l tx) (TxStep x tx l) (Rejects x tx l) := by
  refine (payloadOrReject_outcome _).bind fun pl _ hpl => ?_
  refine (usedByOther_outcome hl _ _).bind fun other _ hother => ?_
  refine duplicateUnless_outcome.bind fun _ _ hfree => ?_
  split
  · exact fun _ _ => trivial
  · rename_i dmn hm
    refine invalidUnless_outcome.bind fun _ _ _ => ?_
    have hkey := hl.key _ _ hm
    refine updated_outcome hl hm (.service pl hty hpl hkey.symm) (fun _ _ => ?_) fun hne => ?_
    · rw [serviceState_addr, hkey]
      exact hother hfree
    · exact (hne (serviceState_operator _ _ _).symm).elim

theorem applyProUpReg_outcome (hty : tx.nType = TxType.PROUPREG) (hl : RepInv l) :
    Outcome (applyProUpReg x.nHeight l tx) (TxStep x tx l) (Rejects x tx l) := by
  refine (payloadOrReject_outcome _).bind fun pl _ hpl => ?_
  split
  · exact fun _ _ => trivial
  · rename_i dmn hm
    refine (usedByOther_outcome hl _ _).bind fun other _ hother => ?_
    refine duplicateUnless_outcome.bind fun _ _ hfree => ?_
    have hkey := hl.key _ _ hm
    refine updated_outcome hl hm (.registrar pl hty hpl hkey.symm) (fun hne hnull => ?_) fun _ _ => ?_
    · rcases registrarState_addr x.nHeight dmn.pdmnState pl with h | h
      · exact (hne h.symm).elim
      · exact (hnull h).elim
    · rw [hkey]
      exact hother hfree

theorem applyProUpRev_outcome (hty : tx.nType = TxType.PROUPREV) (hl : RepInv l) :
    Outcome (applyProUpRev x.nHeight l tx) (TxStep x tx l) (Rejects x tx l) := by
  refine (payloadOrReject_outcome _).bind fun pl _ hpl => ?_
  split
  · exact fun _ _ => trivial
  · rename_i dmn hm
    refine updated_outcome hl hm (.revoked pl hty hpl (hl.key _ _ hm).symm) (fun _ hnull => ?_) fun _ hnull => ?_
    · exact (hnull (revokedState_addr ..)).elim
    · exact (hnull (revokedState_operator ..)).elim

/-- A special transaction is a step of its own kind or, hazards apart, is rejected. -/
theorem applySpecialTx_outcome (hl : RepInv l) :
    Outcome (applySpecialTx x.p x.env x.nHeight l tx) (TxStep x tx l) (Rejects x tx l) := by
  unfold applySpecialTx
  split
  · exact applyProReg_outcome ‹_› hl
  split
  · exact applyProUpServ_outcome ‹_› hl
  split
  · exact applyProUpReg_outcome ‹_› hl
  split
  · exact applyProUpRev_outcome ‹_› hl
  · exact .other ⟨‹_›, ‹_›, ‹_›, ‹_›⟩ rfl

theorem TxStep.steps (h : TxStep x tx l l') (htx : tx ∈ x.block.nonCoinbase) (hl : RepInv l) : BlockSteps x l l' := by
  cases h with
  | register pl l₁ hty hpl hcoll hrep hadd hb =>
    have hreg : BlockStep x l₁ l' := .register tx pl ⟨htx, hty, hpl⟩ hcoll hadd hb
    cases hrep with
    | unused _ heq => exact .single (heq ▸ hreg)
    | removed dmn hget hop hb₁ =>
      exact .tail (.single (.remove dmn.proTxHash dmn (hl.get_of_getUniquePropertyPN hget) hop
        (.inl ⟨tx, pl, ⟨htx, hty, hpl⟩, hget⟩) hb₁)) hreg
  | update dmn st hm hst hb => exact .single (.update _ dmn st hm (.updated tx htx hst) hb)
  | other _ heq => exact heq ▸ .refl

theorem applySpecialTx_steps (htx : tx ∈ x.block.nonCoinbase) (hl : RepInv l)
    (h : applySpecialTx x.p x.env x.nHeight l tx = .ok l') : BlockSteps x l l' :=
  ((applySpecialTx_outcome hl).of_ok h).steps htx hl

/-! ### Spent collaterals -/

theorem removeSpentCollateral_steps {prevout : COutPoint} (hmem : prevout ∈ x.block.prevouts) (hl : RepInv l)
    (h : removeSpentCollateral l prevout = .ok l') : BlockSteps x l l' := by
  unfold removeSpentCollateral at h
  split at h
  · cases h; exact .refl
  · rename_i dmn hget
    split_ifs at h with he
    · have hm := hl.get_of_getUniquePropertyPN hget
      obtain ⟨hop, hb⟩ := (removePN_outcome hl hm).of_ok h
      exact .single (.remove _ dmn hm hop (.inr (he ▸ hmem)) hb)
    · cases h; exact .refl

/-- `l'` keeps the nodes of `l` that are not selected, and those it drops had an operator key. -/
structure Removed (sel : CDeterministicPN → Prop) (l l' : CDeterministicPNList D) : Prop where
  rep : RepInv l'
  blockHash : l'.blockHash = l.blockHash
  nHeight : l'.nHeight = l.nHeight
  count : l'.nTotalRegisteredCount = l.nTotalRegisteredCount
  nodes : ∀ (a : uint256) dmn, l'.mnMap[a]? = some dmn ↔ l.mnMap[a]? = some dmn ∧ ¬sel dmn
  operator_ne : ∀ (a : uint256) dmn, l.mnMap[a]? = some dmn → sel dmn → dmn.pdmnState.keyIDOperator ≠ 0

def SelectsRevoked (sel : CDeterministicPN → Prop) (l : CDeterministicPNList D) : Prop :=
  ∃ (a : uint256) (dmn : CDeterministicPN), l.mnMap[a]? = some dmn ∧ sel dmn ∧ dmn.pdmnState.keyIDOperator = 0

variable {sel : CDeterministicPN → Prop}

theorem Removed.of_none (hl : RepInv l)
    (hnone : ∀ (a : uint256) dmn, l.mnMap[a]? = some dmn → ¬sel dmn) : Removed sel l l :=
  ⟨hl, rfl, rfl, rfl, fun a dmn => ⟨fun hm => ⟨hm, hnone a dmn hm⟩, And.left⟩,
    fun a dmn hm hsel => (hnone a dmn hm hsel).elim⟩

theorem removePN_removed (hl : RepInv l) (hm : l.mnMap[h]? = some dmn) (hsel : sel dmn)
    (honly : ∀ (a : uint256) d, l.mnMap[a]? = some d → sel d → h = a) :
    Outcome (l.removePN h) (Removed sel l) (fun _ => SelectsRevoked sel l) := by
  refine (removePN_outcome hl hm).mono (fun l' ⟨hop, hb⟩ => ⟨hb.rep, hb.blockHash, hb.nHeight, hb.count,
    fun a d => ?_, fun a d hd hs => ?_⟩) fun _ hop => ⟨h, dmn, hm, hsel, hop⟩
  · rw [hb.mnMap, FinMap.get_erase]
    split_ifs with ha
    · subst ha
      refine ⟨nofun, fun ⟨hd, hnot⟩ => ?_⟩
      rw [hm] at hd
      cases hd
      exact (hnot hsel).elim
    · exact ⟨fun hd => ⟨hd, fun hs => ha (honly a d hd hs)⟩, And.left⟩
  · obtain rfl := honly a d hd hs
    rw [hm] at hd
    cases hd
    exact hop

/-- A loop whose body removes the nodes with one key removes the nodes with any of the keys. -/
theorem removeLoop_outcome (key : CDeterministicPN → α) (hl : RepInv l)
    (hbody : ∀ pre a post t, as = pre ++ a :: post → Removed (fun d => key d ∈ pre) l t →
      Outcome (f t a) (Removed (fun d => key d = a) t) (fun _ => SelectsRevoked (fun d => key d = a) t)) :
    Outcome (as.foldlM f l) (Removed (fun d => key d ∈ as) l) (fun _ => SelectsRevoked (fun d => key d ∈ as) l) := by
  refine Outcome.foldlM (I := fun pre t => Removed (fun d => key d ∈ pre) l t) ?_
    (.of_none hl fun _ _ _ => List.not_mem_nil)
  intro pre a post t hsplit ht
  refine (hbody pre a post t hsplit ht).mono (fun t' ht' => ⟨ht'.rep, ht'.blockHash.trans ht.blockHash,
    ht'.nHeight.trans ht.nHeight, ht'.count.trans ht.count, fun b dmn => ?_, fun b dmn hm hmem => ?_⟩) ?_
  · rw [ht'.nodes, ht.nodes, List.mem_append, List.mem_singleton, not_or, and_assoc]
  · rw [List.mem_append, List.mem_singleton] at hmem
    by_cases hpre : key dmn ∈ pre
    · exact ht.operator_ne b dmn hm hpre
    · exact ht'.operator_ne b dmn ((ht.nodes b dmn).mpr ⟨hm, hpre⟩) (hmem.resolve_left hpre)
  · rintro _ ⟨b, dmn, hm, he, hop⟩
    have hmem : key dmn ∈ as := by rw [hsplit, he]; simp
    exact ⟨b, dmn, ((ht.nodes b dmn).mp hm).1, hmem, hop⟩

theorem removeSpentCollateral_outcome (hinj : CollisionFree D) (hl : RepInv l)
    (o : COutPoint) :
    Outcome (removeSpentCollateral l o) (Removed (fun d => d.collateralOutpoint = o) l)
      (fun _ => SelectsRevoked (fun d => d.collateralOutpoint = o) l) := by
  unfold removeSpentCollateral
  split
  · rename_i hnone
    refine .of_none hl fun a dmn hm he => ?_
    rw [(hl.getPNByCollateral_iff hinj).mpr ⟨hl.key a dmn hm ▸ hm, he⟩] at hnone
    cases hnone
  · rename_i dmn hget
    obtain ⟨hm, he⟩ := (hl.getPNByCollateral_iff hinj).mp hget
    rw [if_pos he]
    exact removePN_removed hl hm he fun a d hd he' => hl.collateral_injective hinj hm hd (he.trans he'.symm)

/-- Exactly the nodes whose collateral the block spends are removed. -/
theorem removeSpentCollaterals_outcome (hinj : CollisionFree D)
    (hl : RepInv l) (block : CBlock) :
    Outcome (removeSpentCollaterals block l) (Removed (fun d => d.collateralOutpoint ∈ block.prevouts) l)
      (fun _ => SelectsRevoked (fun d => d.collateralOutpoint ∈ block.prevouts) l) :=
  removeLoop_outcome CDeterministicPN.collateralOutpoint hl fun _ o _ _ _ ht =>
    removeSpentCollateral_outcome hinj ht.rep o

/-! ## The whole function -/

/-- The five stages of `BuildNewListFromBlock`. -/
theorem build_eq_ok : x.build = .ok l' ↔ ∃ l₁ l₂ l₃ l₄,
    confirmPNs x.p x.c x.env x.pindexPrev x.oldList x.start = .ok l₁ ∧
    l₁.decreasePoSePenalties x.env.order = .ok l₂ ∧
    x.block.nonCoinbase.foldlM (applySpecialTx x.p x.env x.nHeight) l₂ = .ok l₃ ∧
    removeSpentCollaterals x.block l₃ = .ok l₄ ∧
    markPaid x.nHeight (x.oldList.getPNPayee x.env.order) l₄ = .ok l' := by
  simp only [BlockInput.build, buildNewListFromBlock, bind_eq_ok]
  tauto

/-- The lists between the stages, with the steps that lead to them. -/
structure BuildStages (x : BlockInput D) (l₂ l₃ l₄ l' : CDeterministicPNList D) : Prop where
  before : BlockSteps x x.start l₂
  rep_before : RepInv l₂
  txs : x.block.nonCoinbase.foldlM (applySpecialTx x.p x.env x.nHeight) l₂ = .ok l₃
  txs_steps : BlockSteps x l₂ l₃
  rep_txs : RepInv l₃
  spends : removeSpentCollaterals x.block l₃ = .ok l₄
  spends_steps : BlockSteps x l₃ l₄
  rep_spends : RepInv l₄
  paid : markPaid x.nHeight (x.oldList.getPNPayee x.env.order) l₄ = .ok l'
  paid_steps : QuietSteps x l₄ l'

theorem build_stages (hold : RepInv x.oldList) (h : x.build = .ok l') : ∃ l₂ l₃ l₄, BuildStages x l₂ l₃ l₄ l' := by
  obtain ⟨l₁, l₂, l₃, l₄, h₁, h₂, h₃, h₄, h₅⟩ := build_eq_ok.mp h
  have q₁ := (confirmPNs_outcome hold).of_ok h₁
  have r₁ := BlockSteps.rep q₁.steps hold.start
  have q₂ := (decreasePoSePenalties_outcome r₁ fun _ => q₁.hasPN).of_ok h₂
  have r₂ := BlockSteps.rep q₂.steps r₁
  have s₃ := foldlM_steps (fun _ ha _ _ ht hs => applySpecialTx_steps ha ht hs) r₂ h₃
  have r₃ := BlockSteps.rep s₃ r₂
  have s₄ := foldlM_steps (fun _ ha _ _ ht hs => removeSpentCollateral_steps ha ht hs) r₃ h₄
  have r₄ := BlockSteps.rep s₄ r₃
  exact ⟨l₂, l₃, l₄, q₁.steps.trans q₂.steps, r₂, h₃, s₃, r₃, h₄, s₄, r₄, h₅, (markPaid_outcome r₄).of_ok h₅⟩

/-- **`BuildNewListFromBlock` is a sequence of steps.** -/
theorem build_steps (hold : RepInv x.oldList) (h : x.build = .ok l') : BlockSteps x x.start l' := by
  obtain ⟨l₂, l₃, l₄, st⟩ := build_stages hold h
  exact st.before.trans (st.txs_steps.trans (st.spends_steps.trans st.paid_steps.steps))

/-- No node of the new list has a collateral that the block spends. -/
theorem build_unspent (hinj : CollisionFree D) (hold : RepInv x.oldList)
    (h : x.build = .ok l') (a : uint256) (dmn : CDeterministicPN) (hm : l'.mnMap[a]? = some dmn) :
    dmn.collateralOutpoint ∉ x.block.prevouts := by
  obtain ⟨l₂, l₃, l₄, st⟩ := build_stages hold h
  obtain ⟨d, hd, hsame⟩ := st.paid_steps.nodes a dmn hm
  rw [hsame.node]
  exact (((removeSpentCollaterals_outcome hinj st.rep_txs x.block).of_ok st.spends).nodes a d |>.mp hd).2

theorem build_header (hold : RepInv x.oldList) (h : x.build = .ok l') : l'.blockHash = 0 ∧ l'.nHeight = x.nHeight :=
  (build_steps hold h).invariant (I := fun l => l.blockHash = 0 ∧ l.nHeight = x.nHeight)
    (fun _ _ _ hI hs => ⟨hs.header.1.trans hI.1, hs.header.2.trans hI.2⟩) hold.start ⟨rfl, rfl⟩

theorem process_eq_ok : x.process = .ok l' ↔ (∀ tx ∈ x.block.vtx, x.check tx = .ok ()) ∧
    newListOfBlock x.p x.c x.env x.block x.pindexPrev x.oldList = .ok l' := by
  simp only [BlockInput.process, processSpecialTxsInBlock, bind_eq_ok]
  exact ⟨fun ⟨(), h, h'⟩ => ⟨forM_eq_ok.mp h, h'⟩, fun ⟨h, h'⟩ => ⟨(), forM_eq_ok.mpr h, h'⟩⟩

theorem newListOfBlock_eq_ok : newListOfBlock x.p x.c x.env x.block x.pindexPrev x.oldList = .ok l' ↔
    (isDIP3Enforced x.p (x.pindexPrev.nHeight + 1) = false ∧ l' = {}) ∨
    (isDIP3Enforced x.p (x.pindexPrev.nHeight + 1) = true ∧
      ∃ new, x.build = .ok new ∧ l' = { new with blockHash := x.block.getHash }) := by
  unfold newListOfBlock
  cases isDIP3Enforced x.p (x.pindexPrev.nHeight + 1) with
  | false => simp [eq_comm]
  | true =>
    rw [if_pos rfl, bind_eq_ok]
    simp only [catchException_eq_ok, pure_eq_ok, reduceCtorEq, false_and, false_or, true_and]
    exact exists_congr fun new => and_congr Iff.rfl eq_comm

end Stages

end TrumpCoin
