import TrumpCoin.Evo.Rotation

/-!
# The projected payees

`GetProjectedPNPayees` sorts the valid nodes once. Over blocks without special transactions that spend no collateral,
a node changes only by confirmations, penalties and payments (`Follows`), and a node that was paid goes behind all the
others, so the blocks pay the nodes in the order of that sort (`payment_projection`).
-/

namespace TrumpCoin

open Lib

variable {D : Type} [Digest D] {l : CDeterministicPNList D}

/-! ## The sort -/

namespace CDeterministicPNList

def getValidPNsCount (l : CDeterministicPNList D) : Nat := (l.mnMap.vals.filter CDeterministicPN.isPNValid).length

/-- The valid nodes in the order of their payments. Different nodes have different hashes, so that every sort gives
the same. -/
def sortedPayees (l : CDeterministicPNList D) (order : MapOrder) : List CDeterministicPN :=
  (l.forEachPN order true).mergeSort fun a b => !compareByLastPaid b a

def getProjectedPNPayees (l : CDeterministicPNList D) (order : MapOrder) (nCount : Nat) : List CDeterministicPN :=
  (l.sortedPayees order).take (min nCount l.getValidPNsCount)

theorem length_sortedPayees (l : CDeterministicPNList D) (order : MapOrder) :
    (l.sortedPayees order).length = l.getValidPNsCount := by
  rw [sortedPayees, List.length_mergeSort]
  exact ((order.perm l.mnMap).filter _).length_eq

theorem mem_sortedPayees (hl : RepInv l) {order : MapOrder} {dmn : CDeterministicPN} :
    dmn ∈ l.sortedPayees order ↔ l.mnMap[dmn.proTxHash]? = some dmn ∧ dmn.isPNValid = true := by
  rw [sortedPayees, List.mem_mergeSort, mem_forEachPN]
  constructor
  · rintro ⟨⟨a, ha⟩, hvalid⟩
    exact ⟨(hl.key a dmn ha).symm ▸ ha, hvalid rfl⟩
  · rintro ⟨hm, hvalid⟩
    exact ⟨⟨_, hm⟩, fun _ => hvalid⟩

theorem nodup_sortedPayees (hl : RepInv l) (order : MapOrder) : (l.sortedPayees order).Nodup :=
  (List.mergeSort_perm _ _).nodup_iff.mpr (nodup_forEachPN hl order true)

theorem sortedPayees_pairwise (hl : RepInv l) (order : MapOrder) :
    (l.sortedPayees order).Pairwise fun a b => compareByLastPaid a b = true := by
  have hsorted : (l.sortedPayees order).Pairwise fun a b => (!compareByLastPaid b a) = true := by
    refine List.pairwise_mergeSort (fun a b d hab hbd => ?_) (fun a b => ?_) _
    · simp only [Bool.not_eq_true', Bool.eq_false_iff, ne_eq, compareByLastPaid_iff, BitVec.lt_def] at hab hbd ⊢
      omega
    · simp only [Bool.or_eq_true, Bool.not_eq_true', Bool.eq_false_iff, ne_eq, compareByLastPaid_iff, BitVec.lt_def]
      omega
  refine (hsorted.and (nodup_sortedPayees hl order)).imp_of_mem fun {a b} ha hb hboth => ?_
  obtain ⟨hnot, hne⟩ := hboth
  by_contra hlt
  have hkey := compareByLastPaid_total (Bool.eq_false_iff.mpr hlt) ((Bool.not_eq_true' _).mp hnot)
  have hma := ((mem_sortedPayees hl).mp ha).1
  rw [hkey, ((mem_sortedPayees hl).mp hb).1] at hma
  exact hne (Option.some.inj hma).symm

end CDeterministicPNList

/-- Every visiting order finds the one node that qualifies as payee. -/
theorem IsPayee.getPNPayee (hl : RepInv l) {dmn : CDeterministicPN} (h : IsPayee l dmn) (order : MapOrder) :
    l.getPNPayee order = some dmn := by
  cases hbest : l.getPNPayee order with
  | none =>
    have hmem : dmn ∈ l.forEachPN order true := mem_forEachPN.mpr ⟨⟨_, h.mem⟩, fun _ => h.valid⟩
    rw [best_eq_none.mp hbest] at hmem
    cases hmem
  | some payee =>
    have hpayee := getPNPayee_isPayee hl hbest
    have hkey := compareByLastPaid_total (h.least _ _ hpayee.mem hpayee.valid) (hpayee.least _ _ h.mem h.valid)
    rw [← h.mem, ← hkey, hpayee.mem]

/-! ## Blocks without special transactions -/

/-- `b` is `a` after confirmations, penalties and payments. -/
def Follows (a b : CDeterministicPN) : Prop :=
  b = { a with pdmnState := { a.pdmnState with
    confirmedHash := b.pdmnState.confirmedHash
    confirmedHashWithProRegTxHash := b.pdmnState.confirmedHashWithProRegTxHash
    nPoSePenalty := b.pdmnState.nPoSePenalty
    nLastPaidHeight := b.pdmnState.nLastPaidHeight } }

theorem Follows.refl (a : CDeterministicPN) : Follows a a := rfl

theorem Follows.trans {a b d : CDeterministicPN} (h : Follows a b) (h' : Follows b d) : Follows a d := by
  unfold Follows at *
  rw [h', h]

variable {a b : CDeterministicPN}

theorem Follows.isPNValid (h : Follows a b) : b.isPNValid = a.isPNValid := by
  rw [h]
  rfl

theorem Follows.proTxHash (h : Follows a b) : b.proTxHash = a.proTxHash := by rw [h]

theorem Follows.key_eq (h : Follows a b) (hpaid : b.pdmnState.nLastPaidHeight = a.pdmnState.nLastPaidHeight) :
    compareByLastPaidGetHeight b = compareByLastPaidGetHeight a := by
  rw [h]
  simp only [compareByLastPaidGetHeight, hpaid]

/-- The block has no special transactions besides the coinbase and spends no collateral of the list. -/
structure QuietBlock (l : CDeterministicPNList D) (block : CBlock) : Prop where
  normal : ∀ tx ∈ block.nonCoinbase, tx.nType = TxType.NORMAL
  unspent : ∀ (a : uint256) (dmn : CDeterministicPN), l.mnMap[a]? = some dmn → dmn.collateralOutpoint ∉ block.prevouts

section Block

variable {x : BlockInput D} {l' : CDeterministicPNList D}

/-- The nodes of `l` are those of the old list, changed as a quiet block does. -/
structure QuietNodes (x : BlockInput D) (l : CDeterministicPNList D) : Prop where
  keeps : ∀ a, x.oldList.hasPN a = true → l.hasPN a = true
  nodes : ∀ (a : uint256) b, l.mnMap[a]? = some b → ∃ a₀ : CDeterministicPN, x.oldList.mnMap[a]? = some a₀ ∧ Follows a₀ b

theorem QuietNodes.step (hquiet : QuietBlock x.oldList x.block) {l l' : CDeterministicPNList D} (h : QuietNodes x l)
    (hstep : BlockStep x l l') : QuietNodes x l' := by
  cases hstep with
  | register tx pl htx =>
    have htype := (hquiet.normal tx htx.1).symm.trans htx.2.1
    exact absurd htype (by decide)
  | update a dmn st hm hst hb =>
    obtain ⟨a₀, ha₀, hfollows⟩ := h.nodes a dmn hm
    have hchange : Follows dmn { dmn with pdmnState := st } := by
      cases hst with
      | confirmed | decreased | paid => rfl
      | updated tx htx hst =>
        cases hst with
        | service pl hty | registrar pl hty | revoked pl hty =>
          have htype := (hquiet.normal tx htx).symm.trans hty
          exact absurd htype (by decide)
    constructor
    · intro a' ha'
      rw [hasPN_iff, hb.mnMap, FinMap.get_insert]
      split
      · exact ⟨_, rfl⟩
      · exact hasPN_iff.mp (h.keeps a' ha')
    · rw [hb.mnMap]
      exact FinMap.forall_insert h.nodes ⟨a₀, ha₀, hfollows.trans hchange⟩
  | remove a dmn hm _ hwhy _ =>
    obtain ⟨a₀, ha₀, hfollows⟩ := h.nodes a dmn hm
    rcases hwhy with ⟨tx, pl, htx, -⟩ | hspent
    · have htype := (hquiet.normal tx htx.1).symm.trans htx.2.1
      exact absurd htype (by decide)
    · rw [hfollows] at hspent
      exact absurd hspent (hquiet.unspent a a₀ ha₀)

theorem build_quietNodes (hold : RepInv x.oldList) (hquiet : QuietBlock x.oldList x.block) (hbuild : x.build = .ok l') :
    QuietNodes x l' :=
  (build_steps hold hbuild).invariant (I := QuietNodes x) (fun _ _ _ hI hstep => hI.step hquiet hstep) hold.start
    ⟨fun _ h => h, fun _ b hb => ⟨b, hb, .refl b⟩⟩

end Block

/-! ## Runs of quiet blocks -/

namespace Run

variable {p : CChainParams} {c : Crypto} {n : Nat} (r : Run D p c n)

def Quiet (h : Nat) : Prop :=
  ∃ (env : Env) (block : CBlock) (old : CDeterministicPNList D), Recount (r.list h) old ∧
    (⟨p, c, env, block, r.pindex h, old⟩ : BlockInput D).process = .ok (r.list (h + 1)) ∧ QuietBlock (r.list h) block

theorem enforced {h : Nat} (hn : h ≤ n) {a : uint256} {b : CDeterministicPN} (hb : (r.list h).mnMap[a]? = some b) :
    isDIP3Enforced p (h + 1) = true := by
  cases h with
  | zero =>
    rw [r.genesis.2, FinMap.get_empty] at hb
    cases hb
  | succ h =>
    obtain ⟨blocks, hc, hheight⟩ := r.chain (Nat.le_of_lt hn)
    obtain ⟨env, block, old, hcount, -, -, hnew⟩ := r.connect h hn
    rcases process_cases (hcount.rep hc.rep) hnew with ⟨-, heq⟩ | ⟨hdip, -⟩
    · rw [heq, FinMap.get_empty] at hb
      cases hb
    · simp only [isDIP3Enforced, CChainParams.networkUpgradeActive, decide_eq_true_eq, hheight] at hdip ⊢
      push_cast at hdip ⊢
      exact ⟨hdip.1, by omega⟩

variable {order : MapOrder} {m : Nat}

/-- The nodes after `i` quiet blocks: the first `i` of the sort were paid, the others were not. -/
structure Round (order : MapOrder) (m i : Nat) : Prop where
  keeps : ∀ a, (r.list m).hasPN a = true → (r.list (m + i)).hasPN a = true
  nodes : ∀ (a : uint256) b, (r.list (m + i)).mnMap[a]? = some b → ∃ a₀ : CDeterministicPN,
    (r.list m).mnMap[a]? = some a₀ ∧ Follows a₀ b ∧
      if a₀ ∈ ((r.list m).sortedPayees order).take i then (m : Int) < b.pdmnState.nLastPaidHeight
      else b.pdmnState.nLastPaidHeight = a₀.pdmnState.nLastPaidHeight

theorem round_zero : r.Round order m 0 where
  keeps _ h := h
  nodes a b hb := ⟨b, hb, .refl b, by rw [List.take_zero, if_neg List.not_mem_nil]⟩

theorem lt_key_of_paid (hn : m ≤ n) {a₀ b : CDeterministicPN} {a : uint256} (ha₀ : (r.list m).mnMap[a]? = some a₀)
    (hfollows : Follows a₀ b) (hpaid : (m : Int) < b.pdmnState.nLastPaidHeight) :
    (m : Int) < compareByLastPaidGetHeight b := by
  have hrevived : b.pdmnState.nPoSeRevivedHeight ≤ m := by
    rw [hfollows]
    exact (r.heights_le hn ha₀).revived
  simp only [compareByLastPaidGetHeight]
  split
  · omega
  · split <;> omega

variable {i : Nat}

/-- After `i` quiet blocks the payee is the node at place `i` of the projection. -/
theorem Round.payee (h : r.Round order m i) (hn : m + i ≤ n) {dmn : CDeterministicPN}
    (hi : ((r.list m).sortedPayees order)[i]? = some dmn) :
    ∃ payee, IsPayee (r.list (m + i)) payee ∧ Follows dmn payee ∧
      payee.pdmnState.nLastPaidHeight = dmn.pdmnState.nLastPaidHeight := by
  have hrep := r.rep (show m ≤ n by omega)
  obtain ⟨hlt, hget⟩ := List.getElem?_eq_some_iff.mp hi
  have hnodup := CDeterministicPNList.nodup_sortedPayees hrep order
  have hsorted := List.pairwise_iff_getElem.mp (CDeterministicPNList.sortedPayees_pairwise hrep order)
  obtain ⟨hm, hvalid⟩ := (CDeterministicPNList.mem_sortedPayees hrep).mp (List.mem_of_getElem? hi)
  obtain ⟨payee, hpayee⟩ := hasPN_iff.mp (h.keeps dmn.proTxHash (hasPN_iff.mpr ⟨dmn, hm⟩))
  obtain ⟨a₀, ha₀, hfollows, hpaid⟩ := h.nodes _ _ hpayee
  rw [hm] at ha₀
  cases ha₀
  have hnot : dmn ∉ ((r.list m).sortedPayees order).take i := by
    intro hmem
    obtain ⟨j, hj, hjget⟩ := List.mem_take_iff_getElem.mp hmem
    have hij := (hnodup.getElem_inj_iff).mp (hjget.trans hget.symm)
    omega
  rw [if_neg hnot] at hpaid
  have hkey := hfollows.key_eq hpaid
  refine ⟨payee, ⟨hfollows.proTxHash.symm ▸ hpayee, hfollows.isPNValid.trans hvalid, ?_⟩, hfollows, hpaid⟩
  intro a other hother hothervalid
  obtain ⟨b₀, hb₀, hfollows', hpaid'⟩ := h.nodes a other hother
  have hmem : b₀ ∈ (r.list m).sortedPayees order := by
    refine (CDeterministicPNList.mem_sortedPayees hrep).mpr ⟨?_, hfollows'.isPNValid.symm.trans hothervalid⟩
    exact (hrep.key a b₀ hb₀).symm ▸ hb₀
  obtain ⟨j, hj, rfl⟩ := List.mem_iff_getElem.mp hmem
  rw [Bool.eq_false_iff, ne_eq, compareByLastPaid_iff, hfollows.proTxHash, hfollows'.proTxHash, hkey]
  split at hpaid'
  · -- it was paid after height `m`, and the payee was not
    have := r.lt_key_of_paid (by omega) hb₀ hfollows' hpaid'
    have := (r.heights_le (by omega) hm).key_le
    omega
  · rename_i hrest
    rw [hfollows'.key_eq hpaid']
    have hij : i ≤ j := by
      by_contra hji
      exact hrest (List.mem_take_iff_getElem.mpr ⟨j, by omega, rfl⟩)
    rcases Nat.lt_or_eq_of_le hij with hlt' | rfl
    · have hbefore := compareByLastPaid_iff.mp (hsorted i j hlt hj hlt')
      rw [hget] at hbefore
      simp only [BitVec.lt_def] at hbefore ⊢
      omega
    · rw [hget]
      simp

/-- A quiet block pays the next node of the sort. -/
theorem Round.succ (h : r.Round order m i) (hn : m + i < n) (hquiet : r.Quiet (m + i)) {dmn : CDeterministicPN}
    (hi : ((r.list m).sortedPayees order)[i]? = some dmn) : r.Round order m (i + 1) := by
  have hrep := r.rep (show m ≤ n by omega)
  obtain ⟨payee, hpayee, hfollows, -⟩ := h.payee r (by omega) hi
  obtain ⟨env, block, old, hcount, hnew, hblock⟩ := hquiet
  obtain ⟨blocks, hc, hheight⟩ := r.chain (show m + i ≤ n by omega)
  have hold := hcount.rep hc.rep
  have hdip := r.enforced (by omega) hpayee.mem
  rcases process_cases hold hnew with ⟨hnot, -⟩ | ⟨-, new, hbuild, -, -, heq⟩
  · rw [hheight, hdip] at hnot
    cases hnot
  have hmap : old.mnMap = (r.list (m + i)).mnMap := hcount.mnMap
  have hlist : (r.list (m + (i + 1))).mnMap = new.mnMap := by
    rw [show m + (i + 1) = m + i + 1 by omega, heq]
  have hnodes := build_quietNodes hold ⟨hblock.normal, hmap ▸ hblock.unspent⟩ hbuild
  have hpays : old.getPNPayee env.order = some payee :=
    (r.payee_eq (by omega) hmap).trans (hpayee.getPNPayee hc.rep env.order)
  have hheight' : (⟨p, c, env, block, r.pindex (m + i), old⟩ : BlockInput D).nHeight = m + i + 1 := by
    simp only [BlockInput.nHeight, hheight]
    push_cast
    rfl
  constructor
  · intro a ha
    have hkeeps := h.keeps a ha
    rw [hasPN_iff, ← hmap, ← hasPN_iff] at hkeeps
    rw [hasPN_iff, hlist, ← hasPN_iff]
    exact hnodes.keeps a hkeeps
  · intro a b hb
    rw [hlist] at hb
    obtain ⟨b₁, hb₁, hfollows₁⟩ := hnodes.nodes a b hb
    have hb₁ : (r.list (m + i)).mnMap[a]? = some b₁ := hmap ▸ hb₁
    obtain ⟨a₀, ha₀, hfollows₀, hpaid⟩ := h.nodes a b₁ hb₁
    refine ⟨a₀, ha₀, hfollows₀.trans hfollows₁, ?_⟩
    rw [List.take_add_one, hi, Option.toList_some]
    by_cases hsame : a = payee.proTxHash
    · -- the payee
      subst hsame
      have hdmn := ((CDeterministicPNList.mem_sortedPayees hrep).mp (List.mem_of_getElem? hi)).1
      rw [hfollows.proTxHash, hdmn] at ha₀
      cases ha₀
      rw [if_pos (List.mem_append_right _ (List.mem_singleton.mpr rfl)), build_paid hold hpays hbuild b hb, hheight']
      omega
    · have hregistered : b.pdmnState.nRegisteredHeight ≤ m := by
        rw [hfollows₀.trans hfollows₁]
        exact (r.heights_le (by omega) ha₀).registered
      have hunpaid : b.pdmnState.nLastPaidHeight = b₁.pdmnState.nLastPaidHeight := by
        refine (build_unpaid hold (hmap ▸ hb₁) (fun q hq heq => hsame ?_) hbuild hb).resolve_left (by omega)
        rw [hpays] at hq
        cases hq
        exact heq.symm
      have hne : a₀ ≠ dmn := by
        rintro rfl
        exact hsame ((hrep.key a _ ha₀).symm.trans hfollows.proTxHash.symm)
      simp only [List.mem_append, List.mem_singleton, hne, or_false, hunpaid]
      exact hpaid

theorem round {k : Nat} (hn : m + k ≤ n) (hk : k ≤ ((r.list m).sortedPayees order).length)
    (hquiet : ∀ i < k, r.Quiet (m + i)) (hi : i ≤ k) : r.Round order m i := by
  induction i with
  | zero => exact r.round_zero
  | succ i ih =>
    exact (ih (by omega)).succ r (by omega) (hquiet i hi) (List.getElem?_eq_getElem (by omega))

end Run

/-- **Payment projection.** The projected payees of a list are those that the next blocks pay, as long as these have no
special transactions and spend no collateral. -/
theorem payment_projection {p : CChainParams} {c : Crypto} {n : Nat} (r : Run D p c n) (order order' : MapOrder)
    {m : Nat} (nCount : Nat) (hn : m + min nCount (r.list m).getValidPNsCount ≤ n)
    (hquiet : ∀ i < min nCount (r.list m).getValidPNsCount, r.Quiet (m + i)) :
    ((r.list m).getProjectedPNPayees order nCount).length = min nCount (r.list m).getValidPNsCount ∧
    ∀ i dmn, ((r.list m).getProjectedPNPayees order nCount)[i]? = some dmn →
      ∃ payee, (r.list (m + i)).getPNPayee order' = some payee ∧ Follows dmn payee ∧
        payee.pdmnState.nLastPaidHeight = dmn.pdmnState.nLastPaidHeight := by
  have hlength := (r.list m).length_sortedPayees order
  constructor
  · rw [CDeterministicPNList.getProjectedPNPayees, List.length_take, hlength]
    omega
  · intro i dmn hi
    rw [CDeterministicPNList.getProjectedPNPayees, List.getElem?_take] at hi
    split at hi
    · rename_i hlt
      have hround : r.Round order m i := r.round hn (by omega) hquiet (Nat.le_of_lt hlt)
      obtain ⟨payee, hpayee, hfollows⟩ := hround.payee r (by omega) hi
      exact ⟨payee, hpayee.getPNPayee (r.rep (by omega)) order', hfollows⟩
    · cases hi

theorem Run.quiet_ofBlocks {p : CChainParams} {c : Crypto} {hash : uint256} {bs : List (Env × CBlock)}
    {hlen : bs.length < 2 ^ 31} {hok : ∃ r, connectBlocks D p c hash bs = .ok r} {h : Nat} {b : Env × CBlock}
    (hb : bs[bs.length - (h + 1)]? = some b) (hn : h < bs.length) (hempty : b.2.nonCoinbase = []) :
    (Run.ofBlocks hash bs hlen hok).Quiet h := by
  obtain ⟨-, -, hnew⟩ := Run.stateAfter_succ hlen hok hb hn
  refine ⟨_, _, _, .refl _, hnew, ⟨fun tx htx => ?_, fun a dmn _ hspent => ?_⟩⟩
  · rw [hempty] at htx
    cases htx
  · rw [CBlock.prevouts, hempty] at hspent
    cases hspent

open Sample

theorem payment_projection_twoNodes : (twoNodesRun.list 1).getValidPNsCount = 2 ∧
    ((twoNodesRun.list 1).getProjectedPNPayees .byHash 5).length =
      min 5 (twoNodesRun.list 1).getValidPNsCount ∧
    ∀ i dmn, ((twoNodesRun.list 1).getProjectedPNPayees .byHash 5)[i]? = some dmn →
      ∃ payee, (twoNodesRun.list (1 + i)).getPNPayee .byHash = some payee ∧ Follows dmn payee ∧
        payee.pdmnState.nLastPaidHeight = dmn.pdmnState.nLastPaidHeight := by
  have hcount : (twoNodesRun.list 1).getValidPNsCount = 2 := by decide +kernel
  refine ⟨hcount, payment_projection twoNodesRun .byHash .byHash 5 (by rw [hcount]; decide) fun i hi => ?_⟩
  rw [hcount] at hi
  have hi : i = 0 ∨ i = 1 := by omega
  rcases hi with rfl | rfl
  · exact Run.quiet_ofBlocks (b := (env, emptyBlock 0xb2)) rfl (by decide) rfl
  · exact Run.quiet_ofBlocks (b := (env, emptyBlock 0xb3)) rfl (by decide) rfl

end TrumpCoin
