import TrumpCoin.Evo.Chain

/-!
# Rotation of payees

`GetPNPayee` selects the valid node with the least key, the height of its last payment, revival or registration.
A `Run` records the list after every block of a chain; over a run

* the key of a node never exceeds the height of its list (`Run.heights_le`);
* the key of a node paid at height `h` stays at least `h` (`Run.paidSince`);
* the key of a node changes only when it is paid, revived or registered (`Run.key_eq`),

so between two payments of one node every other node that stays valid is paid (`payee_rotation`).
-/

namespace TrumpCoin

open Lib

variable {D : Type} [Digest D] {l : CDeterministicPNList D}

/-! ## The payee of a list -/

theorem compareByLastPaid_iff {a b : CDeterministicPN} : compareByLastPaid a b = true ↔
    compareByLastPaidGetHeight a < compareByLastPaidGetHeight b ∨
    compareByLastPaidGetHeight a = compareByLastPaidGetHeight b ∧ a.proTxHash < b.proTxHash := by
  simp only [compareByLastPaid]
  split_ifs with h
  · simp [h]
  · simp [h]

theorem compareByLastPaid_irrefl (a : CDeterministicPN) : compareByLastPaid a a = false := by
  rw [Bool.eq_false_iff, ne_eq, compareByLastPaid_iff]
  rintro (h | ⟨-, h⟩)
  · exact Int.lt_irrefl _ h
  · exact BitVec.lt_irrefl _ h

theorem compareByLastPaid_trans (a b d : CDeterministicPN) (hab : compareByLastPaid a b = true)
    (hbd : compareByLastPaid b d = true) : compareByLastPaid a d = true := by
  rw [compareByLastPaid_iff] at hab hbd ⊢
  rcases hab with hab | ⟨hab, hlt⟩ <;> rcases hbd with hbd | ⟨hbd, hlt'⟩
  · exact .inl (Int.lt_trans hab hbd)
  · exact .inl (hbd ▸ hab)
  · exact .inl (hab ▸ hbd)
  · exact .inr ⟨hab.trans hbd, BitVec.lt_trans hlt hlt'⟩

theorem compareByLastPaid_total {a b : CDeterministicPN} (hab : compareByLastPaid a b = false)
    (hba : compareByLastPaid b a = false) : a.proTxHash = b.proTxHash := by
  rw [Bool.eq_false_iff, ne_eq, compareByLastPaid_iff, not_or, not_and] at hab hba
  have hkey : compareByLastPaidGetHeight a = compareByLastPaidGetHeight b := by omega
  exact BitVec.le_antisymm (BitVec.not_lt.mp (hba.2 hkey.symm)) (BitVec.not_lt.mp (hab.2 hkey))

theorem getPNPayee_order (hl : RepInv l) (order order' : MapOrder) : l.getPNPayee order = l.getPNPayee order' := by
  refine best_perm compareByLastPaid_irrefl compareByLastPaid_trans (fun a ha b hb hab hba => ?_) ?_
  · obtain ⟨⟨h, hm⟩, -⟩ := mem_forEachPN.mp ha
    obtain ⟨⟨h', hm'⟩, -⟩ := mem_forEachPN.mp hb
    have he := compareByLastPaid_total hab hba
    rw [hl.key h a hm, hl.key h' b hm'] at he
    subst he
    exact Option.some.inj (hm.symm.trans hm')
  · exact ((order.perm l.mnMap).trans (order'.perm l.mnMap).symm).filter _

/-- A payee: a valid node of the list that no valid node comes before. -/
structure IsPayee (l : CDeterministicPNList D) (dmn : CDeterministicPN) : Prop where
  mem : l.mnMap[dmn.proTxHash]? = some dmn
  valid : dmn.isPNValid = true
  least : ∀ (h : uint256) other, l.mnMap[h]? = some other → other.isPNValid = true →
    compareByLastPaid other dmn = false

theorem getPNPayee_isPayee (hl : RepInv l) {order : MapOrder} {dmn : CDeterministicPN}
    (h : l.getPNPayee order = some dmn) : IsPayee l dmn := by
  obtain ⟨⟨a, ha⟩, hvalid⟩ := mem_forEachPN.mp (best_mem h)
  refine ⟨?_, hvalid rfl, fun a' other hm hv => ?_⟩
  · rw [hl.key a dmn ha]
    exact ha
  · exact best_least compareByLastPaid_irrefl compareByLastPaid_trans h other
      (mem_forEachPN.mpr ⟨⟨a', hm⟩, fun _ => hv⟩)

/-! ## Heights within a block -/

section Block

variable {x : BlockInput D} {l' : CDeterministicPNList D}

structure HeightsLe (n : Int) (s : CDeterministicPNState) : Prop where
  registered : s.nRegisteredHeight ≤ n
  lastPaid : s.nLastPaidHeight ≤ n
  revived : s.nPoSeRevivedHeight ≤ n

variable {dmn : CDeterministicPN} {n : Int} {st : CDeterministicPNState}

theorem UpdatedBy.heights {nHeight : Int} {tx : CTransaction}
    (h : UpdatedBy nHeight tx dmn st) : st.nRegisteredHeight = dmn.pdmnState.nRegisteredHeight ∧
    st.nLastPaidHeight = dmn.pdmnState.nLastPaidHeight ∧
    (st.nPoSeRevivedHeight = dmn.pdmnState.nPoSeRevivedHeight ∨ st.nPoSeRevivedHeight = nHeight) := by
  cases h with
  | service pl =>
    unfold serviceState
    dsimp only
    split
    · exact ⟨rfl, rfl, .inr rfl⟩
    · exact ⟨rfl, rfl, .inl rfl⟩
  | registrar pl =>
    unfold registrarState CDeterministicPNState.banIfNotBanned CDeterministicPNState.resetOperatorFields
    split <;> [split; skip] <;> exact ⟨rfl, rfl, .inl rfl⟩
  | revoked pl =>
    unfold revokedState CDeterministicPNState.banIfNotBanned CDeterministicPNState.resetOperatorFields
    split <;> exact ⟨rfl, rfl, .inl rfl⟩

theorem StateChange.heights (h : StateChange x dmn st) :
    st.nRegisteredHeight = dmn.pdmnState.nRegisteredHeight ∧
    (st.nLastPaidHeight = dmn.pdmnState.nLastPaidHeight ∨ st.nLastPaidHeight = x.nHeight ∧
      ∃ payee, x.oldList.getPNPayee x.env.order = some payee ∧ payee.proTxHash = dmn.proTxHash) ∧
    (st.nPoSeRevivedHeight = dmn.pdmnState.nPoSeRevivedHeight ∨ st.nPoSeRevivedHeight = x.nHeight) := by
  cases h with
  | confirmed | decreased => exact ⟨rfl, .inl rfl, .inl rfl⟩
  | updated tx _ hst => exact ⟨hst.heights.1, .inl hst.heights.2.1, hst.heights.2.2⟩
  | paid payee hpayee hkey => exact ⟨rfl, .inr ⟨rfl, payee, hpayee, hkey⟩, .inl rfl⟩

/-- A property that holds of new nodes and is kept by the changes of the node `a` holds of it after the block. -/
theorem build_node {P : CDeterministicPN → Prop} {a : uint256} (hold : RepInv x.oldList)
    (hnew : ∀ id tx pl, P (newPN x.nHeight id tx pl))
    (hchange : ∀ dmn st, dmn.proTxHash = a → P dmn → StateChange x dmn st → P { dmn with pdmnState := st })
    (hP : ∀ dmn, x.oldList.mnMap[a]? = some dmn → P dmn) (hbuild : x.build = .ok l') (dmn : CDeterministicPN)
    (hm : l'.mnMap[a]? = some dmn) : P dmn := by
  have hsteps := build_steps hold hbuild
  refine BlockSteps.nodes (P := fun d => d.proTxHash = a → P d) (fun tx pl id _ _ _ => hnew id tx pl)
    (fun d st hd hst hkey => hchange d st hkey (hd hkey) hst) hsteps hold.start (fun b d hd hkey => hP d ?_) a dmn hm
    ((BlockSteps.rep hsteps hold.start).key a dmn hm)
  rw [← hkey, hold.key b d hd]
  exact hd

theorem build_heightsLe {a : uint256} (hold : RepInv x.oldList) (hpos : 0 ≤ x.nHeight)
    (hle : ∀ dmn, x.oldList.mnMap[a]? = some dmn → HeightsLe x.nHeight dmn.pdmnState) (hbuild : x.build = .ok l') :
    ∀ dmn, l'.mnMap[a]? = some dmn → HeightsLe x.nHeight dmn.pdmnState := by
  refine build_node hold (fun id tx pl => ?_) (fun d st _ hd hst => ?_) hle hbuild
  · exact ⟨Int.le_refl _, hpos, Int.le_trans (by decide : (-1 : Int) ≤ 0) hpos⟩
  · obtain ⟨h₁, h₂, h₃⟩ := hst.heights
    refine ⟨h₁ ▸ hd.registered, ?_, ?_⟩
    · rcases h₂ with h₂ | ⟨h₂, -⟩
      · exact h₂ ▸ hd.lastPaid
      · exact Int.le_of_eq h₂
    · rcases h₃ with h₃ | h₃
      · exact h₃ ▸ hd.revived
      · exact Int.le_of_eq h₃

/-- The node was paid, or registered and not paid yet, at height `n` or later. -/
def PaidSince (n : Int) (s : CDeterministicPNState) : Prop :=
  n ≤ s.nLastPaidHeight ∨
    s.nLastPaidHeight = 0 ∧ n ≤ s.nRegisteredHeight ∧ (s.nPoSeRevivedHeight = -1 ∨ n ≤ s.nPoSeRevivedHeight)

theorem PaidSince.le_key (h : PaidSince n dmn.pdmnState) (hpos : 0 < n) : n ≤ compareByLastPaidGetHeight dmn := by
  unfold PaidSince at h
  simp only [compareByLastPaidGetHeight]
  split
  · omega
  · split
    · omega
    · omega

theorem HeightsLe.key_le (h : HeightsLe n dmn.pdmnState) : compareByLastPaidGetHeight dmn ≤ n := by
  obtain ⟨h₁, h₂, h₃⟩ := h
  simp only [compareByLastPaidGetHeight]
  split
  · exact h₃
  · split
    · exact h₁
    · exact h₂

theorem build_paidSince {a : uint256} (hold : RepInv x.oldList) (hn : n ≤ x.nHeight)
    (hsince : ∀ dmn, x.oldList.mnMap[a]? = some dmn → PaidSince n dmn.pdmnState) (hbuild : x.build = .ok l') :
    ∀ dmn, l'.mnMap[a]? = some dmn → PaidSince n dmn.pdmnState := by
  refine build_node hold (fun id tx pl => .inr ⟨rfl, hn, .inl rfl⟩) (fun d st _ hd hst => ?_) hsince hbuild
  · obtain ⟨h₁, h₂, h₃⟩ := hst.heights
    unfold PaidSince at hd ⊢
    dsimp only
    rcases h₂ with h₂ | ⟨h₂, -⟩ <;> rcases h₃ with h₃ | h₃ <;> omega

theorem build_paid {payee : CDeterministicPN} (hold : RepInv x.oldList)
    (hpayee : x.oldList.getPNPayee x.env.order = some payee) (hbuild : x.build = .ok l') (dmn : CDeterministicPN)
    (hm : l'.mnMap[payee.proTxHash]? = some dmn) : dmn.pdmnState.nLastPaidHeight = x.nHeight := by
  obtain ⟨l₂, l₃, l₄, st⟩ := build_stages hold hbuild
  have h₅ := st.paid
  have r₄ := st.rep_spends
  rw [hpayee] at h₅
  unfold markPaid at h₅
  dsimp only at h₅
  split at h₅
  · rename_i hnone
    cases h₅
    rw [show l'.mnMap[payee.proTxHash]? = none from hnone] at hm
    cases hm
  · rename_i d hd
    have hb := ((updatePNByHash_outcome (x := x) r₄ hd (.paid payee hpayee (r₄.key _ _ hd).symm)).of_ok h₅).2
    rw [hb.mnMap, FinMap.get_insert_self] at hm
    cases hm
    rfl

theorem build_unpaid {a : uint256} {b b' : CDeterministicPN} (hold : RepInv x.oldList)
    (hb : x.oldList.mnMap[a]? = some b)
    (hnot : ∀ payee, x.oldList.getPNPayee x.env.order = some payee → payee.proTxHash ≠ a)
    (hbuild : x.build = .ok l') (hb' : l'.mnMap[a]? = some b') :
    b'.pdmnState.nRegisteredHeight = x.nHeight ∨
      b'.pdmnState.nLastPaidHeight = b.pdmnState.nLastPaidHeight := by
  refine build_node (P := fun d => d.pdmnState.nRegisteredHeight = x.nHeight ∨
    d.pdmnState.nLastPaidHeight = b.pdmnState.nLastPaidHeight) hold (fun id tx pl => .inl rfl)
    (fun d st hkey hd hst => ?_) (fun d hd => ?_) hbuild b' hb'
  · obtain ⟨h₁, h₂, -⟩ := hst.heights
    rcases hd with hreg | hpaid
    · exact .inl (h₁.trans hreg)
    · rcases h₂ with h₂ | ⟨-, payee, hpayee, hsame⟩
      · exact .inr (h₂.trans hpaid)
      · exact (hnot payee hpayee (hsame.trans hkey)).elim
  · cases hb.symm.trans hd
    exact .inr rfl

end Block

/-! ## Runs -/

/-- A chain of `n` blocks with the index entry and the list after each of them. -/
structure Run (D : Type) [Digest D] (p : CChainParams) (c : Crypto) (n : Nat) where
  pindex : Nat → CBlockIndex
  list : Nat → CDeterministicPNList D
  genesis : (∃ hash, pindex 0 = .genesis hash) ∧ list 0 = {}
  connect : ∀ h, h < n → ∃ (env : Env) (block : CBlock) (old : CDeterministicPNList D), Recount (list h) old ∧
    (pindex h).nHeight + 1 < 2 ^ 31 ∧ pindex (h + 1) = .child (pindex h) block.getHash ∧
    (⟨p, c, env, block, pindex h, old⟩ : BlockInput D).process = .ok (list (h + 1))

namespace Run

variable {p : CChainParams} {c : Crypto} {n : Nat} (r : Run D p c n)

/-- The node `a` is the payee of the list before block `h`. -/
def Pays (order : MapOrder) (h : Nat) (a : uint256) : Prop :=
  ∃ dmn, (r.list (h - 1)).getPNPayee order = some dmn ∧ dmn.proTxHash = a

/-- The node `a` is listed and valid after each of the blocks `first` to `last`, and neither registered again nor
revived. -/
def StaysValid (a : uint256) (first last : Nat) : Prop :=
  ∃ registered revived : Int, ∀ k, first ≤ k → k ≤ last → ∃ b : CDeterministicPN, (r.list k).mnMap[a]? = some b ∧
    b.isPNValid = true ∧ b.pdmnState.nRegisteredHeight = registered ∧ b.pdmnState.nPoSeRevivedHeight = revived

variable {h : Nat} {a : uint256} {order : MapOrder} {b : CDeterministicPN}

theorem pays_iff : r.Pays order h a ↔
    ((r.list (h - 1)).getPNPayee order).map CDeterministicPN.proTxHash = some a := by
  rw [Pays, Option.map_eq_some_iff]

theorem staysValid_of_any {first last : Nat} (registered revived : Int)
    (h : ∀ k ∈ List.range' first (last + 1 - first), ((r.list k).mnMap[a]?).any (fun b => decide (b.isPNValid = true ∧
      b.pdmnState.nRegisteredHeight = registered ∧ b.pdmnState.nPoSeRevivedHeight = revived)) = true) :
    r.StaysValid a first last := by
  refine ⟨registered, revived, fun k hk hk' => ?_⟩
  obtain ⟨b, hb, hvalid⟩ := (Option.any_eq_true _ _).mp (h k (List.mem_range'_1.mpr (by omega)))
  exact ⟨b, hb, of_decide_eq_true hvalid⟩

theorem chain (hn : h ≤ n) : ∃ blocks, Chain p c blocks (r.pindex h) (r.list h) ∧ (r.pindex h).nHeight = h := by
  induction h with
  | zero =>
    obtain ⟨⟨hash, hpindex⟩, hlist⟩ := r.genesis
    rw [hpindex, hlist]
    exact ⟨[], .genesis hash, rfl⟩
  | succ h ih =>
    obtain ⟨blocks, hc, hheight⟩ := ih (by omega)
    obtain ⟨env, block, old, hcount, hlt, hpindex, hnew⟩ := r.connect h (by omega)
    rw [hpindex]
    exact ⟨block :: blocks, .connect env block hc hcount hlt hnew, congrArg (· + 1) hheight⟩

theorem rep (hn : h ≤ n) : RepInv (r.list h) := by
  obtain ⟨blocks, hc, -⟩ := r.chain hn
  exact hc.rep

/-- A node of a list of a run is one of the list that the block builds. -/
theorem step_node (hn : h < n) (hb : (r.list (h + 1)).mnMap[a]? = some b) :
    ∃ (x : BlockInput D) (new : CDeterministicPNList D), x.build = .ok new ∧ RepInv x.oldList ∧
      x.nHeight = (h + 1 : Nat) ∧ x.oldList.mnMap = (r.list h).mnMap ∧ new.mnMap[a]? = some b := by
  obtain ⟨blocks, hc, hheight⟩ := r.chain (Nat.le_of_lt hn)
  obtain ⟨env, block, old, hcount, -, -, hnew⟩ := r.connect h hn
  have hold := hcount.rep hc.rep
  rcases process_cases hold hnew with ⟨-, heq⟩ | ⟨-, new, hbuild, -, -, heq⟩
  · rw [heq, FinMap.get_empty] at hb
    cases hb
  · rw [heq] at hb
    refine ⟨_, new, hbuild, hold, ?_, hcount.mnMap, hb⟩
    simp only [BlockInput.nHeight, hheight]
    omega

theorem heights_le (hn : h ≤ n) (hb : (r.list h).mnMap[a]? = some b) : HeightsLe h b.pdmnState := by
  induction h generalizing b with
  | zero =>
    rw [r.genesis.2, FinMap.get_empty] at hb
    cases hb
  | succ h ih =>
    obtain ⟨x, new, hbuild, hold, hheight, hmap, hb'⟩ := r.step_node hn hb
    rw [← hheight]
    refine build_heightsLe hold (by omega) (fun d hd => ?_) hbuild b hb'
    obtain ⟨h₁, h₂, h₃⟩ := ih (by omega) (hmap ▸ hd)
    exact ⟨by omega, by omega, by omega⟩

theorem payee_eq (hn : h ≤ n) {order order' : MapOrder} {l : CDeterministicPNList D}
    (hmap : l.mnMap = (r.list h).mnMap) : l.getPNPayee order' = (r.list h).getPNPayee order := by
  rw [getPNPayee_order (r.rep hn) order order']
  unfold CDeterministicPNList.getPNPayee CDeterministicPNList.forEachPN
  rw [hmap]

theorem paidSince (hpos : 1 ≤ h) (hpays : r.Pays order h a) {k : Nat} (hk : h ≤ k) (hn : k ≤ n)
    (hb : (r.list k).mnMap[a]? = some b) :
    PaidSince h b.pdmnState := by
  induction k, hk using Nat.le_induction generalizing b with
  | base =>
    obtain ⟨g, rfl⟩ : ∃ g, h = g + 1 := ⟨h - 1, by omega⟩
    obtain ⟨payee, hpayee, rfl⟩ := hpays
    obtain ⟨x, new, hbuild, hold, hheight, hmap, hb'⟩ := r.step_node hn hb
    have hpaid := build_paid hold ((r.payee_eq (by omega) hmap).trans hpayee) hbuild b hb'
    exact .inl (by omega)
  | succ k hk ih =>
    obtain ⟨x, new, hbuild, hold, hheight, hmap, hb'⟩ := r.step_node hn hb
    exact build_paidSince hold (by omega) (fun d hd => ih (by omega) (hmap ▸ hd)) hbuild b hb'

/-- The key of a node that stays valid changes only when it is paid. -/
theorem key_eq {first last : Nat} (hstays : r.StaysValid a first last) (hn : last ≤ n)
    (hnot : ∀ h, first < h → h ≤ last → ¬r.Pays order h a) {k : Nat} (hk : first ≤ k) (hlast : k ≤ last)
    {b b' : CDeterministicPN} (hb : (r.list first).mnMap[a]? = some b) (hb' : (r.list k).mnMap[a]? = some b') :
    compareByLastPaidGetHeight b' = compareByLastPaidGetHeight b := by
  obtain ⟨registered, revived, hstays⟩ := hstays
  induction k, hk using Nat.le_induction generalizing b' with
  | base =>
    rw [hb] at hb'
    cases hb'
    rfl
  | succ k hk ih =>
    obtain ⟨d, hd, -, hreg, hrev⟩ := hstays k hk (by omega)
    obtain ⟨d', hd', -, hreg', hrev'⟩ := hstays (k + 1) (by omega) hlast
    rw [hb'] at hd'
    cases hd'
    rw [← ih (by omega) hd]
    obtain ⟨x, new, hbuild, hold, hheight, hmap, hnew⟩ := r.step_node (by omega) hb'
    have hle := (r.heights_le (by omega) hd).registered
    have hpaid : b'.pdmnState.nLastPaidHeight = d.pdmnState.nLastPaidHeight := by
      refine (build_unpaid hold (hmap ▸ hd) (fun payee hpayee hsame => ?_) hbuild hnew).resolve_left (by omega)
      exact hnot (k + 1) (by omega) hlast ⟨payee, (r.payee_eq (by omega) hmap).symm.trans hpayee, hsame⟩
    simp only [compareByLastPaidGetHeight]
    rw [hpaid, hreg, hreg', hrev, hrev']

/-- The state after the oldest `h` of some blocks (newest first). -/
def stateAfter (D : Type) [Digest D] (p : CChainParams) (c : Crypto) (hash : uint256) (bs : List (Env × CBlock))
    (h : Nat) : CBlockIndex × CDeterministicPNList D :=
  match connectBlocks D p c hash (bs.drop (bs.length - h)) with
  | .ok r => r
  | .error _ => (.genesis hash, {})

theorem connectBlocks_drop {hash : uint256} : ∀ {bs : List (Env × CBlock)} (h : Nat),
    (∃ r, connectBlocks D p c hash bs = .ok r) → ∃ r, connectBlocks D p c hash (bs.drop h) = .ok r
  | bs, 0, hok => hok
  | [], _ + 1, hok => hok
  | (_, _) :: _, h + 1, ⟨_, hok⟩ => by
    simp only [connectBlocks, bind_eq_ok] at hok
    obtain ⟨r, hprev, -⟩ := hok
    exact connectBlocks_drop h ⟨r, hprev⟩

theorem stateAfter_succ {hash : uint256} {bs : List (Env × CBlock)} (hlen : bs.length < 2 ^ 31)
    (hok : ∃ r, connectBlocks D p c hash bs = .ok r) {b : Env × CBlock} (hb : bs[bs.length - (h + 1)]? = some b)
    (hn : h < bs.length) :
    (stateAfter D p c hash bs h).1.nHeight = h ∧
      (stateAfter D p c hash bs (h + 1)).1 = .child (stateAfter D p c hash bs h).1 b.2.getHash ∧
      (⟨p, c, b.1, b.2, (stateAfter D p c hash bs h).1, (stateAfter D p c hash bs h).2⟩ : BlockInput D).process =
        .ok (stateAfter D p c hash bs (h + 1)).2 := by
  obtain ⟨r, hr⟩ := connectBlocks_drop (bs.length - (h + 1)) hok
  have hstate : stateAfter D p c hash bs (h + 1) = r := by rw [stateAfter, hr]
  have hcons : bs.drop (bs.length - (h + 1)) = b :: bs.drop (bs.length - h) := by
    obtain ⟨hlt, rfl⟩ := List.getElem?_eq_some_iff.mp hb
    rw [List.drop_eq_getElem_cons hlt]
    congr 2
    omega
  rw [hcons] at hr
  simp only [connectBlocks, bind_eq_ok] at hr
  obtain ⟨⟨pindexPrev, l⟩, hprev, new, hnew, hr⟩ := hr
  cases hr
  have hstate' : stateAfter D p c hash bs h = (pindexPrev, l) := by rw [stateAfter, hprev]
  have hheight : pindexPrev.nHeight = (bs.drop (bs.length - h)).length :=
    (Chain.of_connectBlocks hprev (by rw [List.length_drop]; omega)).2
  rw [hstate, hstate']
  rw [List.length_drop] at hheight
  exact ⟨by dsimp only; omega, rfl, hnew⟩

def ofBlocks (hash : uint256) (bs : List (Env × CBlock)) (hlen : bs.length < 2 ^ 31)
    (hok : ∃ r, connectBlocks D p c hash bs = .ok r) : Run D p c bs.length where
  pindex h := (stateAfter D p c hash bs h).1
  list h := (stateAfter D p c hash bs h).2
  genesis := by
    rw [stateAfter, Nat.sub_zero, List.drop_length]
    exact ⟨⟨hash, rfl⟩, rfl⟩
  connect h hn := by
    obtain ⟨hheight, hpindex, hnew⟩ := stateAfter_succ hlen hok
      (List.getElem?_eq_getElem (by omega : bs.length - (h + 1) < bs.length)) hn
    exact ⟨_, _, _, .refl _, by omega, hpindex, hnew⟩

end Run

/-- **Rotation of payees.** In every run: between two payments of one node, every other node that stays valid is
paid; and every payee is a least one among the valid nodes of the list before the block. -/
theorem payee_rotation {p : CChainParams} {c : Crypto} {n : Nat} (r : Run D p c n) (order : MapOrder) :
    (∀ (h₁ h₂ : Nat) (a b : uint256), 1 ≤ h₁ → h₁ < h₂ → h₂ ≤ n → r.Pays order h₁ a → r.Pays order h₂ a → b ≠ a →
      r.StaysValid b (h₁ - 1) (h₂ - 1) → ∃ h, h₁ < h ∧ h < h₂ ∧ r.Pays order h b) ∧
    (∀ (h : Nat) (dmn : CDeterministicPN), 1 ≤ h → h ≤ n → (r.list (h - 1)).getPNPayee order = some dmn →
      IsPayee (r.list (h - 1)) dmn) := by
  refine ⟨fun h₁ h₂ a b hpos hlt hn hpays₁ hpays₂ hne hstays => ?_, fun h dmn hpos hn hpayee => ?_⟩
  · by_contra hnone
    have hnot : ∀ h, h₁ - 1 < h → h ≤ h₂ - 1 → ¬r.Pays order h b := by
      intro h hlow hhigh hpays
      rcases Nat.lt_or_ge h₁ h with hlt' | hge
      · exact hnone ⟨h, hlt', by omega, hpays⟩
      · -- block `h₁` pays `a`
        obtain rfl : h = h₁ := by omega
        obtain ⟨d, hd, rfl⟩ := hpays
        obtain ⟨d', hd', rfl⟩ := hpays₁
        rw [hd] at hd'
        cases hd'
        exact hne rfl
    obtain ⟨payee, hpayee, rfl⟩ := hpays₂
    have hleast := getPNPayee_isPayee (r.rep (by omega)) hpayee
    obtain ⟨_, _, hvalid⟩ := id hstays
    obtain ⟨b₁, hb₁, -⟩ := hvalid (h₁ - 1) (by omega) (by omega)
    obtain ⟨b₂, hb₂, hval, -⟩ := hvalid (h₂ - 1) (by omega) (by omega)
    have hkey := r.key_eq hstays (by omega) hnot (by omega) (Nat.le_refl _) hb₁ hb₂
    have hle := (r.heights_le (by omega) hb₁).key_le
    have hge := (r.paidSince hpos hpays₁ (k := h₂ - 1) (by omega) (by omega) hleast.mem).le_key (by omega)
    have hbefore := compareByLastPaid_iff.mpr (.inl (show compareByLastPaidGetHeight b₂ <
      compareByLastPaidGetHeight payee by omega))
    rw [hleast.least b b₂ hb₂ hval] at hbefore
    cases hbefore
  · exact getPNPayee_isPayee (r.rep (by omega)) hpayee

namespace Sample

def registerService (h : uint256) (k : CKeyID) (ip : BitVec 128) : CTransaction :=
  { register h k with
    extraPayload := some (ProRegPL.codec.write
      { collateralOutpoint := ⟨0, 0⟩, addr := ⟨ip, 1⟩, keyIDOwner := k, keyIDOperator := k + 1, keyIDVoting := k + 2,
        scriptPayout := p2pkh (k + 3), inputsHash := 0 }) }

def twoNodesBlock : CBlock :=
  { hash := 0xb1, vtx := [coinbase 0xc1, registerService 0x11 0x51 0xffff01020304, registerService 0x21 0x61 0xffff01020305] }

def oneNodeBlock : CBlock := { hash := 0xb1, vtx := [coinbase 0xc1, registerService 0x11 0x51 0xffff01020304] }

def emptyBlock (h : uint256) : CBlock := { hash := h, vtx := [coinbase (h + 0x10)] }

def twoNodes : List (Env × CBlock) :=
  [emptyBlock 0xb4, emptyBlock 0xb3, emptyBlock 0xb2, twoNodesBlock].map fun b => (env, b)

def oneNode : List (Env × CBlock) := [emptyBlock 0xb3, emptyBlock 0xb2, oneNodeBlock].map fun b => (env, b)

theorem twoNodes_connect : Returns (connectBlocks Bytes params crypto 0xb0 twoNodes) (fun _ => True) := by
  decide +kernel

theorem oneNode_connect : Returns (connectBlocks Bytes params crypto 0xb0 oneNode) (fun _ => True) := by
  decide +kernel

def twoNodesRun : Run Bytes params crypto 4 :=
  .ofBlocks 0xb0 twoNodes (by decide) (twoNodes_connect.exists_ok.imp fun _ h => h.1)

def oneNodeRun : Run Bytes params crypto 3 :=
  .ofBlocks 0xb0 oneNode (by decide) (oneNode_connect.exists_ok.imp fun _ h => h.1)

end Sample

open Sample

theorem payee_rotation_sample : twoNodesRun.Pays .byHash 2 0x11 ∧ twoNodesRun.Pays .byHash 4 0x11 ∧
    twoNodesRun.StaysValid 0x21 1 3 ∧ ∃ h, 2 < h ∧ h < 4 ∧ twoNodesRun.Pays .byHash h 0x21 := by
  have hpays₁ : twoNodesRun.Pays .byHash 2 0x11 := (Run.pays_iff _).mpr (by decide +kernel)
  have hpays₂ : twoNodesRun.Pays .byHash 4 0x11 := (Run.pays_iff _).mpr (by decide +kernel)
  have hstays : twoNodesRun.StaysValid 0x21 1 3 := Run.staysValid_of_any _ 1 (-1) (by decide +kernel)
  exact ⟨hpays₁, hpays₂, hstays, (payee_rotation twoNodesRun .byHash).1 2 4 0x11 0x21 (by decide) (by decide)
    (by decide) hpays₁ hpays₂ (by decide) hstays⟩

/-- The only node of a list is paid by every block: the rotation is about other nodes. -/
theorem payee_rotation_single : oneNodeRun.Pays .byHash 2 0x11 ∧ oneNodeRun.Pays .byHash 3 0x11 ∧
    oneNodeRun.StaysValid 0x11 1 2 ∧ ¬∃ h, 2 < h ∧ h < 3 ∧ oneNodeRun.Pays .byHash h 0x11 := by
  refine ⟨(Run.pays_iff _).mpr (by decide +kernel), (Run.pays_iff _).mpr (by decide +kernel),
    Run.staysValid_of_any _ 1 (-1) (by decide +kernel), ?_⟩
  rintro ⟨h, hlow, hhigh, -⟩
  omega

end TrumpCoin
