import TrumpCoin.Chainstate.ConnectBlock

/-!
# What a block may issue

`ConnectBlock` adds up what a block mints and computes the mint that it expects, but does not compare the two. What
the fees have in common with the mint cancels: a block mints what its coinbase pays and what its coinstakes gain
(`BlockConnected.nMint_eq`).

* `supply_step`: the coins, the shielded pool and the unredeemed zerocoins grow by the mint without the fees at most;
* `supply_bound_iff`: when the mint stays within the allowance.
-/

namespace TrumpCoin

open Lib

/-! ## Values of a transaction at its place in a block -/

/-- What `GetValueOut` returns where it does not throw. -/
def CTransaction.outValue (tx : CTransaction) : Int := tx.voutSum + max 0 (-tx.valueBalance)

namespace CCoinsViewCache

variable (view : CCoinsViewCache) (tx : CTransaction)

def inValue : Int := if tx.isCoinBase then 0 else (tx.vin.map view.inputValue).sum + max 0 tx.valueBalance

/-- What a coinbase pays and what a coinstake gains. -/
def issued : Int := if tx.isCoinBase || tx.isCoinStake then tx.outValue - view.inValue tx else 0

/-- The fee of any other transaction. -/
def feePaid : Int := if tx.isCoinBase || tx.isCoinStake then 0 else view.inValue tx - tx.outValue

/-- The value that a transaction with zerocoin inputs has without spending a coin. -/
def redeemed : Int := if tx.hasZerocoinSpendInputs then view.inValue tx else 0

/-- What a transaction adds to the zerocoins that are minted and not redeemed. -/
def zerocoinsLeft : Int := zerocoinMinted tx - view.redeemed tx

variable {view tx}

theorem getValueIn_eq_ok {v : Int} (h : view.getValueIn tx = .ok v) : v = view.inValue tx := by
  unfold getValueIn at h
  unfold inValue
  split_ifs at h with hcb
  · cases h
    rw [if_pos hcb]
  · obtain ⟨w, hw, h⟩ := bind_eq_ok.mp h
    cases h
    rw [if_neg hcb, CTransaction.getShieldedValueIn_eq_ok hw]

end CCoinsViewCache

section Sums

variable (p : CChainParams) (V : NodeChecks) (N : NodeEnv) (nHeight : Nat)

def viewAfter (view : CCoinsViewCache) (tx : CTransaction) : CCoinsViewCache :=
  match view.updateCoins N.hasEntry (invalidOutAt p V nHeight) tx nHeight with
  | .ok r => r.1
  | .error _ => view

/-- The sum of an amount over transactions, each at the view that it is connected on. -/
def sumAlong (f : CCoinsViewCache → CTransaction → Int) : CCoinsViewCache → List CTransaction → Int
  | _, [] => 0
  | view, tx :: txs => f view tx + sumAlong f (viewAfter p V N nHeight view tx) txs

variable {p V N nHeight}

theorem sumAlong_add (f g : CCoinsViewCache → CTransaction → Int) : ∀ (view : CCoinsViewCache)
    (txs : List CTransaction), sumAlong p V N nHeight (fun v tx => f v tx + g v tx) view txs =
      sumAlong p V N nHeight f view txs + sumAlong p V N nHeight g view txs
  | _, [] => rfl
  | view, tx :: txs => by
    simp only [sumAlong, sumAlong_add f g]
    omega

variable {nTime : Nat} {s s' t : ConnectState} {tx : CTransaction}

theorem TxConnected.view_eq (h : TxConnected p V N nHeight s tx s') :
    s'.view = viewAfter p V N nHeight s.view tx := by
  obtain ⟨vprevout, hcoins, -⟩ := h.coins
  rw [viewAfter, hcoins]

theorem TxConnected.sums (h : TxConnected p V N nHeight s tx s') :
    s'.nFees = s.nFees + s.view.feePaid tx ∧
    s'.nValueOut - s'.nValueIn + s'.nFees = s.nValueOut - s.nValueIn + s.nFees + s.view.issued tx := by
  obtain ⟨v, hv, hout, hin⟩ := h.values
  obtain ⟨-, hv⟩ := CTransaction.getValueOut_eq_ok hv
  have hv : v = tx.outValue := hv
  unfold CCoinsViewCache.feePaid CCoinsViewCache.issued
  rcases hin with ⟨hcb, hin, hfees⟩ | ⟨hcb, w, hw, hin, hfees⟩
  · have hzero : s.view.inValue tx = 0 := if_pos hcb
    rw [hcb, Bool.true_or, if_pos rfl, if_pos rfl]
    omega
  · have hw := CCoinsViewCache.getValueIn_eq_ok hw
    rw [hcb, Bool.false_or]
    split at hfees <;> rename_i hcs
    · rw [if_pos hcs, if_pos hcs]
      omega
    · rw [if_neg hcs, if_neg hcs]
      omega

theorem loop_sums {txs : List CTransaction} (h : txs.foldlM (connectTx p V N nHeight nTime) s = .ok t) :
    t.nFees = s.nFees + sumAlong p V N nHeight CCoinsViewCache.feePaid s.view txs ∧
    t.nValueOut - t.nValueIn + t.nFees =
      s.nValueOut - s.nValueIn + s.nFees + sumAlong p V N nHeight CCoinsViewCache.issued s.view txs := by
  induction txs generalizing s with
  | nil =>
    cases h
    simp [sumAlong]
  | cons tx txs ih =>
    rw [List.foldlM_cons] at h
    obtain ⟨u, hstep, h⟩ := bind_eq_ok.mp h
    have hu := connectTx_eq_ok hstep
    obtain ⟨hfees, hmint⟩ := ih h
    obtain ⟨hfee, hissued⟩ := hu.sums
    rw [hu.view_eq] at hfees hmint
    rw [sumAlong, sumAlong]
    omega

end Sums

/-! ## Coins, pool and zerocoins -/

section Growth

variable {p : CChainParams} {V : NodeChecks} {N : NodeEnv} {nHeight nTime : Nat} {s s' t : ConnectState}
  {tx : CTransaction}

/-- What a shielded transaction puts into the pool. -/
def poolGain (tx : CTransaction) : Int := if tx.isShieldedTx then -tx.valueBalance else 0

theorem poolGain_eq (h : CheckedTx tx) : poolGain tx = -tx.valueBalance := by
  unfold poolGain
  split_ifs with hnot
  · rfl
  · by_contra hne
    have hvb : tx.valueBalance ≠ 0 := by omega
    exact hnot (by rw [CTransaction.isShieldedTx, (h.shielded hvb).1, tx.hasSaplingData_of_valueBalance hvb]; rfl)

theorem saplingValue_eq (block : CBlock) : block.saplingValue = (block.vtx.map poolGain).sum := by
  unfold CBlock.saplingValue
  induction block.vtx with
  | nil => rfl
  | cons tx txs ih =>
    rw [List.map_cons, List.sum_cons, ← ih, poolGain, List.filter_cons]
    split
    · rfl
    · omega

theorem inValue_eq (view : CCoinsViewCache) (hcb : tx.isCoinBase = false) (hzc : tx.hasZerocoinSpendInputs = false) :
    view.inValue tx =
      (tx.vin.map fun txin => (view.accessCoin txin.prevout).out.nValue).sum + max 0 tx.valueBalance := by
  rw [CCoinsViewCache.inValue, hcb, if_neg Bool.false_ne_true]
  congr 2
  refine List.map_congr_left fun txin hmem => ?_
  rw [CTransaction.hasZerocoinSpendInputs, List.any_eq_false] at hzc
  exact if_neg (hzc txin hmem)

/-- A transaction that is connected adds to the coins, to the pool and to the unredeemed zerocoins no more than its
outputs exceed its inputs. -/
theorem TxConnected.growth (hn : s.view.Nonneg) (hchecked : CheckedTx tx) (h : TxConnected p V N nHeight s tx s') :
    s'.view.Nonneg ∧ s'.view.total + poolGain tx + s.view.zerocoinsLeft tx ≤
      s.view.total + (tx.outValue - s.view.inValue tx) := by
  obtain ⟨v, hv, -⟩ := h.values
  obtain ⟨hpos, -⟩ := CTransaction.getValueOut_eq_ok hv
  obtain ⟨vprevout, hcoins, -⟩ := h.coins
  obtain ⟨hn', htotal⟩ := CCoinsViewCache.updateCoins_total hn ⟨hchecked.nodup, h.have_inputs⟩ hpos hcoins
  refine ⟨hn', ?_⟩
  rw [poolGain_eq hchecked]
  unfold CTransaction.outValue CCoinsViewCache.zerocoinsLeft CCoinsViewCache.redeemed
  have hplain : tx.isCoinBase = true ∨ tx.hasZerocoinSpendInputs = true → tx.valueBalance = 0 := by
    intro hkind
    by_contra hne
    obtain ⟨-, -, hcb, hzc⟩ := hchecked.shielded hne
    rcases hkind with h | h
    · rw [hcb] at h; cases h
    · rw [hzc] at h; cases h
  cases hcb : tx.isCoinBase with
  | true =>
    have hvb := hplain (.inl hcb)
    have hzero : s.view.inValue tx = 0 := if_pos hcb
    rw [hcb] at htotal
    simp only [Bool.true_eq_false, false_and, if_false] at htotal
    split <;> omega
  | false =>
    cases hzc : tx.hasZerocoinSpendInputs with
    | true =>
      have hvb := hplain (.inr hzc)
      rw [hzc] at htotal
      simp only [Bool.true_eq_false, and_false, if_false] at htotal
      rw [if_pos rfl]
      omega
    | false =>
      rw [if_pos ⟨hcb, hzc⟩] at htotal
      have := inValue_eq s.view hcb hzc
      rw [if_neg Bool.false_ne_true]
      omega

theorem loop_growth {txs : List CTransaction} (hn : s.view.Nonneg) (hchecked : ∀ tx ∈ txs, CheckedTx tx)
    (h : txs.foldlM (connectTx p V N nHeight nTime) s = .ok t) :
    t.view.Nonneg ∧ t.view.total + (txs.map poolGain).sum +
        sumAlong p V N nHeight CCoinsViewCache.zerocoinsLeft s.view txs ≤
      s.view.total + sumAlong p V N nHeight (fun view tx => tx.outValue - view.inValue tx) s.view txs := by
  induction txs generalizing s with
  | nil =>
    cases h
    exact ⟨hn, by simp [sumAlong]⟩
  | cons tx txs ih =>
    rw [List.foldlM_cons] at h
    obtain ⟨u, hstep, h⟩ := bind_eq_ok.mp h
    rw [List.forall_mem_cons] at hchecked
    have hu := connectTx_eq_ok hstep
    obtain ⟨hn', hle⟩ := hu.growth hn hchecked.1
    obtain ⟨hn'', hle'⟩ := ih hn' hchecked.2 h
    rw [hu.view_eq] at hle'
    simp only [sumAlong, List.map_cons, List.sum_cons] at hle' ⊢
    exact ⟨hn'', by rw [← hu.view_eq] at hle' ⊢; omega⟩

end Growth

/-! ## Blocks and chains -/

section Supply

variable {D : Type} [Digest D] (p : CChainParams) (c : Crypto) (V : NodeChecks) (N : NodeEnv)

/-- What the source expects a block to mint, with the payment that the budget schedules. -/
def allowance (nHeight : Nat) (block : CBlock) (nFees : Int) : Int :=
  getBlockValue nHeight + 1 + (if block.isProofOfStake then 0 else nFees) +
    (N.payees.budgetman.getExpectedPayeeAmount nHeight).getD 0

/-- The coinbase and the gains of the coinstakes stay within the allowance. -/
def IssuesWithin (block : CBlock) (s : ChainState D) : Prop :=
  sumAlong p V N (s.pindex.nHeight + 1) CCoinsViewCache.issued s.view block.vtx ≤
    allowance N (s.pindex.nHeight + 1) block
      (sumAlong p V N (s.pindex.nHeight + 1) CCoinsViewCache.feePaid s.view block.vtx)

instance (block : CBlock) (s : ChainState D) : Decidable (IssuesWithin p V N block s) :=
  inferInstanceAs (Decidable (_ ≤ _))

def zerocoinsAdded (block : CBlock) (s : ChainState D) : Int :=
  sumAlong p V N (s.pindex.nHeight + 1) CCoinsViewCache.zerocoinsLeft s.view block.vtx

/-- Chains of connected blocks that issue within their allowances, with the zerocoins that are left. -/
inductive IssuedWithin : List ChainLink → ChainState D → Int → Prop
  | genesis (hash : uint256) : IssuedWithin [] (.genesis V hash) 0
  | connect {links : List ChainLink} {s : ChainState D} {zerocoins : Int} {old : CDeterministicPNList D}
      {r : ConnectResult D} (N : NodeEnv) (block : CBlock) (hprev : IssuedWithin links s zerocoins)
      (hnew : ConnectsOnto p c V s N block old r) (hwithin : IssuesWithin p V N block s) :
      IssuedWithin (⟨N, block, r.nFees⟩ :: links) r.state (zerocoins + zerocoinsAdded p V N block s)

def allowances : List ChainLink → Int
  | [] => 0
  | link :: links => allowance link.env (links.length + 1) link.block link.nFees + allowances links

variable {p c V N} {block : CBlock} {s : ChainState D} {t : ConnectState} {r : ConnectResult D}

theorem BlockConnected.nFees_eq (h : BlockConnected p c V N block s t r) :
    r.nFees = sumAlong p V N (s.pindex.nHeight + 1) CCoinsViewCache.feePaid s.view block.vtx := by
  obtain ⟨tree, -, hloop⟩ := h.loop
  rw [h.result]
  simpa using (loop_sums hloop).1

/-- The fees cancel: the mint is what the coinbase pays and what the coinstakes gain. -/
theorem BlockConnected.nMint_eq (h : BlockConnected p c V N block s t r) :
    r.nMint = sumAlong p V N (s.pindex.nHeight + 1) CCoinsViewCache.issued s.view block.vtx := by
  obtain ⟨tree, -, hloop⟩ := h.loop
  rw [h.result]
  simpa using (loop_sums hloop).2

theorem supply_step (hn : s.view.Nonneg) (h : BlockConnected p c V N block s t r) :
    r.state.view.Nonneg ∧ r.state.view.total + r.state.nChainSaplingValue + zerocoinsAdded p V N block s ≤
      s.view.total + s.nChainSaplingValue + (r.nMint - r.nFees) := by
  obtain ⟨tree, -, hloop⟩ := h.loop
  obtain ⟨hn', hle⟩ := loop_growth hn h.checked.txs hloop
  have hsplit : sumAlong p V N (s.pindex.nHeight + 1) CCoinsViewCache.issued s.view block.vtx =
      sumAlong p V N (s.pindex.nHeight + 1) (fun view tx => tx.outValue - view.inValue tx) s.view block.vtx +
        sumAlong p V N (s.pindex.nHeight + 1) CCoinsViewCache.feePaid s.view block.vtx := by
    rw [← sumAlong_add]
    congr 1
    funext view tx
    unfold CCoinsViewCache.issued CCoinsViewCache.feePaid
    split <;> omega
  have hmint := h.nMint_eq
  have hfees := h.nFees_eq
  have hview : r.state.view.coins = t.view.coins := by
    rw [h.result]
    exact CCoinsViewCache.pushAnchor_coins _ _
  have htotal : r.state.view.total = t.view.total := by rw [CCoinsViewCache.total, hview]; rfl
  have hpool : r.state.nChainSaplingValue = s.nChainSaplingValue + block.saplingValue := by rw [h.result]
  have hpool' := saplingValue_eq block
  refine ⟨fun o coin hget => hn' o coin (by rw [← hview]; exact hget), ?_⟩
  unfold zerocoinsAdded
  dsimp only at hle
  omega

theorem IssuedWithin.connected {links : List ChainLink} {z : Int} (h : IssuedWithin p c V links s z) :
    Connected p c V links s := by
  induction h with
  | genesis hash => exact .genesis hash
  | connect N block _ hnew _ ih => exact .connect N block ih hnew

/-- Along a chain the coins, the pool and the unredeemed zerocoins stay within the sum of the allowances. -/
theorem IssuedWithin.bound {links : List ChainLink} {z : Int} (h : IssuedWithin p c V links s z) :
    s.view.Nonneg ∧ s.view.total + s.nChainSaplingValue + z ≤ allowances links := by
  induction h with
  | genesis hash =>
    refine ⟨FinMap.forall_empty, ?_⟩
    simp [ChainState.genesis, CCoinsViewCache.total, allowances]
  | @connect links s z old r N block hprev hnew hwithin ih =>
    obtain ⟨t, ht⟩ := hnew.connected
    obtain ⟨hn', hle⟩ := supply_step (s := { s with mnList := old }) ih.1 ht
    refine ⟨hn', ?_⟩
    have hmint := ht.nMint_eq
    have hfees := ht.nFees_eq
    have hpos : 0 ≤ r.nFees := by rw [ht.result]; exact ht.fees
    have hheight := hprev.connected.height
    unfold IssuesWithin at hwithin
    have hzc : zerocoinsAdded p V N block { s with mnList := old } = zerocoinsAdded p V N block s := rfl
    dsimp only at hle hmint hfees
    rw [← hfees, ← hmint, hheight] at hwithin
    rw [allowances]
    dsimp only
    omega

/-- **Supply.** The mint of a connected block is within its allowance exactly where the coinbase and the gains of the
coinstakes are. Chains of such blocks, with no more zerocoins redeemed than minted, have no more coins than the sum of
the allowances. -/
theorem supply_bound_iff (p : CChainParams) (c : Crypto) (V : NodeChecks) :
    (∀ (N : NodeEnv) (block : CBlock) (s : ChainState D) (r : ConnectResult D),
      block.getHash ≠ N.payees.hashGenesisBlock → connectBlock p c V N block s = .ok r →
      (r.nMint ≤ allowance N (s.pindex.nHeight + 1) block r.nFees ↔ IssuesWithin p V N block s)) ∧
    ∀ (links : List ChainLink) (s : ChainState D) (zerocoins : Int), IssuedWithin p c V links s zerocoins →
      0 ≤ zerocoins → s.view.total + s.nChainSaplingValue ≤ allowances links := by
  constructor
  · intro N block s r hgenesis h
    obtain ⟨t, ht⟩ := connectBlock_eq_ok hgenesis h
    rw [IssuesWithin, ht.nMint_eq, ht.nFees_eq]
  · intro links s zerocoins h hzc
    have := h.bound.2
    omega

end Supply

/-! ## Sample blocks -/

namespace Sample

def mainGenesis : ChainState Bytes := .genesis checks 0xb0

def mintBlock (v : Int) : CBlock := { hash := 0xb1, vtx := [payingCoinbase 0xc1 v] }

end Sample

open Sample

/-- A coinbase of one coin at height 1. -/
theorem supply_bound_sample : ∃ r : ConnectResult Bytes,
    connectBlock CMainParams crypto checks nodeEnv (mintBlock (1 * COIN))
      mainGenesis = .ok r ∧
    r.nMint ≤ allowance nodeEnv 1 (mintBlock (1 * COIN)) r.nFees ∧
    r.state.view.total + r.state.nChainSaplingValue ≤
      allowances [⟨nodeEnv, mintBlock (1 * COIN), r.nFees⟩] := by
  have hrun : Returns (connectBlock CMainParams crypto checks nodeEnv
      (mintBlock (1 * COIN)) mainGenesis) (fun _ => True) := by decide +kernel
  obtain ⟨r, hr, -⟩ := hrun.exists_ok
  have hwithin : IssuesWithin CMainParams checks nodeEnv (mintBlock (1 * COIN)) mainGenesis := by decide +kernel
  obtain ⟨hmint, hchain⟩ := supply_bound_iff (D := Bytes) CMainParams crypto checks
  refine ⟨r, hr, (hmint _ _ _ r (by decide) hr).mpr hwithin, hchain _ _ _ (.connect nodeEnv _ (.genesis 0xb0)
    ⟨.refl _, by decide, by decide, hr⟩ hwithin) (by decide +kernel)⟩

/-- At height 1 of the main network a coinbase that pays 101 coins is accepted: the allowance is one coin. -/
theorem supply_bound_exceeded : ∃ r : ConnectResult Bytes,
    connectBlock CMainParams crypto checks nodeEnv (mintBlock (101 * COIN))
      mainGenesis = .ok r ∧
    allowance nodeEnv 1 (mintBlock (101 * COIN)) r.nFees < r.nMint ∧
    allowances [⟨nodeEnv, mintBlock (101 * COIN), r.nFees⟩] <
      r.state.view.total + r.state.nChainSaplingValue := by
  have hrun : Returns (connectBlock CMainParams crypto checks nodeEnv
      (mintBlock (101 * COIN)) mainGenesis)
      (fun r => allowance nodeEnv 1 (mintBlock (101 * COIN)) r.nFees < r.nMint ∧
        allowances [⟨nodeEnv, mintBlock (101 * COIN), r.nFees⟩] <
          r.state.view.total + r.state.nChainSaplingValue) := by decide +kernel
  exact hrun.exists_ok

end TrumpCoin
