import TrumpCoin.Chainstate.ConnectBlock
import TrumpCoin.Evo.Origin

/-!
# Collaterals are unspent coins

The list of patriotnodes and the coins view are updated by different code. `collaterals_are_backed` relates them: in
every chain of connected blocks the collateral of every listed node is an unspent coin of the collateral amount, and no
input of the last block spends it.

* `loop_has`: which outputs are unspent after the transactions of a block;
* `FromChain`: every coin is an output of a transaction of the chain with its txid.
-/

namespace TrumpCoin

open Lib

/-! ## Scripts with a destination -/

theorem CScript.spendable_of_has {s : CScript} {op : UInt8} (h : CScript.has s 0 op = true) (hret : op ≠ OP_RETURN)
    (hmint : op ≠ OP_ZEROCOINMINT) (hlen : s.length ≤ MAX_SCRIPT_SIZE) :
    CScript.isUnspendable s = false ∧ CScript.isZerocoinMint s = false := by
  simp only [CScript.has, beq_iff_eq] at h
  simp [CScript.isUnspendable, CScript.isZerocoinMint, CScript.has, h, hret, hmint, hlen]

theorem spendable_of_destination {hash160 : Bytes → CKeyID} {s : CScript}
    (h : (extractDestination hash160 s).isSome = true) :
    CScript.isUnspendable s = false ∧ CScript.isZerocoinMint s = false := by
  unfold extractDestination at h
  split at h
  · rename_i hp2sh
    simp only [CScript.isPayToScriptHash, Bool.and_eq_true, beq_iff_eq] at hp2sh
    exact CScript.spendable_of_has hp2sh.1.1.2 (by decide) (by decide) (by rw [hp2sh.1.1.1]; decide)
  · split at h
    · rename_i key hkey
      unfold CScript.matchPayToPubkey at hkey
      dsimp only at hkey
      split at hkey
      · rename_i hpush
        simp only [Bool.or_eq_true, Bool.and_eq_true, beq_iff_eq] at hpush
        rcases hpush with hpush | hpush
        · exact CScript.spendable_of_has hpush.1.2 (by decide) (by decide) (by rw [hpush.1.1]; decide)
        · exact CScript.spendable_of_has hpush.1.2 (by decide) (by decide) (by rw [hpush.1.1]; decide)
      · cases hkey
    · split at h
      · rename_i hp2pkh
        simp only [CScript.isPayToPublicKeyHash, Bool.and_eq_true, beq_iff_eq] at hp2pkh
        exact CScript.spendable_of_has hp2pkh.1.1.1.1.2 (by decide) (by decide) (by rw [hp2pkh.1.1.1.1.1]; decide)
      · split_ifs at h with hcold
        · simp only [CScript.isPayToColdStaking, Bool.and_eq_true, beq_iff_eq] at hcold
          have hhead := hcold.1.1.1.1.1.1.1.1.1.1
          exact CScript.spendable_of_has hhead.2 (by decide) (by decide) (by rw [hhead.1]; decide)
        · cases h

/-! ## Outputs and the loop over the transactions -/

section Loop

variable {p : CChainParams} {V : NodeChecks} {N : NodeEnv} {nHeight nTime : Nat} {s t : ConnectState}
  {txs : List CTransaction} {o : COutPoint} {out : CTxOut}

/-- An output that is in the view or made by one of the transactions, and that none of them spends. -/
theorem loop_has (hinv : invalidOutAt p V nHeight o = false) (hchecked : ∀ tx ∈ txs, CheckedTx tx)
    (hnot : ∀ tx ∈ txs, ¬CCoinsViewCache.Spends tx o)
    (hsame : ∀ tx ∈ txs, o.hash = tx.getHash → tx.vout[o.n.toNat]? = some out)
    (hhas : s.view.HasOut o out ∨ (CScript.isUnspendable out.scriptPubKey = false ∧
      CScript.isZerocoinMint out.scriptPubKey = false) ∧ ∃ tx ∈ txs, o.hash = tx.getHash)
    (h : txs.foldlM (connectTx p V N nHeight nTime) s = .ok t) : t.view.HasOut o out := by
  induction txs generalizing s with
  | nil =>
    cases h
    simpa using hhas
  | cons tx txs ih =>
    rw [List.foldlM_cons] at h
    obtain ⟨s', hs, h⟩ := bind_eq_ok.mp h
    rw [List.forall_mem_cons] at hchecked hnot hsame
    obtain ⟨vprevout, hcoins, -⟩ := (connectTx_eq_ok hs).coins
    refine ih hchecked.2 hnot.2 hsame.2 ?_ h
    rcases hhas with hhas | ⟨hspendable, tx', htx', hhash⟩
    · exact .inl (CCoinsViewCache.updateCoins_keeps hchecked.1.vout_length hcoins hinv hhas hnot.1 hsame.1)
    · rcases List.mem_cons.mp htx' with rfl | htx'
      · exact .inl (CCoinsViewCache.updateCoins_creates hchecked.1.vout_length hcoins hinv hhash (hsame.1 hhash)
          hspendable.1 hspendable.2)
      · exact .inr ⟨hspendable, tx', htx', hhash⟩

end Loop

theorem not_spends_of_prevouts {block : CBlock} {o : COutPoint} (hb : CheckedBlock block) (ho : o ∉ block.prevouts) :
    ∀ tx ∈ block.vtx, ¬CCoinsViewCache.Spends tx o := by
  obtain ⟨cb, rest, hvtx, hcb, -⟩ := hb.coinbase
  rintro tx htx ⟨hno, hmem⟩
  rw [hvtx, List.mem_cons] at htx
  rcases htx with rfl | htx
  · rw [hcb] at hno
    cases hno
  · refine ho (List.mem_flatMap.mpr ⟨tx, ?_, hmem⟩)
    rw [CBlock.nonCoinbase, hvtx]
    exact htx

/-! ## Where the coins come from -/

/-- Every coin is an output of a transaction of the blocks with its txid. -/
def FromChain (blocks : List CBlock) (view : CCoinsViewCache) : Prop :=
  ∀ (o : COutPoint) (coin : Coin), view.coins[o]? = some coin →
    ∃ block ∈ blocks, ∃ tx ∈ block.vtx, o.hash = tx.getHash ∧ tx.vout[o.n.toNat]? = some coin.out

variable {D : Type} [Digest D] {p : CChainParams} {c : Crypto} {V : NodeChecks}

theorem Connected.fromChain {links : List ChainLink} {s : ChainState D} (h : Connected p c V links s) :
    FromChain (links.map ChainLink.block) s.view := by
  induction h with
  | genesis hash => exact FinMap.forall_empty
  | @connect links s old r N block _ hnew ih =>
    obtain ⟨t, ht⟩ := hnew.connected
    obtain ⟨tree, -, hloop⟩ := ht.loop
    rw [ht.result]
    intro o coin hget
    rw [show ({ t.view.pushAnchor V.saplingRoot t.saplingTree with hashBlock := block.getHash } :
      CCoinsViewCache).coins = t.view.coins from CCoinsViewCache.pushAnchor_coins _ _] at hget
    refine foldlM_inv (I := fun u : ConnectState => FromChain (block :: links.map ChainLink.block) u.view)
      (fun tx htx u u' ihu hu o coin hget => ?_) (fun o coin hget => ?_) hloop o coin hget
    · obtain ⟨vprevout, hcoins, -⟩ := (connectTx_eq_ok hu).coins
      have horigin := CCoinsViewCache.updateCoins_origin (ht.checked.txs tx htx).vout_length hcoins hget
      rcases horigin with hold | ⟨hhash, out, hout, rfl, -⟩
      · exact ihu o coin hold
      · exact ⟨block, List.mem_cons_self, tx, htx, hhash, hout⟩
    · obtain ⟨b, hb, rest⟩ := ih o coin hget
      exact ⟨b, List.mem_cons_of_mem _ hb, rest⟩

theorem FromChain.same {blocks : List CBlock} {view : CCoinsViewCache} (h : FromChain blocks view) {block : CBlock}
    (htxids : TxidsSound (block :: blocks)) {o : COutPoint} {coin : Coin} (hget : view.coins[o]? = some coin) :
    ∀ tx ∈ block.vtx, o.hash = tx.getHash → tx.vout[o.n.toNat]? = some coin.out := by
  intro tx htx hhash
  obtain ⟨b, hb, tx', htx', hhash', hout⟩ := h o coin hget
  rw [htxids.inj block List.mem_cons_self tx htx b (List.mem_cons_of_mem _ hb) tx' htx' (hhash ▸ hhash')]
  exact hout

/-! ## Backing -/

def Backed (p : CChainParams) (s : ChainState D) : Prop :=
  ∀ (a : uint256) (dmn : CDeterministicPN), s.mnList.mnMap[a]? = some dmn →
    ∃ coin, s.view.coins[dmn.collateralOutpoint]? = some coin ∧ coin.out.nValue = p.nPNCollateralAmt

section Step

variable {N : NodeEnv} {block : CBlock} {links : List ChainLink} {s : ChainState D} {old : CDeterministicPNList D}
  {t : ConnectState} {r : ConnectResult D}

variable (p c N block s old) in
abbrev listInput : BlockInput D := ⟨p, c, N.toEnv s.view, block, s.pindex, old⟩

theorem Connected.onChain (hc : Connected p c V links s) (hcount : Recount s.mnList old)
    (htxids : TxidsSound (block :: links.map ChainLink.block))
    (ht : BlockConnected p c V N block { s with mnList := old } t r) :
    OnChain (listInput p c N block s old) (links.map ChainLink.block) :=
  hc.chain.onChain hcount htxids ((process_eq_ok (x := listInput p c N block s old)).mp ht.special).1

/-- The collateral of a node of the new list: a coin from before the block, or an output of its registration. -/
theorem collateral_origin (hinj : CollisionFree D)
    (hx : OnChain (listInput p c N block s old) (links.map ChainLink.block)) (hcount : Recount s.mnList old)
    (hbacked : Backed p s) {new : CDeterministicPNList D} (hbuild : (listInput p c N block s old).build = .ok new)
    (a : uint256) (dmn : CDeterministicPN) (hm : new.mnMap[a]? = some dmn) :
    (∃ coin, s.view.coins[dmn.collateralOutpoint]? = some coin ∧ coin.out.nValue = p.nPNCollateralAmt) ∨
    ∃ tx ∈ block.vtx, ∃ out, dmn.collateralOutpoint.hash = tx.getHash ∧
      tx.vout[dmn.collateralOutpoint.n.toNat]? = some out ∧ out.nValue = p.nPNCollateralAmt ∧
      CScript.isUnspendable out.scriptPubKey = false ∧ CScript.isZerocoinMint out.scriptPubKey = false := by
  cases BlockSteps.origin hinj hx (build_steps hx.rep hbuild) a dmn hm with
  | kept d hd hnode =>
    rw [hnode]
    exact .inl (hbacked _ d (hcount.mnMap ▸ hd))
  | fresh tx pl id htx hnone heq =>
    obtain ⟨pl', hc⟩ := check_proReg (hx.check htx.1) htx.2.1
    obtain rfl : pl = pl' := Option.some.inj (htx.2.2.symm.trans hc.payload)
    rw [heq]
    by_cases hz : pl.collateralOutpoint.hash = 0
    · obtain ⟨out, hout, hdest, hvalue⟩ := hc.internal hz
      obtain ⟨hspendable, hmint⟩ := spendable_of_destination hdest
      refine .inr ⟨tx, mem_vtx_of_mem_nonCoinbase htx.1, out, ?_⟩
      rw [show (newPN (listInput p c N block s old).nHeight id tx pl).collateralOutpoint =
        ⟨tx.getHash, pl.collateralOutpoint.n⟩ from if_pos hz]
      exact ⟨rfl, hout, hvalue, hspendable, hmint⟩
    · obtain ⟨coin, hcoin, hvalue⟩ := hc.external hz
      rw [show (newPN (listInput p c N block s old).nHeight id tx pl).collateralOutpoint = pl.collateralOutpoint from
        if_neg hz]
      exact .inl ⟨coin, hcoin, hvalue⟩

theorem backed_step (hinj : CollisionFree D)
    (hparams : ∀ h : Nat, isDIP3Enforced p h = true → p.skipInvalidUTXOS h = false) (hc : Connected p c V links s)
    (hcount : Recount s.mnList old) (htxids : TxidsSound (block :: links.map ChainLink.block)) (hbacked : Backed p s)
    (ht : BlockConnected p c V N block { s with mnList := old } t r) :
    Backed p r.state ∧ ∀ (a : uint256) (dmn : CDeterministicPN), r.state.mnList.mnMap[a]? = some dmn →
      ∀ tx ∈ block.vtx, ¬CCoinsViewCache.Spends tx dmn.collateralOutpoint := by
  have hx := hc.onChain hcount htxids ht
  rcases process_cases hx.rep ht.special with ⟨-, hempty⟩ | ⟨hdip, new, hbuild, -, -, hnew⟩
  · rw [Backed, hempty]
    exact ⟨FinMap.forall_empty, FinMap.forall_empty⟩
  · have hnot : ∀ (a : uint256) (dmn : CDeterministicPN), r.state.mnList.mnMap[a]? = some dmn →
        ∀ tx ∈ block.vtx, ¬CCoinsViewCache.Spends tx dmn.collateralOutpoint := by
      intro a dmn hm
      rw [hnew] at hm
      exact not_spends_of_prevouts ht.checked (build_unspent hinj hx.rep hbuild a dmn hm)
    refine ⟨fun a dmn hm => ?_, hnot⟩
    have hspends := hnot a dmn hm
    rw [hnew] at hm
    obtain ⟨tree, -, hloop⟩ := ht.loop
    have hinv : invalidOutAt p V (s.pindex.nHeight + 1) dmn.collateralOutpoint = false := by
      rw [invalidOutAt, hparams _ hdip, Bool.false_and]
    -- either way the output is in the view after the loop
    have hhas : ∃ out, t.view.HasOut dmn.collateralOutpoint out ∧ out.nValue = p.nPNCollateralAmt := by
      rcases collateral_origin hinj hx hcount hbacked hbuild a dmn hm with ⟨coin, hget, hvalue⟩ |
        ⟨tx, htx, out, hhash, hout, hvalue, hspendable, hmint⟩
      · exact ⟨coin.out, loop_has hinv ht.checked.txs hspends (hc.fromChain.same htxids hget) (.inl ⟨coin, hget, rfl⟩)
          hloop, hvalue⟩
      · refine ⟨out, loop_has hinv ht.checked.txs hspends (fun tx' htx' hhash' => ?_)
          (.inr ⟨⟨hspendable, hmint⟩, tx, htx, hhash⟩) hloop, hvalue⟩
        rw [htxids.inj block List.mem_cons_self tx' htx' block List.mem_cons_self tx htx (hhash' ▸ hhash)]
        exact hout
    obtain ⟨out, ⟨coin, hget, rfl⟩, hvalue⟩ := hhas
    refine ⟨coin, ?_, hvalue⟩
    rw [ht.result]
    exact (congrArg (·[dmn.collateralOutpoint]?) (CCoinsViewCache.pushAnchor_coins _ _)).trans hget

end Step

theorem skips_nothing {p : CChainParams} (h : p.networkID ≠ .MAIN ∨ p = CMainParams) (nHeight : Nat)
    (_ : isDIP3Enforced p nHeight = true) : p.skipInvalidUTXOS nHeight = false := by
  rcases h with h | rfl
  · simp [CChainParams.skipInvalidUTXOS, h]
  · exact CMainParams_skipInvalidUTXOS nHeight

/-- **Collateral backing.** In every chain of connected blocks the collateral of every listed node is an unspent coin
of the collateral amount, and no transaction of the last block spends it. Where lists are enforced no outpoint is
skipped (`skips_nothing`). -/
theorem collaterals_are_backed (hinj : Function.Injective (Digest.serializeHash : Bytes → D))
    (hparams : ∀ h : Nat, isDIP3Enforced p h = true → p.skipInvalidUTXOS h = false) {links : List ChainLink}
    {s : ChainState D} (hc : Connected p c V links s) (htxids : TxidsSound (links.map ChainLink.block)) :
    Backed p s ∧ ∀ link rest, links = link :: rest → ∀ (a : uint256) (dmn : CDeterministicPN),
      s.mnList.mnMap[a]? = some dmn → ∀ tx ∈ link.block.vtx, ¬CCoinsViewCache.Spends tx dmn.collateralOutpoint := by
  induction hc with
  | genesis hash =>
    exact ⟨FinMap.forall_empty, fun _ _ heq => by cases heq⟩
  | @connect links s old r N block hprev hnew ih =>
    obtain ⟨t, ht⟩ := hnew.connected
    obtain ⟨hbacked, hspends⟩ := backed_step hinj hparams hprev hnew.count htxids (ih htxids.tail).1 ht
    refine ⟨hbacked, fun link rest heq => ?_⟩
    cases heq
    exact hspends

open Sample

set_option maxRecDepth 10000 in
theorem collaterals_are_backed_sample : ∃ (links : List ChainLink) (s : ChainState Bytes),
    Connected workParams crypto checks links s ∧ s.mnList.mnMap.size = 1 ∧
    Backed workParams s := by
  have hrun : Returns (connectChain Bytes workParams crypto checks 0xb0
      [(nodeEnv, fundedBlock), (nodeEnv, fundingBlock)])
      (fun r => r.2.mnList.mnMap.size = 1) := by decide +kernel
  obtain ⟨r, hr, hsize⟩ := hrun.exists_ok
  obtain ⟨hc, -, hblocks⟩ := Connected.of_connectChain hr (by decide) (by decide)
  refine ⟨r.1, r.2, hc, hsize, (collaterals_are_backed (fun _ _ h => h) (skips_nothing (.inl (by decide))) hc ?_).1⟩
  rw [hblocks]
  exact ⟨by decide, by decide⟩

end TrumpCoin
