import TrumpCoin.Chainstate.ConnectBlock
import TrumpCoin.Evo.Manager

/-!
# Disconnecting a block

`DisconnectBlock` of `validation.cpp` with `ApplyTxInUndo`, and `PopAnchor` of `coins.cpp`. A return of
`DISCONNECT_FAILED` is an error of the kind `Fault.error`; a failing assertion is one of its own kind. The undo data is
that of `ConnectBlock` as the undo file keeps it.

What is removed from the budgets and the zerocoin databases is left out; `DisconnectZerocoinTx` is a parameter that
accepts every transaction without zerocoins.

* `AppliedTx.undoTx`, `AppliedTxs.undoTxs`: undoing transactions, on the view after them and on any other;
* `loop_applied`: the loop of `ConnectBlock` applies its transactions.
-/

namespace TrumpCoin

open Lib

/-! ## The coins view -/

def MAX_OUTPUTS_PER_BLOCK : Nat := MAX_BLOCK_SIZE_CURRENT / 9

namespace CCoinsViewCache

variable (view : CCoinsViewCache)

/-- `AddCoin` with `possible_overwrite`. -/
def overwriteCoin (outpoint : COutPoint) (coin : Coin) : Result CCoinsViewCache := do
  require (.assertFailure "AddCoin: !coin.IsSpent()") (coin.isSpent = false)
  if CScript.isUnspendable coin.out.scriptPubKey || CScript.isZerocoinMint coin.out.scriptPubKey then return view
  else return { view with coins := view.coins.insert outpoint coin }

/-- `AccessByTxid`: the first unspent output of the transaction. -/
def accessByTxid (txid : uint256) : Coin :=
  ((List.range MAX_OUTPUTS_PER_BLOCK).findSome? fun n => view.coins[(⟨txid, BitVec.ofNat 32 n⟩ : COutPoint)]?).getD
    coinEmpty

def popAnchor (root : SaplingMerkleTree → uint256) (newrt : uint256) : Result CCoinsViewCache :=
  if view.hashSaplingAnchor = newrt then .ok view
  else do
    require (.assertFailure "BringBestAnchorIntoCache: GetSaplingAnchorAt(currentRoot, tree)")
      ((view.getSaplingAnchorAt root view.hashSaplingAnchor).isSome = true)
    return { view with
      saplingAnchors := view.saplingAnchors.erase view.hashSaplingAnchor
      hashSaplingAnchor := newrt }

end CCoinsViewCache

/-! ## `DisconnectBlock` -/

structure DisconnectEnv where
  /-- the outpoint has an entry in the topmost coins cache -/
  hasEntry : COutPoint → Bool
  disconnectZerocoinTx : CTransaction → Bool
  disconnectZerocoinTx_eq : ∀ tx, tx.containsZerocoins = false → disconnectZerocoinTx tx = true
  order : MapOrder

/-- The variables of `DisconnectBlock`: the view, and whether it was consistent with the block. -/
structure DisconnectState where
  view : CCoinsViewCache
  fClean : Bool := true

/-- Results other than `DISCONNECT_FAILED`. -/
inductive DisconnectResult where
  | DISCONNECT_OK | DISCONNECT_UNCLEAN
deriving DecidableEq

def DisconnectState.result (s : DisconnectState) : DisconnectResult :=
  if s.fClean then .DISCONNECT_OK else .DISCONNECT_UNCLEAN

section Disconnect

variable (E : DisconnectEnv)

/-- `ApplyTxInUndo`. A coin without metadata takes it from another output of its transaction. -/
def applyTxInUndo (s : DisconnectState) (x : COutPoint × Coin) : Result DisconnectState := do
  let (out, undo) := x
  let fClean := !s.view.haveCoin out
  let undo ← if undo.nHeight = 0 then do
      let alternate := s.view.accessByTxid out.hash
      require (.error "adding output for transaction without known metadata") (alternate.isSpent = false)
      pure { undo with nHeight := alternate.nHeight, fCoinBase := alternate.fCoinBase, fCoinStake := alternate.fCoinStake }
    else pure undo
  let view ← if fClean then s.view.addCoin E.hasEntry out undo else s.view.overwriteCoin out undo
  return { view := view, fClean := s.fClean && fClean }

def undoOutput (tx : CTransaction) (s : DisconnectState) (out : CTxOut × Nat) : DisconnectState :=
  if CScript.isUnspendable out.1.scriptPubKey || CScript.isZerocoinMint out.1.scriptPubKey then s
  else
    let (view, coin) := s.view.spendCoin ⟨tx.getHash, BitVec.ofNat 32 out.2⟩
    { view := view, fClean := s.fClean && decide (out.1 = (coin.getD coinEmpty).out) }

def undoOutputs (tx : CTransaction) (s : DisconnectState) : DisconnectState :=
  tx.vout.zipIdx.foldl (undoOutput tx) s

/-- The loop over the inputs, from the last to the first. -/
def undoInputs (tx : CTransaction) (vprevout : List Coin) (s : DisconnectState) : Result DisconnectState :=
  ((tx.vin.map CTxIn.prevout).zip vprevout).reverse.foldlM (applyTxInUndo E) s

/-- One turn of the loop over the transactions; the first transaction has no undo data. -/
def undoTx (s : DisconnectState) (x : CTransaction × Option (List Coin)) : Result DisconnectState := do
  let (tx, txundo) := x
  require (.error "DisconnectZerocoinTx") (E.disconnectZerocoinTx tx = true)
  let s := undoOutputs tx s
  if tx.isCoinBase || tx.hasZerocoinSpendInputs then return s
  else do
    let s := { s with view := s.view.setNullifiers tx false }
    match txundo with
    | none => .error (.nullDeref "DisconnectBlock: blockUndo.vtxundo[i - 1]")
    | some vprevout =>
      require (.error "transaction and undo data inconsistent") (vprevout.length = tx.vin.length)
      undoInputs E tx vprevout s

/-- The loop over the transactions, from the last to the first. -/
def undoTxs (vtx : List CTransaction) (vtxundo : List (List Coin)) (s : DisconnectState) : Result DisconnectState :=
  (vtx.zip (none :: vtxundo.map some)).reverse.foldlM (undoTx E) s

variable {D : Type} [Digest D] (p : CChainParams) (root : SaplingMerkleTree → uint256)

/-- The anchor to which `DisconnectBlock` goes back, for the parent and its `hashFinalSaplingRoot`. -/
def anchorBefore (pprev : CBlockIndex) (hashFinalSaplingRoot : uint256) : uint256 :=
  if p.networkUpgradeActive pprev.nHeight .UPGRADE_V5_0 then hashFinalSaplingRoot else root []

/-- What `DisconnectBlock` does to the coins view. -/
def disconnectView (block : CBlock) (pprev : CBlockIndex) (hashFinalSaplingRoot : uint256)
    (vtxundo : List (List Coin)) (view : CCoinsViewCache) : Result DisconnectState := do
  let s ← undoTxs E block.vtx vtxundo { view := view }
  let view ← s.view.popAnchor root (anchorBefore p root pprev hashFinalSaplingRoot)
  return { s with view := { view with hashBlock := pprev.getBlockHash } }

/-- `DisconnectBlock`, for the undo data that was read. The result is that of the view and the best block of the evo
database. -/
def disconnectBlock (block : CBlock) (pprev : CBlockIndex) (hashFinalSaplingRoot : uint256)
    (blockUndo : Option (List (List Coin))) (evoBestBlock : uint256) (view : CCoinsViewCache) :
    ManagerM D (DisconnectState × uint256) := do
  Proc.ofExcept (require (.error "Found EvoDB inconsistency, you must reindex to continue")
    (p.networkUpgradeActive (pprev.nHeight + 1) .UPGRADE_V6_0 = false ∨ evoBestBlock = block.getHash))
  match blockUndo with
  | none => Proc.fail (.error "failure reading undo data")
  | some vtxundo => do
    Proc.ofExcept (require (.error "block and undo data inconsistent") (vtxundo.length + 1 = block.vtx.length))
    undoBlock p block pprev E.order
    let s ← Proc.ofExcept (disconnectView E p root block pprev hashFinalSaplingRoot vtxundo view)
    return (s, pprev.getBlockHash)

end Disconnect

/-! ## Which outpoints a transaction touches -/

namespace CTransaction

def Creates (tx : CTransaction) (o : COutPoint) : Prop :=
  o.hash = tx.getHash ∧ ∃ out, tx.vout[o.n.toNat]? = some out ∧
    CScript.isUnspendable out.scriptPubKey = false ∧ CScript.isZerocoinMint out.scriptPubKey = false

def Touches (tx : CTransaction) (o : COutPoint) : Prop := tx.Consumes o ∨ tx.Creates o

end CTransaction

/-! ## Frames -/

namespace CCoinsViewCache

def OnlyCoins (view view' : CCoinsViewCache) : Prop := view' = { view with coins := view'.coins }

theorem OnlyCoins.refl (view : CCoinsViewCache) : OnlyCoins view view := rfl

theorem OnlyCoins.trans {a b c : CCoinsViewCache} (h : OnlyCoins a b) (h' : OnlyCoins b c) : OnlyCoins a c := by
  unfold OnlyCoins at *
  rw [h', h]

theorem OnlyCoins.mk (view : CCoinsViewCache) (coins : FinMap COutPoint Coin) :
    OnlyCoins view { view with coins := coins } := rfl

/-- A coin that `AddCoin` accepts and adds, with its metadata. -/
structure Restorable (coin : Coin) : Prop where
  unspent : coin.isSpent = false
  nHeight : coin.nHeight ≠ 0
  spendable : CScript.isUnspendable coin.out.scriptPubKey = false
  mint : CScript.isZerocoinMint coin.out.scriptPubKey = false

variable {view : CCoinsViewCache} {o : COutPoint} {coin : Coin}

theorem addCoin_of_absent (hasEntry : COutPoint → Bool) (hc : Restorable coin) (h : view.coins[o]? = none) :
    view.addCoin hasEntry o coin = .ok { view with coins := view.coins.insert o coin } := by
  have hhave : view.haveCoin o = false := by rw [haveCoin, h]; rfl
  simp [addCoin, require, hc.unspent, hc.spendable, hc.mint, hhave, pure, Except.pure, bind, Except.bind]

theorem overwriteCoin_eq (hc : Restorable coin) :
    view.overwriteCoin o coin = .ok { view with coins := view.coins.insert o coin } := by
  simp [overwriteCoin, require, hc.unspent, hc.spendable, hc.mint, pure, Except.pure, bind, Except.bind]

end CCoinsViewCache

/-! ## Undoing the inputs -/

section Inputs

open CCoinsViewCache

variable {E : DisconnectEnv} {s : DisconnectState} {before : CCoinsViewCache}

theorem applyTxInUndo_eq {o : COutPoint} {coin : Coin} (hc : Restorable coin) :
    applyTxInUndo E s (o, coin) = .ok
      { view := { s.view with coins := s.view.coins.insert o coin }, fClean := s.fClean && !s.view.haveCoin o } := by
  unfold applyTxInUndo
  dsimp only
  rw [if_neg hc.nHeight, show (pure coin : Result Coin) = .ok coin from rfl, ok_bind]
  cases hhave : s.view.haveCoin o with
  | true => rw [Bool.not_true, if_neg Bool.false_ne_true, overwriteCoin_eq hc]; rfl
  | false =>
    have hnone : s.view.coins[o]? = none := by
      rw [haveCoin] at hhave
      exact Option.not_isSome_iff_eq_none.mp (Bool.not_eq_true _ ▸ hhave)
    rw [Bool.not_false, if_pos rfl, addCoin_of_absent E.hasEntry hc hnone]
    rfl

/-- Coins of the view before are put back; the loop is clean where none of them is there and each occurs once. -/
theorem foldlM_applyTxInUndo {l : List (COutPoint × Coin)}
    (hl : ∀ x ∈ l, before.coins[x.1]? = some x.2 ∧ Restorable x.2) :
    ∃ s', l.foldlM (applyTxInUndo E) s = .ok s' ∧ OnlyCoins s.view s'.view ∧
      (∀ o : COutPoint, s'.view.coins[o]? = if o ∈ l.map Prod.fst then before.coins[o]? else s.view.coins[o]?) ∧
      ((l.map Prod.fst).Nodup → (∀ x ∈ l, s.view.coins[x.1]? = none) → s'.fClean = s.fClean) := by
  induction l generalizing s with
  | nil => exact ⟨s, rfl, .refl _, fun o => by simp, fun _ _ => rfl⟩
  | cons x l ih =>
    obtain ⟨o, coin⟩ := x
    rw [List.forall_mem_cons] at hl
    obtain ⟨⟨hget, hc⟩, hl⟩ := hl
    obtain ⟨s', hs', honly, hcoins, hclean⟩ :=
      ih (s := ⟨{ s.view with coins := s.view.coins.insert o coin }, s.fClean && !s.view.haveCoin o⟩) hl
    refine ⟨s', ?_, (OnlyCoins.mk s.view _).trans honly, fun a => ?_, fun hnodup hnone => ?_⟩
    · rw [List.foldlM_cons, applyTxInUndo_eq hc]
      exact hs'
    · rw [hcoins a]
      simp only [List.map_cons, List.mem_cons, FinMap.get_insert]
      by_cases ha : a ∈ l.map Prod.fst
      · simp [ha]
      · by_cases ho : o = a
        · subst ho
          simp [ha, hget]
        · simp [ha, ho, Ne.symm ho]
    · rw [List.map_cons, List.nodup_cons] at hnodup
      rw [List.forall_mem_cons] at hnone
      rw [hclean hnodup.2 fun y hy => ?_]
      · rw [haveCoin, hnone.1]
        simp
      · have hne : o ≠ y.1 := by
          rintro rfl
          exact hnodup.1 (List.mem_map.mpr ⟨y, hy, rfl⟩)
        rw [FinMap.get_insert_ne _ _ hne]
        exact hnone.2 y hy

end Inputs

/-! ## Undoing the outputs -/

section Outputs

open CCoinsViewCache

variable {tx : CTransaction} {o : COutPoint}

/-- The output that is added for an outpoint, among outputs with their numbers. -/
def Added (tx : CTransaction) (outs : List (CTxOut × Nat)) (o : COutPoint) : Prop :=
  ∃ e ∈ outs, CScript.isUnspendable e.1.scriptPubKey = false ∧ CScript.isZerocoinMint e.1.scriptPubKey = false ∧
    o = ⟨tx.getHash, BitVec.ofNat 32 e.2⟩

theorem added_zipIdx (hlen : tx.vout.length ≤ 2 ^ 32) : Added tx tx.vout.zipIdx o ↔ tx.Creates o := by
  constructor
  · rintro ⟨⟨out, i⟩, hmem, hspendable, hmint, rfl⟩
    have hget : tx.vout[i]? = some out := List.mem_zipIdx_iff_getElem?.mp hmem
    exact ⟨rfl, out, by rw [outpoint_index hlen hget]; exact hget, hspendable, hmint⟩
  · rintro ⟨hhash, out, hget, hspendable, hmint⟩
    refine ⟨(out, o.n.toNat), List.mk_mem_zipIdx_iff_getElem?.mpr hget, hspendable, hmint, ?_⟩
    rw [BitVec.ofNat_toNat, BitVec.setWidth_eq, ← hhash]

variable {s : DisconnectState}

def addsCoin (out : CTxOut × Nat) : Bool :=
  !(CScript.isUnspendable out.1.scriptPubKey || CScript.isZerocoinMint out.1.scriptPubKey)

theorem view_foldl_undoOutput {outs : List (CTxOut × Nat)} :
    (outs.foldl (undoOutput tx) s).view = { s.view with
      coins := (outs.filter addsCoin).foldl (fun coins e => coins.erase ⟨tx.getHash, BitVec.ofNat 32 e.2⟩)
        s.view.coins } := by
  induction outs generalizing s with
  | nil => rfl
  | cons out outs ih =>
    rw [List.foldl_cons, ih, undoOutput, List.filter_cons, addsCoin]
    cases CScript.isUnspendable out.1.scriptPubKey || CScript.isZerocoinMint out.1.scriptPubKey <;> rfl

theorem undoOutputs_onlyCoins (s : DisconnectState) : OnlyCoins s.view (undoOutputs tx s).view := by
  rw [undoOutputs, view_foldl_undoOutput]
  exact .mk _ _

theorem undoOutputs_get (hlen : tx.vout.length ≤ 2 ^ 32) (s : DisconnectState) :
    (tx.Creates o → (undoOutputs tx s).view.coins[o]? = none) ∧
    (¬tx.Creates o → (undoOutputs tx s).view.coins[o]? = s.view.coins[o]?) := by
  have hmem : tx.Creates o ↔
      o ∈ (tx.vout.zipIdx.filter addsCoin).map fun e => (⟨tx.getHash, BitVec.ofNat 32 e.2⟩ : COutPoint) := by
    rw [← added_zipIdx hlen]
    simp only [Added, addsCoin, List.mem_map, List.mem_filter, Bool.not_eq_true', Bool.or_eq_false_iff, and_assoc,
      eq_comm (b := o)]
  rw [hmem, undoOutputs, view_foldl_undoOutput]
  dsimp only
  rw [FinMap.get_foldl_erase]
  exact ⟨fun h => if_pos h, fun h => if_neg h⟩

theorem foldl_undoOutput_clean {outs : List (CTxOut × Nat)} (hnodup : (outs.map fun e => BitVec.ofNat 32 e.2).Nodup)
    (h : ∀ e ∈ outs, CScript.isUnspendable e.1.scriptPubKey = false → CScript.isZerocoinMint e.1.scriptPubKey = false →
      s.view.HasOut ⟨tx.getHash, BitVec.ofNat 32 e.2⟩ e.1) :
    (outs.foldl (undoOutput tx) s).fClean = s.fClean := by
  induction outs generalizing s with
  | nil => rfl
  | cons out outs ih =>
    rw [List.map_cons, List.nodup_cons] at hnodup
    rw [List.forall_mem_cons] at h
    rw [List.foldl_cons, ih hnodup.2 fun e he hspendable hmint => ?_]
    · unfold undoOutput
      cases hskip : CScript.isUnspendable out.1.scriptPubKey || CScript.isZerocoinMint out.1.scriptPubKey with
      | true => rfl
      | false =>
        rw [Bool.or_eq_false_iff] at hskip
        obtain ⟨coin, hget, hout⟩ := h.1 hskip.1 hskip.2
        simp [spendCoin, hget, hout]
    · have hget := h.2 e he hspendable hmint
      unfold undoOutput
      split
      · exact hget
      · obtain ⟨coin, hcoin, hout⟩ := hget
        refine ⟨coin, ?_, hout⟩
        exact (FinMap.get_erase_ne _ fun heq =>
          hnodup.1 (List.mem_map.mpr ⟨e, he, (congrArg COutPoint.n heq).symm⟩)).trans hcoin

theorem undoOutputs_clean (hlen : tx.vout.length ≤ 2 ^ 32)
    (h : ∀ o out, tx.Creates o → tx.vout[o.n.toNat]? = some out → s.view.HasOut o out) :
    (undoOutputs tx s).fClean = s.fClean := by
  refine foldl_undoOutput_clean (nodup_zipIdx_ofNat hlen) fun e he hspendable hmint => ?_
  have hget : tx.vout[e.2]? = some e.1 := List.mem_zipIdx_iff_getElem?.mp he
  have hidx := outpoint_index hlen hget
  rw [← hidx] at hget
  exact h _ e.1 ⟨rfl, e.1, hget, hspendable, hmint⟩ hget

end Outputs

/-! ## One transaction -/

def CTransaction.nullifiers (tx : CTransaction) : List uint256 :=
  (tx.sapData.map fun d => d.vShieldedSpend.map SpendDescription.nullifier).getD []

namespace CCoinsViewCache

variable {view view' : CCoinsViewCache} {tx : CTransaction} {hasEntry invalidOut : COutPoint → Bool} {nHeight : Nat}
  {vprevout : List (Option Coin)} {o : COutPoint}

theorem setNullifiers_eq (tx : CTransaction) (spent : Bool) :
    view.setNullifiers tx spent = { view with saplingNullifiers := (view.setNullifiers tx spent).saplingNullifiers } := by
  unfold setNullifiers
  split <;> rfl

theorem getNullifier_setNullifiers (tx : CTransaction) (spent : Bool) (nf : uint256) :
    (view.setNullifiers tx spent).getNullifier nf = if nf ∈ tx.nullifiers then spent else view.getNullifier nf := by
  unfold setNullifiers getNullifier CTransaction.nullifiers
  cases tx.sapData with
  | none => simp
  | some d =>
    dsimp only
    rw [FinMap.get_foldl_insert (g := fun _ => spent) d.vShieldedSpend _ fun _ _ => rfl]
    exact apply_ite (Option.getD · false) ..

variable {out : CTxOut × Nat}

theorem addOutput_onlyCoins (h : addOutput hasEntry invalidOut tx nHeight view out = .ok view') :
    OnlyCoins view view' := by
  rcases addOutput_eq_ok h with ⟨-, rfl⟩ | ⟨-, -, ⟨-, rfl⟩ | ⟨-, rfl⟩⟩
  · exact .mk _ _
  · exact .refl _
  · exact .mk _ _

theorem spendInputs_onlyCoins : ∀ (vin : List CTxIn) (view : CCoinsViewCache), OnlyCoins view (view.spendInputs vin).1
  | [], _ => .refl _
  | _ :: vin, view => (OnlyCoins.mk view _).trans (spendInputs_onlyCoins vin _)

theorem spendInputs_undo : ∀ {vin : List CTxIn} {view : CCoinsViewCache}, (vin.map CTxIn.prevout).Nodup →
    (view.spendInputs vin).2 = vin.map fun txin => view.coins[txin.prevout]?
  | [], _, _ => rfl
  | txin :: vin, view, hnodup => by
    rw [List.map_cons, List.nodup_cons] at hnodup
    show view.coins[txin.prevout]? :: ((view.spendCoin txin.prevout).1.spendInputs vin).2 = _
    rw [spendInputs_undo hnodup.2, List.map_cons]
    refine congrArg _ (List.map_congr_left fun txin' hmem => ?_)
    exact FinMap.get_erase_ne _ fun heq => hnodup.1 (heq ▸ List.mem_map_of_mem hmem)

theorem addCoins_onlyCoins (h : view.addCoins hasEntry invalidOut tx nHeight = .ok view') : OnlyCoins view view' :=
  foldlM_inv (I := fun v => OnlyCoins view v) (fun _ _ _ _ ih hs => ih.trans (addOutput_onlyCoins hs)) (.refl view) h

end CCoinsViewCache

/-- Only ordinary transactions of the Sapling version have nullifiers. -/
def CTransaction.ShieldedOnly (tx : CTransaction) : Prop :=
  tx.nullifiers ≠ [] → tx.isShieldedTx = true ∧ tx.isCoinBase = false ∧ tx.hasZerocoinSpendInputs = false

theorem shieldedOnly_of_checkTransaction {p : CChainParams} {V : NodeChecks} {tx : CTransaction} {f : Bool}
    (h : checkTransaction p V tx f = .ok ()) : tx.ShieldedOnly := by
  intro hne
  simp only [checkTransaction, bind_eq_ok, invalidUnless, require_eq_ok] at h
  obtain ⟨_, -, _, -, _, -, _, -, v, hsap, -⟩ := h
  unfold CTransaction.nullifiers at hne
  cases hd : tx.sapData with
  | none =>
    rw [hd] at hne
    exact absurd rfl hne
  | some d =>
    have hspends : d.vShieldedSpend.isEmpty = false := by
      cases hl : d.vShieldedSpend with
      | nil =>
        rw [hd, Option.map_some, Option.getD_some, hl] at hne
        exact absurd rfl hne
      | cons _ _ => rfl
    have hdata : tx.hasSaplingData = true := by
      simp [CTransaction.hasSaplingData, hd, hspends]
    unfold checkSaplingTransaction at hsap
    obtain ⟨_, hversion, hsap⟩ := bind_eq_ok.mp hsap
    simp only [invalidUnless, require_eq_ok, hdata, and_true, Bool.not_eq_false] at hversion
    rw [hd] at hsap
    simp only [hdata, Bool.true_eq_false, if_false, bind_eq_ok, invalidUnless, require_eq_ok] at hsap
    obtain ⟨_, hkind, -⟩ := hsap
    exact ⟨by rw [CTransaction.isShieldedTx, hversion, hdata]; rfl, hkind.2.1, hkind.2.2.1⟩

/-- What a transaction that was applied did to the view. -/
structure AppliedTx (invalidOut : COutPoint → Bool) (tx : CTransaction) (undo : List Coin)
    (before after : CCoinsViewCache) : Prop where
  vout_length : tx.vout.length ≤ 2 ^ 32
  nodup : tx.hasZerocoinSpendInputs = false → (tx.vin.map CTxIn.prevout).Nodup
  undo : tx.isCoinBase = false → tx.hasZerocoinSpendInputs = false →
    undo = tx.vin.map fun txin => before.accessCoin txin.prevout
  inputs : ∀ o, tx.Consumes o → ∃ coin, before.coins[o]? = some coin ∧ CCoinsViewCache.Restorable coin
  new : ∀ o : COutPoint, o.hash = tx.getHash → before.coins[o]? = none
  created : ∀ o out, tx.Creates o → tx.vout[o.n.toNat]? = some out → invalidOut o = false → after.HasOut o out
  consumed : ∀ o : COutPoint, tx.Consumes o → after.coins[o]? = none
  untouched : ∀ o : COutPoint, ¬tx.Touches o → after.coins[o]? = before.coins[o]?
  rest : CCoinsViewCache.OnlyCoins (before.setNullifiers tx true) after
  unspent : ∀ nf ∈ tx.nullifiers, before.getNullifier nf = false
  shielded : tx.ShieldedOnly

def CCoinsViewCache.AllRestorable (view : CCoinsViewCache) : Prop :=
  ∀ (o : COutPoint) coin, view.coins[o]? = some coin → CCoinsViewCache.Restorable coin

section Apply

open CCoinsViewCache

variable {p : CChainParams} {V : NodeChecks} {N : NodeEnv} {nHeight : Nat} {s s' : ConnectState} {tx : CTransaction}

theorem TxConnected.allRestorable (h : TxConnected p V N nHeight s tx s') (hc : CheckedTx tx) (hn : nHeight ≠ 0)
    (hall : s.view.AllRestorable) : s'.view.AllRestorable := by
  intro o coin hget
  obtain ⟨vprevout, hcoins, -⟩ := h.coins
  rcases updateCoins_origin hc.vout_length hcoins hget with hold | ⟨-, out, -, rfl, hunspent, hspendable, hmint⟩
  · exact hall o coin hold
  · exact ⟨hunspent, hn, hspendable, hmint⟩

/-- **What one turn of the loop does to the view**, where no output of the transaction is in it. -/
theorem TxConnected.applied (h : TxConnected p V N nHeight s tx s') (hc : CheckedTx tx) (hs : tx.ShieldedOnly)
    (hall : s.view.AllRestorable) (hnew : ∀ o : COutPoint, o.hash = tx.getHash → s.view.coins[o]? = none) :
    ∃ vprevout, s'.vtxundo = s.vtxundo ++ [vprevout] ∧
      AppliedTx (invalidOutAt p V nHeight) tx (vprevout.map fun coin => coin.getD coinEmpty) s.view s'.view := by
  obtain ⟨vprevout, hcoins, hundo⟩ := h.coins
  have hinputs : ∀ o, tx.Consumes o → ∃ coin, s.view.coins[o]? = some coin ∧ Restorable coin := by
    rintro o ⟨hspend, hmem⟩
    have hhave := h.have_inputs
    rw [haveInputs, if_pos hspend, List.all_eq_true] at hhave
    obtain ⟨txin, htxin, rfl⟩ := List.mem_map.mp hmem
    obtain ⟨coin, hcoin⟩ := Option.isSome_iff_exists.mp (hhave txin htxin)
    exact ⟨coin, hcoin, hall _ coin hcoin⟩
  have honly : OnlyCoins s.view (s.view.afterSpends tx) := by
    unfold afterSpends
    split
    · exact spendInputs_onlyCoins _ _
    · exact .refl _
  refine ⟨vprevout, hundo, hc.vout_length, hc.nodup, fun hcb hzc => ?_, hinputs, hnew, fun o out ho hout hinv => ?_,
    fun o hcons => ?_, fun o hnot => ?_, ?_, fun nf hnf => ?_, hs⟩
  · have hvprevout : vprevout = (s.view.spendInputs tx.vin).2 := by
      unfold updateCoins at hcoins
      rw [if_pos ⟨hcb, hzc⟩] at hcoins
      obtain ⟨_, -, hcoins⟩ := bind_eq_ok.mp hcoins
      cases hcoins
      rfl
    rw [hvprevout, spendInputs_undo (hc.nodup hzc), List.map_map]
    rfl
  · obtain ⟨hhash, out', hout', hspendable, hmint⟩ := ho
    obtain rfl : out = out' := Option.some.inj (hout.symm.trans hout')
    exact updateCoins_creates hc.vout_length hcoins hinv hhash hout hspendable hmint
  · obtain ⟨coin, hcoin, -⟩ := hinputs o hcons
    have hne : o.hash ≠ tx.getHash := fun hhash => by
      rw [hnew o hhash] at hcoin
      cases hcoin
    rw [updateCoins_get hc.vout_length hcoins, CTransaction.coinAfter, if_pos hcons, if_neg hne]
  · unfold CTransaction.Touches at hnot
    rw [not_or] at hnot
    rw [updateCoins_get hc.vout_length hcoins, CTransaction.coinAfter, if_neg hnot.1]
    by_cases hhash : o.hash = tx.getHash
    · rw [if_pos hhash, hnew o hhash]
      split
      · rfl
      · rename_i out hout
        split
        · rfl
        · split_ifs with hskip
          · rfl
          · rw [Bool.not_eq_true, Bool.or_eq_false_iff] at hskip
            exact absurd ⟨hhash, out, hout, hskip.1, hskip.2⟩ hnot.2
    · rw [if_neg hhash]
  · have hrest := addCoins_onlyCoins (updateCoins_eq_ok hcoins)
    have hset : OnlyCoins (s.view.setNullifiers tx true) ((s.view.afterSpends tx).setNullifiers tx true) := by
      unfold OnlyCoins at honly ⊢
      rw [honly]
      unfold setNullifiers
      split <;> rfl
    exact hset.trans hrest
  · obtain ⟨hsh, hcb, hzc⟩ := hs (List.ne_nil_of_mem hnf)
    have hreq := h.shielded hcb hzc
    rw [haveShieldedRequirements, if_pos hsh] at hreq
    unfold CTransaction.nullifiers at hnf
    cases hd : tx.sapData with
    | none =>
      rw [hd] at hnf
      cases hnf
    | some d =>
      rw [hd] at hreq hnf
      obtain ⟨spend, hmem, rfl⟩ := List.mem_map.mp hnf
      have := (List.all_eq_true.mp hreq) spend hmem
      rw [Bool.and_eq_true, Bool.not_eq_true'] at this
      exact this.1

end Apply

/-! ## Undoing transactions -/

/-- What undoing does to a view: the outpoints in `os` are as in `before`, the nullifiers in `nfs` are removed, and
nothing else changes. -/
structure Undone (os : COutPoint → Prop) (nfs : List uint256) (before view view' : CCoinsViewCache) : Prop where
  touched : ∀ o : COutPoint, os o → view'.coins[o]? = before.coins[o]?
  untouched : ∀ o : COutPoint, ¬os o → view'.coins[o]? = view.coins[o]?
  nullifiers : ∀ nf, view'.getNullifier nf = if nf ∈ nfs then false else view.getNullifier nf
  hashBlock : view'.hashBlock = view.hashBlock
  hashSaplingAnchor : view'.hashSaplingAnchor = view.hashSaplingAnchor
  saplingAnchors : view'.saplingAnchors = view.saplingAnchors

/-- A sequence of transactions that was applied, each with its undo data; a coinbase needs none. -/
inductive AppliedTxs (invalidOut : COutPoint → Bool) :
    List (CTransaction × Option (List Coin)) → CCoinsViewCache → CCoinsViewCache → Prop
  | nil (view : CCoinsViewCache) : AppliedTxs invalidOut [] view view
  | cons {tx : CTransaction} {txundo : Option (List Coin)} {undo : List Coin}
      {l : List (CTransaction × Option (List Coin))} {before mid after : CCoinsViewCache}
      (happlied : AppliedTx invalidOut tx undo before mid) (hundo : txundo = some undo ∨ tx.isCoinBase = true)
      (hrest : AppliedTxs invalidOut l mid after) : AppliedTxs invalidOut ((tx, txundo) :: l) before after

section Undo

open CCoinsViewCache

variable {E : DisconnectEnv} {invalidOut : COutPoint → Bool} {tx : CTransaction} {undo : List Coin}
  {txundo : Option (List Coin)} {before after : CCoinsViewCache} {l : List (CTransaction × Option (List Coin))}

theorem Undone.trans {os os' : COutPoint → Prop} {nfs nfs' : List uint256} {mid view view₁ view₂ : CCoinsViewCache}
    (h : Undone os nfs mid view view₁) (h' : Undone os' nfs' before view₁ view₂)
    (hmid : ∀ o : COutPoint, ¬os' o → os o → mid.coins[o]? = before.coins[o]?) :
    Undone (fun o => os' o ∨ os o) (nfs' ++ nfs) before view view₂ where
  touched o ho := by
    by_cases hos : os' o
    · exact h'.touched o hos
    · have hold := ho.resolve_left hos
      rw [h'.untouched o hos, h.touched o hold, hmid o hos hold]
  untouched o ho := by
    rw [not_or] at ho
    rw [h'.untouched o ho.1, h.untouched o ho.2]
  nullifiers nf := by
    rw [h'.nullifiers, h.nullifiers]
    by_cases hnf : nf ∈ nfs' <;> simp [hnf]
  hashBlock := h'.hashBlock.trans h.hashBlock
  hashSaplingAnchor := h'.hashSaplingAnchor.trans h.hashSaplingAnchor
  saplingAnchors := h'.saplingAnchors.trans h.saplingAnchors

section One

variable (h : AppliedTx invalidOut tx undo before after)
include h

theorem AppliedTx.undoOutputs (s : DisconnectState) :
    Undone tx.Creates [] before s.view (TrumpCoin.undoOutputs tx s).view where
  touched o hc := by rw [(undoOutputs_get h.vout_length s).1 hc, h.new o hc.1]
  untouched o hc := (undoOutputs_get h.vout_length s).2 hc
  nullifiers nf := by rw [undoOutputs_onlyCoins]; rfl
  hashBlock := by rw [undoOutputs_onlyCoins]
  hashSaplingAnchor := by rw [undoOutputs_onlyCoins]
  saplingAnchors := by rw [undoOutputs_onlyCoins]

/-- The coins of the inputs are put back, cleanly where none of them is there. -/
theorem AppliedTx.undoInputs (hcb : tx.isCoinBase = false) (hzc : tx.hasZerocoinSpendInputs = false)
    (s : DisconnectState) :
    ∃ s', TrumpCoin.undoInputs E tx undo { s with view := s.view.setNullifiers tx false } = .ok s' ∧
      Undone tx.Consumes tx.nullifiers before s.view s'.view ∧
      ((∀ o, tx.Consumes o → s.view.coins[o]? = none) → s'.fClean = s.fClean) := by
  have hzip : (tx.vin.map CTxIn.prevout).zip undo =
      tx.vin.map fun txin => (txin.prevout, before.accessCoin txin.prevout) := by
    rw [h.undo hcb hzc, List.zip_map']
  have hfst : ((tx.vin.map CTxIn.prevout).zip undo).reverse.map Prod.fst = (tx.vin.map CTxIn.prevout).reverse := by
    rw [hzip, List.map_reverse, List.map_map]
    rfl
  have hcons : ∀ x ∈ ((tx.vin.map CTxIn.prevout).zip undo).reverse,
      tx.Consumes x.1 ∧ x.2 = before.accessCoin x.1 := by
    intro x hx
    rw [hzip, List.mem_reverse, List.mem_map] at hx
    obtain ⟨txin, hmem, rfl⟩ := hx
    exact ⟨⟨⟨hcb, hzc⟩, List.mem_map_of_mem hmem⟩, rfl⟩
  have hspent : ∀ x ∈ ((tx.vin.map CTxIn.prevout).zip undo).reverse,
      before.coins[x.1]? = some x.2 ∧ Restorable x.2 := by
    intro x hx
    obtain ⟨coin, hget, hrest⟩ := h.inputs _ (hcons x hx).1
    rw [(hcons x hx).2, accessCoin, hget]
    exact ⟨rfl, hrest⟩
  obtain ⟨s', hs', honly, hcoins, hclean⟩ := foldlM_applyTxInUndo (E := E)
    (s := { s with view := s.view.setNullifiers tx false }) hspent
  simp only [hfst, List.mem_reverse, setNullifiers_coins] at hcoins
  refine ⟨s', hs', ⟨fun o ho => ?_, fun o ho => ?_, fun nf => ?_, ?_, ?_, ?_⟩, fun hnone => ?_⟩
  · rw [hcoins o, if_pos ho.2]
  · rw [hcoins o, if_neg fun hmem => ho ⟨⟨hcb, hzc⟩, hmem⟩]
  · rw [← getNullifier_setNullifiers, honly]
    rfl
  · rw [honly, setNullifiers_eq]
  · rw [honly, setNullifiers_eq]
  · rw [honly, setNullifiers_eq]
  · refine hclean (by rw [hfst]; exact List.nodup_reverse.mpr (h.nodup hzc)) fun x hx => ?_
    rw [setNullifiers_coins]
    exact hnone _ (hcons x hx).1

/-- **One transaction is undone** on any view; on the view after it the result is clean. -/
theorem AppliedTx.undoTx (hundo : txundo = some undo ∨ tx.isCoinBase = true)
    (hz : E.disconnectZerocoinTx tx = true) (s : DisconnectState) :
    ∃ s', TrumpCoin.undoTx E s (tx, txundo) = .ok s' ∧ Undone tx.Touches tx.nullifiers before s.view s'.view ∧
      (s.view.coins = after.coins → (∀ o, invalidOut o = false) → s'.fClean = s.fClean) := by
  have hclean : s.view.coins = after.coins → (∀ o, invalidOut o = false) →
      (TrumpCoin.undoOutputs tx s).fClean = s.fClean := by
    intro heq hinv
    refine undoOutputs_clean h.vout_length fun o out hc hget => ?_
    unfold HasOut
    rw [heq]
    exact h.created o out hc hget (hinv o)
  -- the inputs are undone after the outputs
  have hjoin : ∀ {view'}, Undone tx.Consumes tx.nullifiers before (TrumpCoin.undoOutputs tx s).view view' →
      Undone tx.Touches tx.nullifiers before s.view view' := by
    intro view' hinputs
    have := (h.undoOutputs s).trans hinputs fun _ _ _ => rfl
    rwa [List.append_nil] at this
  unfold TrumpCoin.undoTx
  dsimp only
  rw [require_pos hz, ok_bind]
  cases hskip : tx.isCoinBase || tx.hasZerocoinSpendInputs with
  | true =>
    have hkind : ¬(tx.isCoinBase = false ∧ tx.hasZerocoinSpendInputs = false) := by
      rw [← Bool.or_eq_false_iff, hskip]
      decide
    have hnil : tx.nullifiers = [] := by
      by_contra hne
      exact hkind (h.shielded hne).2
    refine ⟨TrumpCoin.undoOutputs tx s, rfl, hjoin ⟨fun o ho => absurd ho.1 hkind, fun _ _ => rfl, ?_, rfl, rfl, rfl⟩,
      hclean⟩
    simp [hnil]
  | false =>
    rw [Bool.or_eq_false_iff] at hskip
    obtain ⟨hcb, hzc⟩ := hskip
    obtain rfl : txundo = some undo := hundo.resolve_right (by rw [hcb]; decide)
    have hsize : undo.length = tx.vin.length := by rw [h.undo hcb hzc, List.length_map]
    obtain ⟨s', hs', hundone, hclean'⟩ := h.undoInputs (E := E) hcb hzc (TrumpCoin.undoOutputs tx s)
    refine ⟨s', ?_, hjoin hundone, fun heq hinv => (hclean' fun o hc => ?_).trans (hclean heq hinv)⟩
    · simp only [Bool.false_eq_true, if_false]
      rw [require_pos hsize, ok_bind]
      exact hs'
    · have hne : ¬tx.Creates o := fun ho => by
        obtain ⟨coin, hcoin, -⟩ := h.inputs _ hc
        rw [h.new _ ho.1] at hcoin
        cases hcoin
      rw [(undoOutputs_get h.vout_length s).2 hne, heq]
      exact h.consumed _ hc

end One

variable (h : AppliedTxs invalidOut l before after)
include h

theorem AppliedTxs.untouched {o : COutPoint}
    (ho : ∀ x ∈ l, ¬x.1.Touches o) : after.coins[o]? = before.coins[o]? := by
  induction h with
  | nil view => rfl
  | cons happlied _ _ ih =>
    rw [List.forall_mem_cons] at ho
    rw [ih ho.2, happlied.untouched o ho.1]

theorem AppliedTxs.getNullifier (nf : uint256) :
    (nf ∈ (l.flatMap fun x => x.1.nullifiers) → before.getNullifier nf = false) ∧
      after.getNullifier nf = if nf ∈ (l.flatMap fun x => x.1.nullifiers) then true else before.getNullifier nf := by
  induction h with
  | nil view => simp
  | @cons tx txundo undo l before mid after happlied _ _ ih =>
    have hmid : mid.getNullifier nf = if nf ∈ tx.nullifiers then true else before.getNullifier nf := by
      rw [← getNullifier_setNullifiers, happlied.rest]
      rfl
    simp only [List.flatMap_cons, List.mem_append]
    by_cases htx : nf ∈ tx.nullifiers
    · rw [if_pos htx] at hmid
      exact ⟨fun _ => happlied.unspent nf htx, by rw [ih.2, hmid]; simp [htx]⟩
    · rw [if_neg htx] at hmid
      rw [← hmid]
      simp only [htx, false_or]
      exact ih

theorem AppliedTxs.frame : after.hashBlock = before.hashBlock ∧
    after.hashSaplingAnchor = before.hashSaplingAnchor ∧ after.saplingAnchors = before.saplingAnchors := by
  induction h with
  | nil view => exact ⟨rfl, rfl, rfl⟩
  | cons happlied _ _ ih =>
    rw [ih.1, ih.2.1, ih.2.2, happlied.rest, setNullifiers_eq]
    exact ⟨rfl, rfl, rfl⟩

/-- **Transactions are undone from the last to the first**, on any view; on the view after them the result is clean. -/
theorem AppliedTxs.undoTxs
    (hz : ∀ x ∈ l, E.disconnectZerocoinTx x.1 = true) (s : DisconnectState) :
    ∃ s', l.reverse.foldlM (TrumpCoin.undoTx E) s = .ok s' ∧
      Undone (fun o => ∃ x ∈ l, x.1.Touches o) (l.flatMap fun x => x.1.nullifiers) before s.view s'.view ∧
      (s.view.coins = after.coins → (∀ o, invalidOut o = false) → s'.fClean = s.fClean) := by
  induction h with
  | nil view =>
    refine ⟨s, rfl, ⟨fun o ⟨_, hmem, _⟩ => absurd hmem List.not_mem_nil, fun _ _ => rfl, fun nf => ?_, rfl, rfl, rfl⟩,
      fun _ _ => rfl⟩
    simp
  | @cons tx txundo undo l before mid after happlied hundo hrest ih =>
    rw [List.forall_mem_cons] at hz
    obtain ⟨s₁, hs₁, hu₁, hc₁⟩ := ih hz.2
    obtain ⟨s₂, hs₂, hu₂, hc₂⟩ := happlied.undoTx hundo hz.1 s₁
    have hall := hu₁.trans hu₂ fun o ht _ => happlied.untouched o ht
    refine ⟨s₂, ?_, ?_, fun heq hinv => ?_⟩
    · rw [List.reverse_cons, List.foldlM_append, hs₁, ok_bind, List.foldlM_cons, hs₂]
      rfl
    · simp only [List.exists_mem_cons_iff, List.flatMap_cons]
      exact hall
    · rw [hc₂ ?_ hinv, hc₁ heq hinv]
      refine FinMap.ext_get fun o => ?_
      by_cases ho : ∃ x ∈ l, x.1.Touches o
      · exact hu₁.touched o ho
      · rw [hu₁.untouched o ho, heq]
        exact hrest.untouched fun x hmem hx => ho ⟨x, hmem, hx⟩

end Undo

/-! ## The transactions of a block -/

/-- The ids of the transactions are distinct, and no coin of the view has one of them. -/
structure NewTxids (view : CCoinsViewCache) (txs : List CTransaction) : Prop where
  nodup : (txs.map CTransaction.getHash).Nodup
  absent : ∀ tx ∈ txs, ∀ o : COutPoint, o.hash = tx.getHash → view.coins[o]? = none

section Loop

open CCoinsViewCache

variable {p : CChainParams} {V : NodeChecks} {N : NodeEnv} {nHeight nTime : Nat} {s t : ConnectState}
  {txs : List CTransaction}

theorem NewTxids.tail {invalidOut : COutPoint → Bool} {tx : CTransaction} {undo : List Coin}
    {before after : CCoinsViewCache} (h : NewTxids before (tx :: txs)) (happlied : AppliedTx invalidOut tx undo before after) :
    NewTxids after txs := by
  have hnodup := h.nodup
  rw [List.map_cons, List.nodup_cons] at hnodup
  refine ⟨hnodup.2, fun tx' hmem o ho => ?_⟩
  by_cases hcons : tx.Consumes o
  · exact happlied.consumed o hcons
  · have hne : ¬tx.Creates o := fun hc => hnodup.1 (List.mem_map.mpr ⟨tx', hmem, by rw [← ho, hc.1]⟩)
    rw [happlied.untouched o fun ht => ht.elim hcons hne]
    exact h.absent tx' (List.mem_cons_of_mem _ hmem) o ho

def undoCoins (vprevout : List (Option Coin)) : List Coin := vprevout.map fun coin => coin.getD coinEmpty

/-- **The loop of `ConnectBlock`** applies its transactions one after the other. -/
theorem loop_applied (hn : nHeight ≠ 0) (hchecked : ∀ tx ∈ txs, CheckedTx tx) (hsh : ∀ tx ∈ txs, tx.ShieldedOnly)
    (hnew : NewTxids s.view txs) (hall : s.view.AllRestorable)
    (h : txs.foldlM (connectTx p V N nHeight nTime) s = .ok t) :
    ∃ undos, t.vtxundo = s.vtxundo ++ undos ∧ undos.length = txs.length ∧
      AppliedTxs (invalidOutAt p V nHeight) (txs.zip (undos.map fun u => some (undoCoins u))) s.view t.view ∧
      t.view.AllRestorable ∧ t.saplingTree = s.saplingTree ++ txs.flatMap CTransaction.commitments := by
  induction txs generalizing s with
  | nil =>
    cases h
    exact ⟨[], by simp, rfl, .nil _, hall, by simp⟩
  | cons tx txs ih =>
    rw [List.foldlM_cons] at h
    obtain ⟨mid, hstep, h⟩ := bind_eq_ok.mp h
    rw [List.forall_mem_cons] at hchecked hsh
    have hconn := connectTx_eq_ok hstep
    obtain ⟨vprevout, hundo, happlied⟩ := hconn.applied hchecked.1 hsh.1 hall (hnew.absent tx List.mem_cons_self)
    obtain ⟨undos, hundos, hlen, hrest, hall', htree⟩ := ih hchecked.2 hsh.2 (hnew.tail happlied)
      (hconn.allRestorable hchecked.1 hn hall) h
    refine ⟨vprevout :: undos, ?_, by simp [hlen], ?_, hall', ?_⟩
    · rw [hundos, hundo, List.append_assoc]
      rfl
    · rw [List.map_cons, List.zip_cons_cons]
      exact .cons happlied (.inl rfl) hrest
    · rw [htree, hconn.tree, List.flatMap_cons, List.append_assoc]

end Loop

end TrumpCoin
