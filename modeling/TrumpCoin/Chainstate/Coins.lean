import TrumpCoin.Consensus

/-!
# Transaction values and the coins view

`GetValueOut` and `GetShieldedValueIn` of `primitives/transaction.cpp`, and the coins view of `coins.cpp` with
`UpdateCoins`. The view is what is seen through the stack of caches: the unspent coins, the nullifiers and the
commitment trees. Which outpoints have an entry in the topmost cache is a parameter of the one function that
depends on it, `AddCoin`.

Amounts are unbounded integers. The sums of the source are 64 bit; `GetValueOut` checks for the wrap.

* `updateCoins_total`: what a transaction does to the total of the view;
* `updateCoins_keeps`, `updateCoins_creates`: when an output is unspent after a transaction.
-/

namespace TrumpCoin

open Lib

/-! ## Values of a transaction -/

namespace CTransaction

variable (tx : CTransaction)

def voutSum : Int := (tx.vout.map CTxOut.nValue).sum

def valueBalance : Int := (tx.sapData.map SaplingTxData.valueBalance).getD 0

def addValueOut (nValueOut : Int) (out : CTxOut) : Result Int := do
  require (.exception "CTransaction::GetValueOut() : value out of range : less than 0") (0 ≤ out.nValue)
  require (.exception "CTransaction::GetValueOut() : value out of range : wraps the int64_t boundary")
    (nValueOut + out.nValue < 2 ^ 63)
  return nValueOut + out.nValue

def getValueOut : Result Int := do
  let nValueOut ← tx.vout.foldlM addValueOut 0
  if tx.hasSaplingData ∧ tx.valueBalance < 0 then do
    require (.exception "GetValueOut(): invalid tx version") (tx.isSaplingVersion = true)
    return nValueOut - tx.valueBalance
  else return nValueOut

def getShieldedValueIn : Result Int :=
  if tx.hasSaplingData ∧ 0 < tx.valueBalance then do
    require (.exception "GetValueOut(): invalid tx version") (tx.isSaplingVersion = true)
    return tx.valueBalance
  else return 0

theorem hasSaplingData_of_valueBalance (h : tx.valueBalance ≠ 0) : tx.hasSaplingData = true := by
  unfold valueBalance at h
  unfold hasSaplingData
  cases hsap : tx.sapData with
  | none => rw [hsap] at h; exact (h rfl).elim
  | some d =>
    rw [hsap] at h
    simp only [Option.map_some, Option.getD_some] at h
    simp [h]

theorem foldlM_addValueOut {vout : List CTxOut} {n v : Int} (h : vout.foldlM addValueOut n = .ok v) :
    (∀ out ∈ vout, 0 ≤ out.nValue) ∧ v = n + (vout.map CTxOut.nValue).sum := by
  induction vout generalizing n with
  | nil => cases h; simp
  | cons out vout ih =>
    rw [List.foldlM_cons] at h
    obtain ⟨m, hstep, h⟩ := bind_eq_ok.mp h
    simp only [addValueOut, bind_eq_ok, require_eq_ok, pure_eq_ok] at hstep
    obtain ⟨_, hpos, _, -, rfl⟩ := hstep
    obtain ⟨hall, rfl⟩ := ih h
    rw [List.forall_mem_cons, List.map_cons, List.sum_cons]
    exact ⟨⟨hpos, hall⟩, by omega⟩

/-- What enters the shielded pool (a negative balance) counts as value out. -/
theorem getValueOut_eq_ok {tx : CTransaction} {v : Int} (h : tx.getValueOut = .ok v) :
    (∀ out ∈ tx.vout, 0 ≤ out.nValue) ∧ v = tx.voutSum + max 0 (-tx.valueBalance) := by
  obtain ⟨n, hsum, h⟩ := bind_eq_ok.mp h
  obtain ⟨hall, rfl⟩ := foldlM_addValueOut hsum
  refine ⟨hall, ?_⟩
  split_ifs at h with hneg
  · obtain ⟨_, -, h⟩ := bind_eq_ok.mp h
    rw [pure_eq_ok] at h
    rw [← h, voutSum]
    omega
  · rw [pure_eq_ok] at h
    have : 0 ≤ tx.valueBalance := by
      by_contra hlt
      exact hneg ⟨tx.hasSaplingData_of_valueBalance (by omega), by omega⟩
    rw [← h, voutSum]
    omega

theorem getShieldedValueIn_eq_ok {tx : CTransaction} {v : Int} (h : tx.getShieldedValueIn = .ok v) :
    v = max 0 tx.valueBalance := by
  unfold getShieldedValueIn at h
  split_ifs at h with hpos
  · obtain ⟨_, -, h⟩ := bind_eq_ok.mp h
    rw [pure_eq_ok] at h
    omega
  · rw [pure_eq_ok] at h
    have : tx.valueBalance ≤ 0 := by
      by_contra hlt
      exact hpos ⟨tx.hasSaplingData_of_valueBalance (by omega), by omega⟩
    omega

end CTransaction

/-! ## The coins view -/

/-- `SaplingMerkleTree`, as the note commitments appended to it. -/
abbrev SaplingMerkleTree := List uint256

/-- What is seen through a `CCoinsViewCache`. -/
structure CCoinsViewCache where
  /-- `GetBestBlock` -/
  hashBlock : uint256
  /-- the coins that are not spent -/
  coins : FinMap COutPoint Coin := ∅
  /-- `entered` of each nullifier entry -/
  saplingNullifiers : FinMap uint256 Bool := ∅
  /-- `GetBestAnchor` -/
  hashSaplingAnchor : uint256
  saplingAnchors : FinMap uint256 SaplingMerkleTree := ∅

def Coin.isSpent (coin : Coin) : Bool := coin.out.nValue == -1

def coinEmpty : Coin := ⟨⟨-1, []⟩, false, false, 0⟩

namespace CCoinsViewCache

variable (view : CCoinsViewCache)

def accessCoin (outpoint : COutPoint) : Coin := (view.coins[outpoint]?).getD coinEmpty

def haveCoin (outpoint : COutPoint) : Bool := (view.coins[outpoint]?).isSome

def haveInputs (tx : CTransaction) : Bool :=
  if tx.isCoinBase = false ∧ tx.hasZerocoinSpendInputs = false then tx.vin.all fun txin => view.haveCoin txin.prevout
  else true

def inputValue (txin : CTxIn) : Int :=
  if txin.isZerocoinSpend || txin.isZerocoinPublicSpend then txin.nSequence.toNat * COIN
  else (view.accessCoin txin.prevout).out.nValue

def getValueIn (tx : CTransaction) : Result Int :=
  if tx.isCoinBase then .ok 0
  else do
    let shieldedValueIn ← tx.getShieldedValueIn
    return (tx.vin.map view.inputValue).sum + shieldedValueIn

def getNullifier (nullifier : uint256) : Bool := (view.saplingNullifiers[nullifier]?).getD false

variable (root : SaplingMerkleTree → uint256)

/-- `GetSaplingAnchorAt`. The empty tree needs no entry; `root` computes the root of a tree. -/
def getSaplingAnchorAt (rt : uint256) : Option SaplingMerkleTree :=
  if rt = root [] then some [] else view.saplingAnchors[rt]?

def haveShieldedRequirements (tx : CTransaction) : Bool :=
  if tx.isShieldedTx then
    match tx.sapData with
    | none => true
    | some d => d.vShieldedSpend.all fun spend =>
        !view.getNullifier spend.nullifier && (view.getSaplingAnchorAt root spend.anchor).isSome
  else true

def spendCoin (outpoint : COutPoint) : CCoinsViewCache × Option Coin :=
  ({ view with coins := view.coins.erase outpoint }, view.coins[outpoint]?)

/-- `AddCoin` without `possible_overwrite`. An unspent coin is noticed where the topmost cache has an entry for it
(`hasEntry`) and replaced otherwise. -/
def addCoin (hasEntry : COutPoint → Bool) (outpoint : COutPoint) (coin : Coin) : Result CCoinsViewCache := do
  require (.assertFailure "AddCoin: !coin.IsSpent()") (coin.isSpent = false)
  if CScript.isUnspendable coin.out.scriptPubKey || CScript.isZerocoinMint coin.out.scriptPubKey then return view
  else do
    require (.exception "Adding new coin that replaces non-pruned entry")
      (¬(hasEntry outpoint = true ∧ view.haveCoin outpoint = true))
    return { view with coins := view.coins.insert outpoint coin }

def coinOf (tx : CTransaction) (nHeight : Nat) (out : CTxOut) : Coin := ⟨out, tx.isCoinBase, tx.isCoinStake, nHeight⟩

variable (hasEntry invalidOut : COutPoint → Bool) (tx : CTransaction)

/-- One step of `AddCoins`. `invalidOut` holds of the outpoints that are not added, where they are to be skipped. -/
def addOutput (nHeight : Nat) (view : CCoinsViewCache) (out : CTxOut × Nat) : Result CCoinsViewCache :=
  let outpoint : COutPoint := ⟨tx.getHash, BitVec.ofNat 32 out.2⟩
  if invalidOut outpoint then .ok (view.spendCoin outpoint).1
  else view.addCoin hasEntry outpoint (coinOf tx nHeight out.1)

def addCoins (nHeight : Nat) : Result CCoinsViewCache :=
  tx.vout.zipIdx.foldlM (addOutput hasEntry invalidOut tx nHeight) view

def setNullifiers (tx : CTransaction) (spent : Bool) : CCoinsViewCache :=
  match tx.sapData with
  | none => view
  | some d =>
    { view with
      saplingNullifiers := d.vShieldedSpend.foldl (fun m spend => m.insert spend.nullifier spent) view.saplingNullifiers }

def pushAnchor (tree : SaplingMerkleTree) : CCoinsViewCache :=
  if root tree = view.hashSaplingAnchor then view
  else { view with saplingAnchors := view.saplingAnchors.insert (root tree) tree, hashSaplingAnchor := root tree }

/-- Spend the inputs in order; the second component is `CTxUndo::vprevout`. -/
def spendInputs (view : CCoinsViewCache) : List CTxIn → CCoinsViewCache × List (Option Coin)
  | [] => (view, [])
  | txin :: vin =>
    let (view, coin) := view.spendCoin txin.prevout
    let (view, vprevout) := spendInputs view vin
    (view, coin :: vprevout)

def updateCoins (nHeight : Nat) : Result (CCoinsViewCache × List (Option Coin)) := do
  let (view, vprevout) :=
    if tx.isCoinBase = false ∧ tx.hasZerocoinSpendInputs = false then view.spendInputs tx.vin else (view, [])
  let view := view.setNullifiers tx true
  let view ← view.addCoins hasEntry invalidOut tx nHeight
  return (view, vprevout)

end CCoinsViewCache

/-! ## The coin of an outpoint -/

namespace CTransaction

/-- The outpoint is spent by `UpdateCoins`. -/
def Consumes (tx : CTransaction) (o : COutPoint) : Prop :=
  (tx.isCoinBase = false ∧ tx.hasZerocoinSpendInputs = false) ∧ o ∈ tx.vin.map CTxIn.prevout

instance (tx : CTransaction) (o : COutPoint) : Decidable (tx.Consumes o) := inferInstanceAs (Decidable (_ ∧ _))

/-- The coin of an outpoint after a transaction of a block of the given height. -/
def coinAfter (invalidOut : COutPoint → Bool) (nHeight : Nat) (o : COutPoint) (before : Option Coin)
    (tx : CTransaction) : Option Coin :=
  let left := if tx.Consumes o then none else before
  if o.hash = tx.getHash then
    match tx.vout[o.n.toNat]? with
    | none => left
    | some out =>
      if invalidOut o then none
      else if CScript.isUnspendable out.scriptPubKey || CScript.isZerocoinMint out.scriptPubKey then left
      else some (CCoinsViewCache.coinOf tx nHeight out)
  else left

/-- A coin seen after `tx` was there before, or is a spendable output of `tx`. -/
theorem coinAfter_eq_some {invalidOut : COutPoint → Bool} {nHeight : Nat} {o : COutPoint} {before : Option Coin}
    {tx : CTransaction} {coin : Coin} (h : tx.coinAfter invalidOut nHeight o before = some coin) :
    before = some coin ∨ invalidOut o = false ∧ o.hash = tx.getHash ∧ ∃ out, tx.vout[o.n.toNat]? = some out ∧
      (CScript.isUnspendable out.scriptPubKey || CScript.isZerocoinMint out.scriptPubKey) = false ∧
      coin = CCoinsViewCache.coinOf tx nHeight out := by
  have hleft : (if tx.Consumes o then none else before) = some coin → before = some coin := by
    intro h
    split at h
    · cases h
    · exact h
  unfold coinAfter at h
  dsimp only at h
  split at h
  · rename_i hhash
    split at h
    · exact .inl (hleft h)
    · rename_i out hout
      split at h
      · cases h
      · rename_i hinv
        split at h
        · exact .inl (hleft h)
        · rename_i hskip
          cases h
          exact .inr ⟨Bool.not_eq_true _ ▸ hinv, hhash, out, hout, Bool.not_eq_true _ ▸ hskip, rfl⟩
  · exact .inl (hleft h)

end CTransaction

namespace CCoinsViewCache

/-! ## Inversion -/

def afterSpends (view : CCoinsViewCache) (tx : CTransaction) : CCoinsViewCache :=
  if tx.isCoinBase = false ∧ tx.hasZerocoinSpendInputs = false then (view.spendInputs tx.vin).1 else view

variable {view : CCoinsViewCache} {view' : CCoinsViewCache} {tx : CTransaction} {hasEntry invalidOut : COutPoint → Bool}
  {nHeight : Nat} {vprevout : List (Option Coin)}

@[simp] theorem setNullifiers_coins (tx : CTransaction) (spent : Bool) :
    (view.setNullifiers tx spent).coins = view.coins := by
  unfold setNullifiers
  split <;> rfl

@[simp] theorem pushAnchor_coins (root : SaplingMerkleTree → uint256) (tree : SaplingMerkleTree) :
    (view.pushAnchor root tree).coins = view.coins := by
  unfold pushAnchor
  split <;> rfl

theorem updateCoins_eq_ok (h : view.updateCoins hasEntry invalidOut tx nHeight = .ok (view', vprevout)) :
    ((view.afterSpends tx).setNullifiers tx true).addCoins hasEntry invalidOut tx nHeight = .ok view' := by
  unfold updateCoins at h
  unfold afterSpends
  by_cases hspend : tx.isCoinBase = false ∧ tx.hasZerocoinSpendInputs = false
  · rw [if_pos hspend] at h ⊢
    obtain ⟨v, hv, h⟩ := bind_eq_ok.mp h
    cases h
    exact hv
  · rw [if_neg hspend] at h ⊢
    obtain ⟨v, hv, h⟩ := bind_eq_ok.mp h
    cases h
    exact hv

theorem addOutput_eq_ok {out : CTxOut × Nat} (h : addOutput hasEntry invalidOut tx nHeight view out = .ok view') :
    (invalidOut ⟨tx.getHash, BitVec.ofNat 32 out.2⟩ = true ∧
      view' = { view with coins := view.coins.erase ⟨tx.getHash, BitVec.ofNat 32 out.2⟩ }) ∨
    invalidOut ⟨tx.getHash, BitVec.ofNat 32 out.2⟩ = false ∧ (coinOf tx nHeight out.1).isSpent = false ∧
      ((CScript.isUnspendable out.1.scriptPubKey || CScript.isZerocoinMint out.1.scriptPubKey) = true ∧ view' = view ∨
      (CScript.isUnspendable out.1.scriptPubKey || CScript.isZerocoinMint out.1.scriptPubKey) = false ∧ view' =
        { view with coins := view.coins.insert ⟨tx.getHash, BitVec.ofNat 32 out.2⟩ (coinOf tx nHeight out.1) }) := by
  unfold addOutput at h
  dsimp only at h
  split_ifs at h with hinv
  · cases h
    exact .inl ⟨hinv, rfl⟩
  · obtain ⟨_, hunspent, h⟩ := bind_eq_ok.mp h
    refine .inr ⟨Bool.not_eq_true _ ▸ hinv, require_eq_ok.mp hunspent, ?_⟩
    split_ifs at h with hskip
    · cases h
      exact .inl ⟨hskip, rfl⟩
    · obtain ⟨_, -, h⟩ := bind_eq_ok.mp h
      cases h
      exact .inr ⟨Bool.not_eq_true _ ▸ hskip, rfl⟩

variable {o : COutPoint} {out : CTxOut} {coin : Coin}

/-- Spending the inputs removes their outpoints and nothing else. -/
theorem spendInputs_get (o : COutPoint) : ∀ {view : CCoinsViewCache} {vin : List CTxIn},
    (view.spendInputs vin).1.coins[o]? = if o ∈ vin.map CTxIn.prevout then none else view.coins[o]?
  | view, [] => by simp [spendInputs]
  | view, txin :: vin => by
    rw [spendInputs, spendInputs_get o]
    simp only [spendCoin, FinMap.get_erase, List.map_cons, List.mem_cons]
    by_cases h : txin.prevout = o
    · simp [h]
    · simp [h, Ne.symm h]

/-! ## Totals -/

def total (view : CCoinsViewCache) : Int := FinMap.total (fun coin => coin.out.nValue) view.coins

def Nonneg (view : CCoinsViewCache) : Prop :=
  ∀ (o : COutPoint) (coin : Coin), view.coins[o]? = some coin → 0 ≤ coin.out.nValue

/-- What an output adds to the total at most: a zerocoin mint adds nothing. -/
def addedValue (out : CTxOut) : Int := if CScript.isZerocoinMint out.scriptPubKey then 0 else out.nValue

theorem Nonneg.at? (h : view.Nonneg) (o : COutPoint) :
    0 ≤ FinMap.at? (fun coin : Coin => coin.out.nValue) view.coins o := by
  unfold FinMap.at?
  cases hm : view.coins[o]? with
  | none => simp
  | some coin => exact h o coin hm

theorem Nonneg.setNullifiers (h : view.Nonneg) (tx : CTransaction) (spent : Bool) :
    (view.setNullifiers tx spent).Nonneg := by
  unfold Nonneg
  rw [setNullifiers_coins]
  exact h

@[simp] theorem setNullifiers_total (tx : CTransaction) (spent : Bool) :
    (view.setNullifiers tx spent).total = view.total := by
  rw [total, setNullifiers_coins]
  rfl

/-- One output adds at most its own value; a zerocoin mint adds none. -/
theorem addOutput_total {out : CTxOut × Nat} (hn : view.Nonneg) (hpos : 0 ≤ out.1.nValue)
    (h : addOutput hasEntry invalidOut tx nHeight view out = .ok view') :
    view'.Nonneg ∧ view'.total ≤ view.total + addedValue out.1 := by
  have hadded : 0 ≤ addedValue out.1 := by
    unfold addedValue
    split
    · exact Int.le_refl 0
    · exact hpos
  have := hn.at? ⟨tx.getHash, BitVec.ofNat 32 out.2⟩
  rcases addOutput_eq_ok h with ⟨-, rfl⟩ | ⟨-, -, ⟨-, rfl⟩ | ⟨hskip, rfl⟩⟩
  · refine ⟨FinMap.forall_erase hn, ?_⟩
    simp only [total, FinMap.total_erase]
    omega
  · exact ⟨hn, by omega⟩
  · refine ⟨FinMap.forall_insert hn hpos, ?_⟩
    rw [Bool.or_eq_false_iff] at hskip
    simp only [total, FinMap.total_insert, addedValue, hskip.2, coinOf, Bool.false_eq_true, if_false]
    omega

theorem foldlM_addOutput_total : ∀ {outs : List (CTxOut × Nat)} {view : CCoinsViewCache}, view.Nonneg →
    (∀ out ∈ outs, 0 ≤ out.1.nValue) → outs.foldlM (addOutput hasEntry invalidOut tx nHeight) view = .ok view' →
    view'.Nonneg ∧ view'.total ≤ view.total + (outs.map fun out => addedValue out.1).sum
  | [], view, hn, _, h => by
    cases h
    exact ⟨hn, by simp⟩
  | out :: outs, view, hn, hpos, h => by
    rw [List.foldlM_cons] at h
    obtain ⟨mid, hstep, h⟩ := bind_eq_ok.mp h
    rw [List.forall_mem_cons] at hpos
    obtain ⟨hmid, hle⟩ := addOutput_total hn hpos.1 hstep
    obtain ⟨hn', hle'⟩ := foldlM_addOutput_total hmid hpos.2 h
    rw [List.map_cons, List.sum_cons]
    exact ⟨hn', by omega⟩

def zerocoinMinted (tx : CTransaction) : Int :=
  (tx.vout.map fun out => if CScript.isZerocoinMint out.scriptPubKey then out.nValue else 0).sum

theorem sum_addedValue : ∀ vout : List CTxOut, (vout.map addedValue).sum +
    (vout.map fun out => if CScript.isZerocoinMint out.scriptPubKey then out.nValue else 0).sum =
      (vout.map CTxOut.nValue).sum
  | [] => rfl
  | out :: vout => by
    have ih := sum_addedValue vout
    simp only [List.map_cons, List.sum_cons, addedValue] at ih ⊢
    split <;> omega

/-- The outputs add at most their values, less what is minted as zerocoin. -/
theorem addCoins_total (hn : view.Nonneg) (hpos : ∀ out ∈ tx.vout, 0 ≤ out.nValue)
    (h : view.addCoins hasEntry invalidOut tx nHeight = .ok view') :
    view'.Nonneg ∧ view'.total + zerocoinMinted tx ≤ view.total + tx.voutSum := by
  have hpos' : ∀ out ∈ tx.vout.zipIdx, 0 ≤ out.1.nValue := fun out hout => hpos _ (List.fst_mem_of_mem_zipIdx hout)
  obtain ⟨hn', hle⟩ := foldlM_addOutput_total hn hpos' h
  have hsum : (tx.vout.zipIdx.map fun out => addedValue out.1).sum = (tx.vout.map addedValue).sum := by
    rw [show (fun out : CTxOut × Nat => addedValue out.1) = addedValue ∘ Prod.fst from rfl, ← List.map_map,
      List.zipIdx_map_fst]
  have := sum_addedValue tx.vout
  unfold zerocoinMinted CTransaction.voutSum
  exact ⟨hn', by omega⟩

/-- Spending present, distinct inputs takes exactly their values out of the view. -/
theorem spendInputs_total : ∀ {vin : List CTxIn} {view : CCoinsViewCache}, (vin.map CTxIn.prevout).Nodup →
    (∀ txin ∈ vin, view.haveCoin txin.prevout = true) → (view.spendInputs vin).1.total =
      view.total - (vin.map fun txin => (view.accessCoin txin.prevout).out.nValue).sum
  | [], view, _, _ => by simp [spendInputs]
  | txin :: vin, view, hnodup, hhave => by
    rw [List.map_cons, List.nodup_cons] at hnodup
    rw [List.forall_mem_cons] at hhave
    have hget : ∀ txin' ∈ vin, (view.spendCoin txin.prevout).1.coins[txin'.prevout]? = view.coins[txin'.prevout]? := by
      intro txin' hmem
      simp only [spendCoin]
      rw [FinMap.get_erase, if_neg fun heq => hnodup.1 (List.mem_map.mpr ⟨txin', hmem, heq.symm⟩)]
    rw [spendInputs, spendInputs_total hnodup.2 fun txin' hmem => by
      rw [haveCoin, hget txin' hmem]
      exact hhave.2 txin' hmem]
    have hrest : (vin.map fun txin' => ((view.spendCoin txin.prevout).1.accessCoin txin'.prevout).out.nValue) =
        vin.map fun txin' => (view.accessCoin txin'.prevout).out.nValue :=
      List.map_congr_left fun txin' hmem => by rw [accessCoin, accessCoin, hget txin' hmem]
    obtain ⟨coin, hcoin⟩ := Option.isSome_iff_exists.mp hhave.1
    rw [hrest, List.map_cons, List.sum_cons]
    simp only [total, spendCoin, FinMap.total_erase, FinMap.at?, accessCoin, hcoin, Option.map_some, Option.getD_some]
    omega

theorem spendInputs_nonneg (hn : view.Nonneg) (vin : List CTxIn) : (view.spendInputs vin).1.Nonneg := by
  intro o coin hm
  rw [spendInputs_get] at hm
  split at hm
  · cases hm
  · exact hn o coin hm

/-- The inputs of a transaction that can be connected: distinct and unspent, unless it spends zerocoins. -/
structure InputsReady (view : CCoinsViewCache) (tx : CTransaction) : Prop where
  nodup : tx.hasZerocoinSpendInputs = false → (tx.vin.map CTxIn.prevout).Nodup
  have_inputs : view.haveInputs tx = true

/-- **One transaction and the total.** Coins are taken at their value and outputs added at theirs; the value of a
zerocoin mint leaves the total. -/
theorem updateCoins_total (hn : view.Nonneg) (hready : InputsReady view tx) (hpos : ∀ out ∈ tx.vout, 0 ≤ out.nValue)
    (h : view.updateCoins hasEntry invalidOut tx nHeight = .ok (view', vprevout)) :
    view'.Nonneg ∧ view'.total + zerocoinMinted tx ≤ view.total + tx.voutSum -
      if tx.isCoinBase = false ∧ tx.hasZerocoinSpendInputs = false then
        (tx.vin.map fun txin => (view.accessCoin txin.prevout).out.nValue).sum else 0 := by
  have h := updateCoins_eq_ok h
  unfold afterSpends at h
  split_ifs with hspend
  · rw [if_pos hspend] at h
    have hhave := hready.have_inputs
    rw [haveInputs, if_pos hspend, List.all_eq_true] at hhave
    have hspent := spendInputs_total (hready.nodup hspend.2) hhave
    obtain ⟨hn', hle⟩ := addCoins_total ((spendInputs_nonneg hn tx.vin).setNullifiers tx true) hpos h
    rw [setNullifiers_total] at hle
    exact ⟨hn', by omega⟩
  · rw [if_neg hspend] at h
    obtain ⟨hn', hle⟩ := addCoins_total (hn.setNullifiers tx true) hpos h
    rw [setNullifiers_total] at hle
    exact ⟨hn', by omega⟩

/-! ## Single coins -/

variable (view o out) in
def HasOut : Prop :=
  ∃ coin, view.coins[o]? = some coin ∧ coin.out = out

def Spends (tx : CTransaction) (o : COutPoint) : Prop := tx.isCoinBase = false ∧ o ∈ tx.vin.map CTxIn.prevout

/-- The coin of an outpoint after its output is added. -/
def coinAdded (invalidOut : COutPoint → Bool) (tx : CTransaction) (nHeight : Nat) (o : COutPoint) (left : Option Coin)
    (out : CTxOut) : Option Coin :=
  if invalidOut o then none
  else if CScript.isUnspendable out.scriptPubKey || CScript.isZerocoinMint out.scriptPubKey then left
  else some (coinOf tx nHeight out)

theorem outpoint_index {vout : List CTxOut} {i : Nat} (hlen : vout.length ≤ 2 ^ 32) (h : vout[i]? = some out) :
    (BitVec.ofNat 32 i).toNat = i := by
  obtain ⟨hi, -⟩ := List.getElem?_eq_some_iff.mp h
  rw [BitVec.toNat_ofNat]
  exact Nat.mod_eq_of_lt (by omega)

theorem nodup_zipIdx_ofNat {α : Type} {l : List α} (hlen : l.length ≤ 2 ^ 32) :
    (l.zipIdx.map fun e => BitVec.ofNat 32 e.2).Nodup := by
  rw [show (fun e : α × Nat => BitVec.ofNat 32 e.2) = BitVec.ofNat 32 ∘ Prod.snd from rfl, ← List.map_map,
    List.zipIdx_map_snd]
  refine List.Nodup.map_on (fun a ha b hb heq => ?_) List.nodup_range'
  rw [List.mem_range'_1] at ha hb
  have := congrArg BitVec.toNat heq
  simp only [BitVec.toNat_ofNat] at this
  rw [Nat.mod_eq_of_lt (by omega), Nat.mod_eq_of_lt (by omega)] at this
  exact this

theorem addOutput_get {out : CTxOut × Nat} (h : addOutput hasEntry invalidOut tx nHeight view out = .ok view')
    (o : COutPoint) : view'.coins[o]? = if o = ⟨tx.getHash, BitVec.ofNat 32 out.2⟩ then
      coinAdded invalidOut tx nHeight o view.coins[o]? out.1 else view.coins[o]? := by
  split_ifs with ho
  · rw [coinAdded, ho]
    rcases addOutput_eq_ok h with ⟨hinv, rfl⟩ | ⟨hinv, -, ⟨hskip, rfl⟩ | ⟨hskip, rfl⟩⟩
    · simp [hinv]
    · simp [hinv, hskip]
    · simp [hinv, hskip]
  · rcases addOutput_eq_ok h with ⟨-, rfl⟩ | ⟨-, -, ⟨-, rfl⟩ | ⟨-, rfl⟩⟩
    · exact FinMap.get_erase_ne _ (Ne.symm ho)
    · rfl
    · exact FinMap.get_insert_ne _ _ (Ne.symm ho)

theorem foldlM_addOutput_get_ne {outs : List (CTxOut × Nat)} (ho : ∀ e ∈ outs, o ≠ ⟨tx.getHash, BitVec.ofNat 32 e.2⟩)
    (h : outs.foldlM (addOutput hasEntry invalidOut tx nHeight) view = .ok view') : view'.coins[o]? = view.coins[o]? :=
  foldlM_inv (I := fun v : CCoinsViewCache => v.coins[o]? = view.coins[o]?)
    (fun e he _ _ ih hs => ((addOutput_get hs o).trans (if_neg (ho e he))).trans ih) rfl h

/-- The view after `AddCoins`, outpoint by outpoint. -/
theorem addCoins_get (hlen : tx.vout.length ≤ 2 ^ 32) (h : view.addCoins hasEntry invalidOut tx nHeight = .ok view')
    (o : COutPoint) : view'.coins[o]? = if o.hash = tx.getHash then
      (tx.vout[o.n.toNat]?).elim view.coins[o]? (coinAdded invalidOut tx nHeight o view.coins[o]?)
    else view.coins[o]? := by
  split_ifs with hhash
  · cases hout : tx.vout[o.n.toNat]? with
    | none =>
      refine foldlM_addOutput_get_ne (fun e he heq => ?_) h
      have hget := List.mem_zipIdx_iff_getElem?.mp he
      rw [heq, outpoint_index hlen hget, hget] at hout
      cases hout
    | some out =>
      -- the loop up to the output, the output, and the rest, which has other numbers
      obtain ⟨pre, post, hsplit⟩ := List.append_of_mem (List.mk_mem_zipIdx_iff_getElem?.mpr hout)
      have hnodup := nodup_zipIdx_ofNat hlen
      unfold addCoins at h
      rw [hsplit] at h hnodup
      obtain ⟨t, t', hpre, hstep, hpost⟩ := foldlM_split h
      have ho : o = ⟨tx.getHash, BitVec.ofNat 32 o.n.toNat⟩ := by
        rw [BitVec.ofNat_toNat, BitVec.setWidth_eq, ← hhash]
      rw [List.map_append, List.map_cons, List.nodup_append, List.nodup_cons] at hnodup
      obtain ⟨-, ⟨hpostne, -⟩, hprene⟩ := hnodup
      have hn : ∀ {e : CTxOut × Nat}, o = ⟨tx.getHash, BitVec.ofNat 32 e.2⟩ →
          BitVec.ofNat 32 e.2 = BitVec.ofNat 32 o.n.toNat := fun heq => congrArg COutPoint.n (heq.symm.trans ho)
      rw [foldlM_addOutput_get_ne (fun e he heq => hpostne (List.mem_map.mpr ⟨e, he, hn heq⟩)) hpost,
        addOutput_get hstep, if_pos ho, foldlM_addOutput_get_ne (fun e he heq => hprene _ (List.mem_map_of_mem he) _
          List.mem_cons_self (hn heq)) hpre]
      rfl
  · exact foldlM_addOutput_get_ne (fun e _ heq => hhash (congrArg COutPoint.hash heq)) h

variable (view tx o) in
theorem afterSpends_coins : (view.afterSpends tx).coins[o]? = if tx.Consumes o then none else view.coins[o]? := by
  unfold afterSpends CTransaction.Consumes
  split
  · rename_i hspend
    rw [spendInputs_get]
    simp [hspend]
  · rename_i hspend
    simp [hspend]

section Update

variable (hlen : tx.vout.length ≤ 2 ^ 32)
  (h : view.updateCoins hasEntry invalidOut tx nHeight = .ok (view', vprevout))
include hlen h

/-- **One transaction.** `UpdateCoins` changes each outpoint as `coinAfter` says. -/
theorem updateCoins_get (o : COutPoint) : view'.coins[o]? = tx.coinAfter invalidOut nHeight o view.coins[o]? := by
  rw [addCoins_get hlen (updateCoins_eq_ok h), setNullifiers_coins, afterSpends_coins]
  unfold CTransaction.coinAfter
  cases tx.vout[o.n.toNat]? <;> rfl

/-- Every coin after `UpdateCoins` was there before or is an output of the transaction. -/
theorem updateCoins_origin (hget : view'.coins[o]? = some coin) : view.coins[o]? = some coin ∨
    o.hash = tx.getHash ∧ ∃ out, tx.vout[o.n.toNat]? = some out ∧ coin = coinOf tx nHeight out ∧ coin.isSpent = false ∧
      CScript.isUnspendable out.scriptPubKey = false ∧ CScript.isZerocoinMint out.scriptPubKey = false := by
  rw [updateCoins_get hlen h] at hget
  refine (CTransaction.coinAfter_eq_some hget).imp_right ?_
  rintro ⟨hinv, hhash, out, hout, hskip, rfl⟩
  refine ⟨hhash, out, hout, rfl, ?_, Bool.or_eq_false_iff.mp hskip⟩
  -- the loop came to the output and did not stop there
  obtain ⟨pre, post, hsplit⟩ := List.append_of_mem (List.mk_mem_zipIdx_iff_getElem?.mpr hout)
  have hadd := updateCoins_eq_ok h
  rw [addCoins, hsplit] at hadd
  obtain ⟨t, t', -, hstep, -⟩ := foldlM_split hadd
  rcases addOutput_eq_ok hstep with ⟨hinv', -⟩ | ⟨-, hunspent, -⟩
  · rw [BitVec.ofNat_toNat, BitVec.setWidth_eq, ← hhash] at hinv'
    cases hinv.symm.trans hinv'
  · exact hunspent

variable (hinv : invalidOut o = false)
include hinv

theorem updateCoins_keeps (hhas : view.HasOut o out) (hspend : ¬Spends tx o)
    (hsame : o.hash = tx.getHash → tx.vout[o.n.toNat]? = some out) : view'.HasOut o out := by
  obtain ⟨coin, hcoin, hout⟩ := hhas
  unfold HasOut
  rw [updateCoins_get hlen h, hcoin, CTransaction.coinAfter, if_neg fun hc : tx.Consumes o => hspend ⟨hc.1.1, hc.2⟩]
  by_cases hhash : o.hash = tx.getHash
  · simp only [hhash, hsame hhash, hinv, if_true, Bool.false_eq_true, if_false]
    split
    · exact ⟨coin, rfl, hout⟩
    · exact ⟨_, rfl, rfl⟩
  · rw [if_neg hhash]
    exact ⟨coin, rfl, hout⟩

theorem updateCoins_creates (hhash : o.hash = tx.getHash) (hout : tx.vout[o.n.toNat]? = some out)
    (hspendable : CScript.isUnspendable out.scriptPubKey = false)
    (hmint : CScript.isZerocoinMint out.scriptPubKey = false) : view'.HasOut o out := by
  refine ⟨coinOf tx nHeight out, ?_, rfl⟩
  rw [updateCoins_get hlen h]
  simp [CTransaction.coinAfter, hhash, hout, hinv, hspendable, hmint]

end Update

end CCoinsViewCache

end TrumpCoin
