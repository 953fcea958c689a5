import Mathlib.Algebra.Group.Action.Defs
import Mathlib.Algebra.Order.BigOperators.Group.List
import Mathlib.Algebra.Order.Group.Nat
import TrumpCoin.Payments.Conservation
import TrumpCoin.Stake.BlockSignature
import TrumpCoin.Stake.Modifier

/-!
# Staking a block

`CreateCoinStake` of the wallet tries the available coins one after the other: `Stake` (`kernel.cpp`) decides whether a
coin may stake at the current time, and `CPivStake::CreateTxOuts` makes the outputs. Between two coins the wallet may
learn of a new block, be locked, or see the next coin spent. The flag of the last kernel survives a coin whose outputs
could not be made, also to the end of the list.

* `search_staked`, `search_stopped`, `search_through`: the three ways in which the search ends;
* `coinStake_correct_iff`: when the result is right.
-/

namespace TrumpCoin

open Lib PayeeState

/-! ## The kernel -/

def setCompact (nCompact : BitVec 32) : Nat :=
  let nSize := nCompact.toNat >>> 24
  let nWord := nCompact.toNat &&& 0x007fffff
  if nSize ≤ 3 then nWord >>> (8 * (3 - nSize)) else (nWord <<< (8 * (nSize - 3))) % 2 ^ 256

/-- An element of `availableCoins`, with the output it stands for and the block it is in. -/
structure CStakeableOutput where
  outPoint : COutPoint
  txOut : CTxOut
  pindex : StakeIndex
deriving DecidableEq

def CStakeableOutput.txIn (coin : CStakeableOutput) : CTxIn := { prevout := coin.outPoint }

/-- The chain that staking builds on. `getOldStakeModifier` is the modifier of `legacy/stakemodifier.cpp` for a coin of
a block. -/
structure KernelEnv extends StakeEnv where
  getOldStakeModifier : StakeIndex → BitVec 64

/-- The members of `CStakeKernel`. -/
structure CStakeKernel where
  stakeModifier : Bytes
  nTimeBlockFrom : Nat
  stakeUniqueness : Bytes
  nTime : Int
  nBits : BitVec 32
  stakeValue : Int

namespace KernelEnv

variable (env : KernelEnv)

/-- The constructor of `CStakeKernel`. -/
def stakeKernel (pindexPrev : StakeIndex) (stakeInput : CStakeableOutput) (nBits : BitVec 32) (nTimeTx : Int) :
    CStakeKernel where
  stakeModifier :=
    if !env.active (pindexPrev.nHeight + 1) .UPGRADE_V3_4 then
      Codec.leBytes 8 (env.getOldStakeModifier stakeInput.pindex).toNat
    else (blob 32).write (env.getStakeModifierV2 pindexPrev)
  nTimeBlockFrom := stakeInput.pindex.data.nTime
  stakeUniqueness := (uintLE 4).write stakeInput.outPoint.n ++ (blob 32).write stakeInput.outPoint.hash
  nTime := nTimeTx
  nBits := nBits
  stakeValue := stakeInput.txOut.nValue

def kernelHash (kernel : CStakeKernel) : uint256 :=
  env.hash (kernel.stakeModifier ++ Codec.leBytes 4 kernel.nTimeBlockFrom ++ kernel.stakeUniqueness ++
    Codec.leBytes 4 (kernel.nTime % 2 ^ 32).toNat)

def checkKernelHash (kernel : CStakeKernel) : Bool :=
  let bnTarget := setCompact kernel.nBits * ((kernel.stakeValue % 2 ^ 64).toNat / 100) % 2 ^ 256
  (env.kernelHash kernel).toArith < bnTarget

def nTimeSlotLength : Int := 15

def getTimeSlot (nTime : Int) : Int := nTime.tdiv nTimeSlotLength * nTimeSlotLength

/-- `Stake`: whether the coin may stake, and the time it was tried at. -/
def stake (pindexPrev : StakeIndex) (stakeInput : CStakeableOutput) (nBits : BitVec 32) (adjustedTime : Int) :
    Bool × Int :=
  let fRegTest := env.params.isRegTestNet
  let nTimeTx := if fRegTest then adjustedTime else getTimeSlot adjustedTime
  if nTimeTx ≤ pindexPrev.data.nTime ∧ fRegTest = false then (false, nTimeTx)
  else (env.checkKernelHash (env.stakeKernel pindexPrev stakeInput nBits nTimeTx), nTimeTx)

end KernelEnv

/-! ## The outputs -/

/-- The kinds of scripts that `CreateTxOuts` tells apart among the results of `Solver`. The scripts that `Solver` looks
for before these (script hashes and data) have another length or first byte. -/
inductive StakeScript where
  | TX_PUBKEY
  | TX_PUBKEYHASH (keyID : CKeyID)
  | TX_COLDSTAKE (stakerKeyID : CKeyID)
  | other

def stakeScript (s : CScript) : StakeScript :=
  if (CScript.matchPayToPubkey s).isSome then .TX_PUBKEY
  else if CScript.isPayToPublicKeyHash s then .TX_PUBKEYHASH (CScript.hashAt s 3)
  else if CScript.isPayToColdStaking s then .TX_COLDSTAKE (CScript.hashAt s 6)
  else .other

/-- What the search reads of the node and the wallet in the turn of one coin. -/
structure StakeProbe where
  m_last_block_processed_height : Int
  isLocked : Bool := false
  shutdownRequested : Bool := false
  /-- `IsSpent` of the coin -/
  isSpent : Bool := false
  adjustedTime : Int
  /-- the wallet has the private key -/
  getKey : CKeyID → Bool
  nStakeSplitThreshold : Int

structure Trial where
  coin : CStakeableOutput
  probe : StakeProbe

namespace Trial

def createTxOuts (t : Trial) (nTotal : Int) : Option (List CTxOut) :=
  let vout := TrumpCoin.createTxOuts t.coin.txOut.scriptPubKey t.probe.nStakeSplitThreshold nTotal
  match stakeScript t.coin.txOut.scriptPubKey with
  | .TX_PUBKEY => some vout
  | .TX_PUBKEYHASH keyID => if t.probe.getKey keyID then some vout else none
  | .TX_COLDSTAKE keyID => if t.probe.getKey keyID then some vout else none
  | .other => none

end Trial

/-- `GetSerializeSize` of a transaction of the first version. -/
def legacyTxSize (vin : List CTxIn) (vout : List CTxOut) : Nat :=
  let compact n := (writeCompactSize n).length
  2 + 2 + compact vin.length + (vin.map fun i => 36 + compact i.scriptSig.length + i.scriptSig.length + 4).sum +
    compact vout.length + (vout.map fun o => 8 + compact o.scriptPubKey.length + o.scriptPubKey.length).sum + 4

/-! ## The search -/

/-- The transaction and the variables of the search. -/
structure CoinStakeState where
  vin : List CTxIn := []
  vout : List CTxOut := [⟨0, []⟩]
  nTxNewTime : Int := 0
  fKernelFound : Bool := false
  /-- the coins before the iterator -/
  tried : List CStakeableOutput := []

/-- What `CreateCoinStake` returns and leaves in its arguments. -/
structure CoinStakeResult where
  ok : Bool
  vin : List CTxIn
  vout : List CTxOut
  nTxNewTime : Int
  availableCoins : List CStakeableOutput

/-- Return from the search with `rest` behind the iterator. -/
def CoinStakeState.result (s : CoinStakeState) (ok : Bool) (rest : List Trial) : CoinStakeResult where
  ok := ok
  vin := s.vin
  vout := s.vout
  nTxNewTime := s.nTxNewTime
  availableCoins := s.tried ++ rest.map Trial.coin

namespace KernelEnv

variable (env : KernelEnv) (pindexPrev : StakeIndex) (nBits : BitVec 32)

/-- The loop of `CreateCoinStake`. -/
def search : List Trial → CoinStakeState → CoinStakeResult
  | [], s => s.result s.fKernelFound []
  | t :: rest, s =>
    -- a new block came in
    if t.probe.m_last_block_processed_height ≠ pindexPrev.nHeight then s.result false (t :: rest)
    else if t.probe.isLocked || t.probe.shutdownRequested then s.result false (t :: rest)
    else if t.probe.isSpent then search rest s
    else
      let found := env.stake pindexPrev t.coin nBits t.probe.adjustedTime
      let s := { s with fKernelFound := found.1, nTxNewTime := found.2 }
      if !found.1 then search rest { s with tried := s.tried ++ [t.coin] }
      else
        let nCredit := t.coin.txOut.nValue + rewward (pindexPrev.nHeight + 1)
        match t.createTxOuts nCredit with
        | none => search rest { s with tried := s.tried ++ [t.coin] }
        | some vout =>
          let s := { s with
            vout := setAmounts (s.vout ++ vout) nCredit
            vin := s.vin ++ [t.coin.txIn] }
          if DEFAULT_BLOCK_MAX_SIZE.tdiv 5 ≤ legacyTxSize s.vin s.vout then s.result false (t :: rest)
          else s.result s.fKernelFound (t :: rest)

/-- `CreateCoinStake`. The coins come with what is read in their turn. -/
def createCoinStake (trials : List Trial) (nTxNewTime : Int) : CoinStakeResult :=
  env.search pindexPrev nBits trials { nTxNewTime := nTxNewTime }

end KernelEnv

/-! ## The turn of a coin -/

section Turn

variable (env : KernelEnv) (pindexPrev : StakeIndex) (nBits : BitVec 32)

/-- The search ends before the coin is tried. -/
def Trial.Stops (t : Trial) : Prop :=
  t.probe.m_last_block_processed_height ≠ pindexPrev.nHeight ∨ t.probe.isLocked = true ∨
    t.probe.shutdownRequested = true

/-- The coin is unspent and meets the kernel target when it is tried. -/
def Trial.HasKernel (t : Trial) : Prop :=
  t.probe.isSpent = false ∧ (env.stake pindexPrev t.coin nBits t.probe.adjustedTime).1 = true

def Trial.nCredit (t : Trial) : Int := t.coin.txOut.nValue + rewward (pindexPrev.nHeight + 1)

def Trial.Stakes (t : Trial) : Prop :=
  t.HasKernel env pindexPrev nBits ∧ (t.createTxOuts (t.nCredit pindexPrev)).isSome = true

/-- What the turn of a coin that does not stake leaves behind. -/
def CoinStakeState.skip (s : CoinStakeState) (t : Trial) : CoinStakeState :=
  if t.probe.isSpent then s
  else { s with
    fKernelFound := (env.stake pindexPrev t.coin nBits t.probe.adjustedTime).1
    nTxNewTime := (env.stake pindexPrev t.coin nBits t.probe.adjustedTime).2
    tried := s.tried ++ [t.coin] }

end Turn

section Search

variable {env : KernelEnv} {pindexPrev : StakeIndex} {nBits : BitVec 32}
variable {t : Trial}

theorem search_stop (h : t.Stops pindexPrev) (rest : List Trial) (s : CoinStakeState) :
    env.search pindexPrev nBits (t :: rest) s = s.result false (t :: rest) := by
  rw [KernelEnv.search]
  by_cases hheight : t.probe.m_last_block_processed_height = pindexPrev.nHeight
  · have hlocked : (t.probe.isLocked || t.probe.shutdownRequested) = true := by
      rw [Bool.or_eq_true]
      exact h.resolve_left (not_not.mpr hheight)
    rw [if_neg (not_not.mpr hheight), if_pos hlocked]
  · rw [if_pos hheight]

theorem search_try (h : ¬t.Stops pindexPrev) :
    ¬t.probe.m_last_block_processed_height ≠ pindexPrev.nHeight ∧
      ¬(t.probe.isLocked || t.probe.shutdownRequested) = true := by
  unfold Trial.Stops at h
  rw [not_or, ← Bool.or_eq_true] at h
  exact h

theorem search_skip (hgo : ¬t.Stops pindexPrev) (h : ¬t.Stakes env pindexPrev nBits) (rest : List Trial)
    (s : CoinStakeState) : env.search pindexPrev nBits (t :: rest) s =
      env.search pindexPrev nBits rest (s.skip env pindexPrev nBits t) := by
  obtain ⟨hheight, hlocked⟩ := search_try hgo
  rw [KernelEnv.search, if_neg hheight, if_neg hlocked, CoinStakeState.skip]
  split_ifs with hspent
  · rfl
  · dsimp only
    cases hfound : (env.stake pindexPrev t.coin nBits t.probe.adjustedTime).1 with
    | false => rfl
    | true =>
      have houts : t.createTxOuts (t.nCredit pindexPrev) = none := by
        rw [← Option.not_isSome_iff_eq_none]
        exact fun hsome => h ⟨⟨Bool.eq_false_iff.mpr hspent, hfound⟩, hsome⟩
      rw [Trial.nCredit] at houts
      rw [houts]
      rfl

theorem search_append {done : List Trial} (hgo : ∀ t ∈ done, ¬t.Stops pindexPrev)
    (h : ∀ t ∈ done, ¬t.Stakes env pindexPrev nBits) (rest : List Trial) (s : CoinStakeState) :
    env.search pindexPrev nBits (done ++ rest) s =
      env.search pindexPrev nBits rest (done.foldl (CoinStakeState.skip env pindexPrev nBits) s) := by
  induction done generalizing s with
  | nil => rfl
  | cons t done ih =>
    rw [List.forall_mem_cons] at hgo h
    rw [List.cons_append, search_skip hgo.1 h.1, ih hgo.2 h.2, List.foldl_cons]

end Search

/-! ## The transaction of a coin that stakes -/

theorem length_writeCompactSize_le (n : Nat) : (writeCompactSize n).length ≤ 9 := by
  unfold writeCompactSize
  split_ifs <;> simp [Codec.leBytes]

theorem length_of_stakeScript {s : CScript} (h : stakeScript s ≠ .other) : s.length ≤ 67 := by
  unfold stakeScript at h
  split at h
  · rename_i hkey
    by_contra hlen
    rw [matchPayToPubkey_of_length (by omega) (by omega)] at hkey
    cases hkey
  · split at h
    · rename_i hp2pkh
      rw [length_of_p2pkh hp2pkh]
      decide
    · split_ifs at h with hp2cs
      · rw [length_of_p2cs hp2cs]
        decide
      · exact absurd rfl h

theorem createTxOuts_eq_some {t : Trial} {nTotal : Int} {vout : List CTxOut} (h : t.createTxOuts nTotal = some vout) :
    vout = createTxOuts t.coin.txOut.scriptPubKey t.probe.nStakeSplitThreshold nTotal ∧
      t.coin.txOut.scriptPubKey.length ≤ 67 := by
  have hkind : stakeScript t.coin.txOut.scriptPubKey ≠ .other := by
    intro hother
    rw [Trial.createTxOuts, hother] at h
    cases h
  refine ⟨?_, length_of_stakeScript hkind⟩
  unfold Trial.createTxOuts at h
  split at h
  · exact (Option.some.inj h).symm
  · split at h
    · exact (Option.some.inj h).symm
    · cases h
  · split at h
    · exact (Option.some.inj h).symm
    · cases h
  · cases h

/-- The limit of the size is out of reach. -/
theorem legacyTxSize_lt {vin : CTxIn} {vout : List CTxOut} (hvin : vin.scriptSig = []) (hlen : vout.length ≤ 74)
    (h : ∀ o ∈ vout, o.scriptPubKey.length ≤ 67) : (legacyTxSize [vin] vout : Int) < DEFAULT_BLOCK_MAX_SIZE.tdiv 5 := by
  have hsum := List.sum_le_card_nsmul
    (vout.map fun o => 8 + (writeCompactSize o.scriptPubKey.length).length + o.scriptPubKey.length) 84 (by
      intro x hx
      obtain ⟨o, ho, rfl⟩ := List.mem_map.mp hx
      have hscript := h o ho
      have hcompact := length_writeCompactSize_le o.scriptPubKey.length
      omega)
  rw [List.length_map, smul_eq_mul] at hsum
  have hcompact := length_writeCompactSize_le vout.length
  have hlimit : DEFAULT_BLOCK_MAX_SIZE.tdiv 5 = 190000 := by decide
  unfold legacyTxSize
  dsimp only
  rw [hlimit, List.map_singleton, List.sum_singleton, hvin]
  have hone : (writeCompactSize [vin].length).length = 1 := rfl
  have hzero : (writeCompactSize ([] : CScript).length).length = 1 := rfl
  rw [hone, hzero, List.length_nil]
  omega

/-- The transaction has the coin as its only input, an empty first output, and pays the coin's value and a reward to the
coin's script. -/
structure CoinStakeResult.StakesCoin (r : CoinStakeResult) (coin : CStakeableOutput) (reward : Int) : Prop where
  vin : r.vin = [coin.txIn]
  vout : ∃ outs, r.vout = ⟨0, []⟩ :: outs ∧ (∀ o ∈ outs, o.scriptPubKey = coin.txOut.scriptPubKey) ∧
    voutTotal outs = coin.txOut.nValue + reward

variable (env : KernelEnv) (pindexPrev : StakeIndex) (nBits : BitVec 32)

/-- The coin meets the kernel target of a block with the given time, which is not before the tip's. -/
def KernelEnv.MeetsTarget (coin : CStakeableOutput) (nTime : Int) : Prop :=
  (env.params.isRegTestNet = true ∨ pindexPrev.data.nTime < nTime) ∧
    env.checkKernelHash (env.stakeKernel pindexPrev coin nBits nTime) = true

section Result

variable {env : KernelEnv} {pindexPrev : StakeIndex} {nBits : BitVec 32}

theorem meetsTarget_of_stake {coin : CStakeableOutput} {adjustedTime : Int}
    (h : (env.stake pindexPrev coin nBits adjustedTime).1 = true) :
    env.MeetsTarget pindexPrev nBits coin (env.stake pindexPrev coin nBits adjustedTime).2 := by
  unfold KernelEnv.stake at h ⊢
  dsimp only at h ⊢
  generalize (if env.params.isRegTestNet = true then adjustedTime else KernelEnv.getTimeSlot adjustedTime) = nTimeTx
    at h ⊢
  split_ifs with hearly
  · rw [if_pos hearly] at h
    cases h
  · rw [if_neg hearly] at h
    refine ⟨?_, h⟩
    by_cases hreg : env.params.isRegTestNet = true
    · exact .inl hreg
    · exact .inr (not_le.mp fun hle => hearly ⟨hle, Bool.eq_false_iff.mpr hreg⟩)

theorem search_stake {t : Trial} (hgo : ¬t.Stops pindexPrev) (h : t.Stakes env pindexPrev nBits) (rest : List Trial)
    {s : CoinStakeState} (hvin : s.vin = []) (hvout : s.vout = [⟨0, []⟩]) :
    (env.search pindexPrev nBits (t :: rest) s).ok = true ∧
      (env.search pindexPrev nBits (t :: rest) s).nTxNewTime =
        (env.stake pindexPrev t.coin nBits t.probe.adjustedTime).2 ∧
      (env.search pindexPrev nBits (t :: rest) s).StakesCoin t.coin (rewward (pindexPrev.nHeight + 1)) := by
  obtain ⟨hheight, hlocked⟩ := search_try hgo
  obtain ⟨⟨hspent, hfound⟩, hsome⟩ := h
  obtain ⟨vout, houts⟩ := Option.isSome_iff_exists.mp hsome
  obtain ⟨hshape, hlen⟩ := createTxOuts_eq_some houts
  have hset : setAmounts (s.vout ++ vout) (t.nCredit pindexPrev) =
      ⟨0, []⟩ :: creditShares t.coin.txOut.scriptPubKey (splitOuts t.probe.nStakeSplitThreshold (t.nCredit pindexPrev))
        (t.nCredit pindexPrev) := by
    rw [hvout, hshape, createTxOuts_eq]
    exact setAmounts_replicate _ _ _ _
  have hscripts : ∀ n nCredit, ∀ o ∈ creditShares t.coin.txOut.scriptPubKey n nCredit,
      o.scriptPubKey = t.coin.txOut.scriptPubKey := by
    intro n nCredit o ho
    simp only [creditShares, shares, List.mem_append, List.mem_replicate, List.mem_singleton] at ho
    rcases ho with ⟨-, rfl⟩ | rfl <;> rfl
  have hsize : ¬DEFAULT_BLOCK_MAX_SIZE.tdiv 5 ≤ legacyTxSize (s.vin ++ [t.coin.txIn])
      (setAmounts (s.vout ++ vout) (t.nCredit pindexPrev)) := by
    rw [not_le, hvin, hset]
    refine legacyTxSize_lt rfl ?_ ?_
    · have hsplit := splitOuts_lt t.probe.nStakeSplitThreshold (t.nCredit pindexPrev)
      rw [List.length_cons, creditShares, length_shares]
      omega
    · rw [List.forall_mem_cons]
      refine ⟨Nat.zero_le _, fun o ho => ?_⟩
      rw [hscripts _ _ o ho]
      exact hlen
  rw [Trial.nCredit] at houts hset hsize
  rw [KernelEnv.search, if_neg hheight, if_neg hlocked, if_neg (Bool.eq_false_iff.mp hspent)]
  dsimp only
  rw [hfound, if_neg (by decide), houts]
  dsimp only
  rw [if_neg hsize]
  refine ⟨rfl, rfl, ?_, _, hset, hscripts _ _, voutTotal_creditShares _ _ _⟩
  show s.vin ++ [t.coin.txIn] = [t.coin.txIn]
  rw [hvin, List.nil_append]

variable (env pindexPrev nBits) in
theorem foldl_skip_tx (done : List Trial) (s : CoinStakeState) :
    (done.foldl (CoinStakeState.skip env pindexPrev nBits) s).vin = s.vin ∧
      (done.foldl (CoinStakeState.skip env pindexPrev nBits) s).vout = s.vout := by
  induction done generalizing s with
  | nil => exact ⟨rfl, rfl⟩
  | cons t done ih =>
    rw [List.foldl_cons, (ih _).1, (ih _).2, CoinStakeState.skip]
    split <;> exact ⟨rfl, rfl⟩

variable (env pindexPrev nBits) in
/-- The last coin that was tried had a kernel. -/
def LastHasKernel (trials : List Trial) : Prop :=
  ∃ done t rest, trials = done ++ t :: rest ∧ t.HasKernel env pindexPrev nBits ∧ ∀ t' ∈ rest, t'.probe.isSpent = true

theorem lastHasKernel_cons {t : Trial} {trials : List Trial} : LastHasKernel env pindexPrev nBits (t :: trials) ↔
    LastHasKernel env pindexPrev nBits trials ∨
      t.HasKernel env pindexPrev nBits ∧ ∀ t' ∈ trials, t'.probe.isSpent = true := by
  constructor
  · rintro ⟨done, u, rest, heq, hu, hrest⟩
    cases done with
    | nil =>
      cases heq
      exact .inr ⟨hu, hrest⟩
    | cons d done =>
      cases heq
      exact .inl ⟨done, u, rest, rfl, hu, hrest⟩
  · rintro (⟨done, u, rest, rfl, hu, hrest⟩ | ⟨ht, hrest⟩)
    · exact ⟨t :: done, u, rest, rfl, hu, hrest⟩
    · exact ⟨[], t, trials, rfl, ht, hrest⟩

theorem foldl_skip_flag (trials : List Trial) (s : CoinStakeState) :
    (trials.foldl (CoinStakeState.skip env pindexPrev nBits) s).fKernelFound = true ↔
      LastHasKernel env pindexPrev nBits trials ∨
        s.fKernelFound = true ∧ ∀ t ∈ trials, t.probe.isSpent = true := by
  induction trials generalizing s with
  | nil =>
    rw [or_iff_right]
    · simp
    · rintro ⟨done, t, rest, heq, -⟩
      exact List.append_ne_nil_of_right_ne_nil done (List.cons_ne_nil t rest) heq.symm
  | cons t trials ih =>
    rw [List.foldl_cons, ih, lastHasKernel_cons, List.forall_mem_cons, Trial.HasKernel, CoinStakeState.skip]
    cases hspent : t.probe.isSpent with
    | true => simp
    | false => simp

variable (env pindexPrev nBits) in
/-- A coin stakes before the search is stopped. -/
def Completes (trials : List Trial) : Prop :=
  ∃ done t rest, trials = done ++ t :: rest ∧ (∀ t' ∈ done ++ [t], ¬t'.Stops pindexPrev) ∧ t.Stakes env pindexPrev nBits

variable {trials : List Trial}

theorem Completes.exists_first (h : Completes env pindexPrev nBits trials) :
    ∃ done t rest, trials = done ++ t :: rest ∧ (∀ t' ∈ done, ¬t'.Stops pindexPrev) ∧
      (∀ t' ∈ done, ¬t'.Stakes env pindexPrev nBits) ∧ ¬t.Stops pindexPrev ∧ t.Stakes env pindexPrev nBits := by
  obtain ⟨done, t, rest, rfl, hgo, hstakes⟩ := h
  obtain ⟨pre, u, post, heq, hno, hu⟩ := Lib.exists_first (P := fun t => t.Stakes env pindexPrev nBits)
    ⟨t, List.mem_append_right done List.mem_cons_self, hstakes⟩
  rw [heq, List.forall_mem_append, List.forall_mem_cons] at hgo
  refine ⟨pre, u, post ++ rest, ?_, hgo.1, hno, hgo.2.1, hu⟩
  rw [← List.singleton_append, ← List.append_assoc, heq, List.append_assoc, List.cons_append]

theorem not_stakes_of_not_completes {done rest : List Trial} (h : ¬Completes env pindexPrev nBits (done ++ rest))
    (hgo : ∀ t ∈ done, ¬t.Stops pindexPrev) : ∀ t ∈ done, ¬t.Stakes env pindexPrev nBits := by
  intro u hu hstakes
  obtain ⟨before, after, rfl⟩ := List.append_of_mem hu
  refine h ⟨before, u, after ++ rest, by simp, fun v hv => hgo v ?_, hstakes⟩
  rw [List.mem_append, List.mem_singleton] at hv
  rw [List.mem_append, List.mem_cons]
  exact hv.imp_right .inl

/-- **Success.** The search ends with the first coin that stakes. -/
theorem search_staked (h : Completes env pindexPrev nBits trials) (nTxNewTime : Int) :
    ∃ t ∈ trials, t.probe.isSpent = false ∧ (env.createCoinStake pindexPrev nBits trials nTxNewTime).ok = true ∧
      env.MeetsTarget pindexPrev nBits t.coin (env.createCoinStake pindexPrev nBits trials nTxNewTime).nTxNewTime ∧
      (env.createCoinStake pindexPrev nBits trials nTxNewTime).StakesCoin t.coin
        (rewward (pindexPrev.nHeight + 1)) := by
  obtain ⟨done, t, rest, rfl, hgo, hno, hlast, hstakes⟩ := h.exists_first
  obtain ⟨hvin, hvout⟩ := foldl_skip_tx env pindexPrev nBits done { nTxNewTime := nTxNewTime }
  unfold KernelEnv.createCoinStake
  rw [search_append hgo hno]
  obtain ⟨hok, htime, hcoin⟩ := search_stake hlast hstakes rest hvin hvout
  refine ⟨t, List.mem_append_right _ List.mem_cons_self, hstakes.1.1, hok, ?_, hcoin⟩
  rw [htime]
  exact meetsTarget_of_stake hstakes.1.2

/-- **Interruption.** -/
theorem search_stopped (h : ¬Completes env pindexPrev nBits trials) (hstop : ∃ t ∈ trials, t.Stops pindexPrev)
    (nTxNewTime : Int) :
    (env.createCoinStake pindexPrev nBits trials nTxNewTime).ok = false := by
  obtain ⟨done, t, rest, rfl, hgo, hlast⟩ := Lib.exists_first hstop
  have hno := not_stakes_of_not_completes h hgo
  unfold KernelEnv.createCoinStake
  rw [search_append hgo hno, search_stop hlast]
  rfl

/-- **The end of the list.** -/
theorem search_through (hgo : ∀ t ∈ trials, ¬t.Stops pindexPrev) (h : ∀ t ∈ trials, ¬t.Stakes env pindexPrev nBits)
    (nTxNewTime : Int) :
    ((env.createCoinStake pindexPrev nBits trials nTxNewTime).ok = true ↔ LastHasKernel env pindexPrev nBits trials) ∧
      (env.createCoinStake pindexPrev nBits trials nTxNewTime).vin = [] := by
  have hsearch := search_append hgo h [] { nTxNewTime := nTxNewTime }
  rw [List.append_nil] at hsearch
  unfold KernelEnv.createCoinStake
  rw [hsearch, KernelEnv.search]
  exact ⟨(foldl_skip_flag trials _).trans (or_iff_left fun h => by cases h.1), (foldl_skip_tx env pindexPrev nBits trials _).1⟩

end Result

/-! ## The result -/

/-- What `CreateCoinStake` is for. If it returns true, the transaction stakes one of the coins, which is unspent and
meets the target at the returned time; if it returns false, none of the coins that were tried has a kernel and
outputs. -/
def CoinStakeCorrect (trials : List Trial) (r : CoinStakeResult) : Prop :=
  (r.ok = true → ∃ t ∈ trials, t.probe.isSpent = false ∧ env.MeetsTarget pindexPrev nBits t.coin r.nTxNewTime ∧
    r.StakesCoin t.coin (getBlockValue (pindexPrev.nHeight + 1))) ∧
  (r.ok = false → ∀ done t rest, trials = done ++ t :: rest → (∀ t' ∈ done ++ [t], ¬t'.Stops pindexPrev) →
    ¬t.Stakes env pindexPrev nBits)

/-- No coin stakes, the search is not stopped, and the last coin that is tried has a kernel. -/
def KernelWithoutOutputs (trials : List Trial) : Prop :=
  (∀ t ∈ trials, ¬t.Stops pindexPrev ∧ ¬t.Stakes env pindexPrev nBits) ∧ LastHasKernel env pindexPrev nBits trials

/-- **Staking a block.** The result of `CreateCoinStake` is right if and only if the last coin that is tried is not one
with a kernel but without outputs, and no coin stakes at one of the heights where the wallet's reward is not that of the
block. -/
theorem coinStake_correct_iff (env : KernelEnv) (pindexPrev : StakeIndex) (nBits : BitVec 32) (trials : List Trial)
    (nTxNewTime : Int) (hcoins : ∀ t ∈ trials, ∀ t' ∈ trials, t.coin.outPoint = t'.coin.outPoint →
      t.coin.txOut = t'.coin.txOut) :
    CoinStakeCorrect env pindexPrev nBits trials (env.createCoinStake pindexPrev nBits trials nTxNewTime) ↔
      ¬KernelWithoutOutputs env pindexPrev nBits trials ∧
        ((1310000 : Int) < pindexPrev.nHeight + 1 ∧ (pindexPrev.nHeight + 1 : Int) ≤ 1310010 →
          ¬Completes env pindexPrev nBits trials) := by
  by_cases hcomp : Completes env pindexPrev nBits trials
  · obtain ⟨t, ht, hspent, hok, htarget, hcoin⟩ := search_staked hcomp nTxNewTime
    have hflag : ¬KernelWithoutOutputs env pindexPrev nBits trials := by
      rintro ⟨hall, -⟩
      obtain ⟨done, u, rest, rfl, -, hstakes⟩ := hcomp
      exact (hall u (List.mem_append_right _ List.mem_cons_self)).2 hstakes
    rw [and_iff_right hflag]
    constructor
    · rintro ⟨htrue, -⟩ hband
      obtain ⟨t', ht', -, -, hcoin'⟩ := htrue hok
      -- both coins are the one in the input
      have hpoint : t.coin.outPoint = t'.coin.outPoint := by
        have hvin := hcoin.vin.symm.trans hcoin'.vin
        exact congrArg CTxIn.prevout (List.singleton_inj.mp hvin)
      obtain ⟨outs, hvout, -, hsum⟩ := hcoin.vout
      obtain ⟨outs', hvout', -, hsum'⟩ := hcoin'.vout
      obtain rfl : outs = outs' := (List.cons_inj_right _).mp (hvout.symm.trans hvout')
      rw [hsum, hcoins t ht t' ht' hpoint] at hsum'
      exact absurd hband ((rewward_eq_iff _).mp (Int.add_left_cancel hsum'))
    · intro hband
      refine ⟨fun _ => ⟨t, ht, hspent, htarget, ?_⟩, fun hfalse => ?_⟩
      · rw [← rewward_of_not_band fun hin => hband hin hcomp]
        exact hcoin
      · rw [hok] at hfalse
        cases hfalse
  · have hnone : ∀ done t rest, trials = done ++ t :: rest → (∀ t' ∈ done ++ [t], ¬t'.Stops pindexPrev) →
        ¬t.Stakes env pindexPrev nBits :=
      fun done t rest heq hgo hstakes => hcomp ⟨done, t, rest, heq, hgo, hstakes⟩
    rw [and_iff_left fun _ => hcomp]
    by_cases hstop : ∃ t ∈ trials, t.Stops pindexPrev
    · have hok := search_stopped hcomp hstop nTxNewTime
      refine iff_of_true ⟨fun htrue => ?_, fun _ => hnone⟩ ?_
      · rw [hok] at htrue
        cases htrue
      · rintro ⟨hall, -⟩
        obtain ⟨t, ht, hstops⟩ := hstop
        exact (hall t ht).1 hstops
    · have hgo : ∀ t ∈ trials, ¬t.Stops pindexPrev := fun t ht hstops => hstop ⟨t, ht, hstops⟩
      have hno := not_stakes_of_not_completes ((List.append_nil trials).symm ▸ hcomp) hgo
      obtain ⟨hok, hvin⟩ := search_through hgo hno nTxNewTime
      constructor
      · rintro ⟨htrue, -⟩ ⟨-, hlast⟩
        obtain ⟨t, -, -, -, hcoin⟩ := htrue (hok.mpr hlast)
        rw [hcoin.vin] at hvin
        cases hvin
      · intro hflag
        refine ⟨fun htrue => ?_, fun _ => hnone⟩
        exact absurd ⟨fun t ht => ⟨hgo t ht, hno t ht⟩, hok.mp htrue⟩ hflag

namespace Sample

/-- A chain on which every kernel hash is zero. -/
def kernelEnv : KernelEnv := { stakeEnv with getOldStakeModifier := fun _ => 0 }

def kernelTip : StakeIndex := .root { hash := 1, nTime := 1000, fProofOfStake := false }

/-- A coin of a thousand with the given script, in the wallet of its key. -/
def trialOf (scriptPubKey : CScript) : Trial where
  coin := { outPoint := ⟨0xa1, 0⟩, txOut := ⟨1000 * COIN, scriptPubKey⟩, pindex := kernelTip }
  probe := {
    m_last_block_processed_height := 0
    adjustedTime := 1507
    getKey := fun _ => true
    nStakeSplitThreshold := 500 * COIN }

/-- A script of two keys, one of which has to sign. -/
def multisigScript : CScript := 0x51 :: 0x21 :: ownKey ++ 0x21 :: otherKey ++ [0x52, 0xae]

/-- The first coin has a kernel and a script that cannot be staked, the second is staked. -/
def twoTrials : List Trial :=
  let first := trialOf multisigScript
  [{ first with coin := { first.coin with outPoint := ⟨0xa2, 0⟩ } }, trialOf stakedScript]

end Sample

open Sample

theorem coinStake_correct_of_key :
    (kernelEnv.createCoinStake kernelTip 0x1e0fffff twoTrials 0).vin.map CTxIn.prevout = [⟨0xa1, 0⟩] ∧
      (CoinStakeCorrect kernelEnv kernelTip 0x1e0fffff twoTrials
          (kernelEnv.createCoinStake kernelTip 0x1e0fffff twoTrials 0) ↔
        ¬KernelWithoutOutputs kernelEnv kernelTip 0x1e0fffff twoTrials ∧
          ((1310000 : Int) < kernelTip.nHeight + 1 ∧ (kernelTip.nHeight + 1 : Int) ≤ 1310010 →
            ¬Completes kernelEnv kernelTip 0x1e0fffff twoTrials)) := by
  refine ⟨by decide +kernel, coinStake_correct_iff _ _ _ _ 0 ?_⟩
  decide +kernel

/-- The only coin has a kernel and a script that cannot be staked: true is returned with a transaction that has no input
and no payment. -/
theorem coinStake_without_input :
    (kernelEnv.createCoinStake kernelTip 0x1e0fffff [trialOf multisigScript] 0).ok = true ∧
      (kernelEnv.createCoinStake kernelTip 0x1e0fffff [trialOf multisigScript] 0).vin = [] ∧
      (kernelEnv.createCoinStake kernelTip 0x1e0fffff [trialOf multisigScript] 0).vout =
        [⟨0, []⟩] := by
  decide +kernel

end TrumpCoin
