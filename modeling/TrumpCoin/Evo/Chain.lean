import TrumpCoin.Evo.BlockStep

/-!
# Chains of blocks and the lists they produce

`Chain p c blocks pindex l` says that connecting `blocks` (newest first) up to `pindex` produced the list `l`,
each block accepted by `ProcessSpecialTxsInBlock` against the list of the block before it. The coins, the spork
value and the map orders the node sees may differ from block to block.

* `Chain.rep`: every list of a chain satisfies the representation invariant;
* `list_indexes_are_exact`: what that invariant means for the three maps.
-/

namespace TrumpCoin

open Lib

variable {D : Type} [Digest D]

/-- The list handed to the next block. `GetListForBlock` may rebuild a list from stored diffs, and the counter of
a rebuilt list can be lower than that of the list first computed; it stays above the ids in use. -/
structure Recount (l l' : CDeterministicPNList D) : Prop where
  same : l' = { l with nTotalRegisteredCount := l'.nTotalRegisteredCount }
  count_le : l'.nTotalRegisteredCount ≤ l.nTotalRegisteredCount
  ids_lt : ∀ (h : uint256) dmn, l.mnMap[h]? = some dmn → dmn.internalId < l.nTotalRegisteredCount →
    dmn.internalId < l'.nTotalRegisteredCount

/-- Blocks connected from genesis, and the list after the last of them. A height is an `int`. -/
inductive Chain (p : CChainParams) (c : Crypto) : List CBlock → CBlockIndex → CDeterministicPNList D → Prop
  | genesis (hash : uint256) : Chain p c [] (.genesis hash) {}
  | connect {blocks : List CBlock} {pindexPrev : CBlockIndex} {l old new : CDeterministicPNList D} (env : Env)
      (block : CBlock) (hprev : Chain p c blocks pindexPrev l) (hcount : Recount l old)
      (hheight : pindexPrev.nHeight + 1 < 2 ^ 31)
      (hnew : (⟨p, c, env, block, pindexPrev, old⟩ : BlockInput D).process = .ok new) :
      Chain p c (block :: blocks) (.child pindexPrev block.getHash) new

/-- Connect blocks (newest first) on top of genesis, each list computed from the one before it. -/
def connectBlocks (D : Type) [Digest D] (p : CChainParams) (c : Crypto) (genesis : uint256) :
    List (Env × CBlock) → Result (CBlockIndex × CDeterministicPNList D)
  | [] => .ok (.genesis genesis, {})
  | (env, block) :: bs => do
    let (pindexPrev, oldList) ← connectBlocks D p c genesis bs
    let newList ← processSpecialTxsInBlock p c env block pindexPrev oldList
    return (.child pindexPrev block.getHash, newList)

theorem Recount.refl (l : CDeterministicPNList D) : Recount l l := ⟨rfl, Nat.le_refl _, fun _ _ _ h => h⟩

variable {l' l : CDeterministicPNList D}

theorem Recount.mnMap (h : Recount l l') : l'.mnMap = l.mnMap := by rw [h.same]

theorem Recount.rep (h : Recount l l') (hl : RepInv l) : RepInv l' := by
  rw [h.same]; exact ⟨hl.key, hl.node, hl.ids, hl.props⟩

theorem process_cases {x : BlockInput D} (hold : RepInv x.oldList)
    (h : x.process = .ok l') :
    (isDIP3Enforced x.p (x.pindexPrev.nHeight + 1) = false ∧ l' = {}) ∨
    (isDIP3Enforced x.p (x.pindexPrev.nHeight + 1) = true ∧ ∃ new, x.build = .ok new ∧ BlockSteps x x.start new ∧
      RepInv new ∧ l' = { new with blockHash := x.block.getHash }) := by
  rcases newListOfBlock_eq_ok.mp (process_eq_ok.mp h).2 with ⟨hdip, rfl⟩ | ⟨hdip, new, hbuild, rfl⟩
  · exact .inl ⟨hdip, rfl⟩
  · have hs := build_steps hold hbuild
    exact .inr ⟨hdip, new, hbuild, hs, BlockSteps.rep hs hold.start, rfl⟩

theorem process_rep {x : BlockInput D} (hold : RepInv x.oldList)
    (h : x.process = .ok l') : RepInv l' := by
  rcases process_cases hold h with ⟨-, rfl⟩ | ⟨-, new, -, -, hnew, rfl⟩
  · exact RepInv.init 0 (-1) 0
  · exact ⟨hnew.key, hnew.node, hnew.ids, hnew.props⟩

theorem Chain.rep {p : CChainParams} {c : Crypto} {blocks : List CBlock} {pindex : CBlockIndex} (h : Chain p c blocks pindex l) : RepInv l := by
  induction h with
  | genesis => exact RepInv.init 0 (-1) 0
  | connect env block _ hcount _ hnew ih => exact process_rep (hcount.rep ih) hnew

theorem Chain.of_connectBlocks {p : CChainParams} {c : Crypto} {genesis : uint256} :
    ∀ {bs : List (Env × CBlock)} {r : CBlockIndex × CDeterministicPNList D},
      connectBlocks D p c genesis bs = .ok r → bs.length < 2 ^ 31 →
      Chain p c (bs.map Prod.snd) r.1 r.2 ∧ r.1.nHeight = bs.length
  | [], _, h, _ => by cases h; exact ⟨.genesis genesis, rfl⟩
  | (env, block) :: bs, r, h, hlen => by
    simp only [connectBlocks, bind_eq_ok] at h
    obtain ⟨⟨pindexPrev, l⟩, hprev, new, hnew, hr⟩ := h
    cases hr
    obtain ⟨hc, hheight⟩ := of_connectBlocks hprev (by simp only [List.length_cons] at hlen; omega)
    refine ⟨.connect env block hc (.refl l) ?_ hnew, congrArg (· + 1) hheight⟩
    simp only [hheight]
    exact hlen

/-! ## The three maps -/

/-- The digests the property map lists for a node: collateral, address unless null, owner key, operator key unless
null. -/
def CDeterministicPN.indexedDigests (D : Type) [Digest D] (dmn : CDeterministicPN) : List D :=
  [UniqueProperty.hash D (.outpoint dmn.collateralOutpoint)] ++
    (if dmn.pdmnState.addr = CService.null then [] else [UniqueProperty.hash D (.service dmn.pdmnState.addr)]) ++
    [UniqueProperty.hash D (.keyID dmn.pdmnState.keyIDOwner)] ++
    (if dmn.pdmnState.keyIDOperator = 0 then [] else [UniqueProperty.hash D (.keyID dmn.pdmnState.keyIDOperator)])

theorem NodeInv.holdings_eq {dmn : CDeterministicPN} (h : NodeInv dmn) :
    dmn.holdings D = (dmn.indexedDigests D : Multiset D) := by
  simp only [CDeterministicPN.holdings, UniqueProperty.digest, UniqueProperty.isNull_outpoint,
    UniqueProperty.isNull_service, UniqueProperty.isNull_keyID, if_neg h.collateral_ne, if_neg h.owner_ne,
    CDeterministicPN.indexedDigests, ← Multiset.coe_add, Multiset.coe_singleton]
  split <;> split <;> rfl

structure SharesNothing (a b : CDeterministicPN) : Prop where
  collateral : a.collateralOutpoint ≠ b.collateralOutpoint
  addr : a.pdmnState.addr ≠ CService.null → a.pdmnState.addr ≠ b.pdmnState.addr
  owner : a.pdmnState.keyIDOwner ≠ b.pdmnState.keyIDOwner
  owner_operator : a.pdmnState.keyIDOwner ≠ b.pdmnState.keyIDOperator
  operator_owner : a.pdmnState.keyIDOperator ≠ b.pdmnState.keyIDOwner
  operator : a.pdmnState.keyIDOperator ≠ 0 → a.pdmnState.keyIDOperator ≠ b.pdmnState.keyIDOperator

theorem RepInv.disjoint (hinj : CollisionFree D)
    (hl : RepInv l) {h h' : uint256} {a b : CDeterministicPN} (ha : l.mnMap[h]? = some a) (hb : l.mnMap[h']? = some b)
    (hne : h ≠ h') : SharesNothing a b := by
  have share : ∀ v : UniqueProperty, ¬v.IsNull → v ∈ a.properties → v ∉ b.properties :=
    fun v hnull hva hvb => hne (hl.property_owner hinj ha hb hva hvb hnull)
  have hkey : ∀ k : CKeyID, k ≠ 0 → .keyID k ∈ a.properties → .keyID k ∉ b.properties :=
    fun k hk => share (.keyID k) (fun hn => hk (UniqueProperty.isNull_keyID.mp hn))
  have howner := (hl.node h a ha).owner_ne
  have howner' := (hl.node h' b hb).owner_ne
  simp only [keyID_mem_properties] at hkey
  exact {
    collateral := fun he => hne (hl.collateral_injective hinj ha hb he)
    addr := fun hn he => share (.service a.pdmnState.addr) (fun hn' => hn (UniqueProperty.isNull_service.mp hn'))
      (service_mem_properties.mpr rfl) (service_mem_properties.mpr he.symm)
    owner := fun he => hkey _ howner (.inl rfl) (.inl he.symm)
    owner_operator := fun he => hkey _ howner (.inl rfl) (.inr he.symm)
    operator_owner := fun he => hkey _ howner' (.inr he) (.inl rfl)
    operator := fun hn he => hkey _ hn (.inr rfl) (.inr he.symm) }

/-- **Representation invariant.** After every block of a chain the id map is the inverse of `internalId`, the
property map lists exactly the digests of every node with their owner and multiplicity, and distinct nodes share no
collateral, address or key. -/
theorem list_indexes_are_exact (hinj : Function.Injective (Digest.serializeHash : Bytes → D)) {p : CChainParams}
    {c : Crypto} {blocks : List CBlock} {pindex : CBlockIndex} {l : CDeterministicPNList D}
    (hc : Chain p c blocks pindex l) :
    (∀ (id : Nat) (h : uint256), l.mnInternalIdMap[id]? = some h ↔
      ∃ dmn : CDeterministicPN, l.mnMap[h]? = some dmn ∧ dmn.internalId = id) ∧
    (∀ (d : D) (h : uint256) (n : Nat), l.mnUniquePropertyMap[d]? = some (h, n) ↔
      0 < n ∧ ∃ dmn : CDeterministicPN, l.mnMap[h]? = some dmn ∧ (dmn.indexedDigests D).count d = n) ∧
    (∀ (h : uint256) (dmn : CDeterministicPN), l.mnMap[h]? = some dmn → dmn.proTxHash = h) ∧
    (∀ (h h' : uint256) (a b : CDeterministicPN), l.mnMap[h]? = some a → l.mnMap[h']? = some b → h ≠ h' →
      SharesNothing a b) := by
  have hl := hc.rep
  refine ⟨hl.ids, fun d h n => ?_, hl.key, fun h h' a b ha hb hne => hl.disjoint hinj ha hb hne⟩
  rw [hl.props d h n]
  refine and_congr_right fun hpos => ?_
  cases hm : l.mnMap[h]? with
  | none =>
    rw [MnMap.holdings_of_get_none hm, Multiset.count_zero]
    simp only [reduceCtorEq, false_and, exists_false, iff_false]
    omega
  | some dmn =>
    rw [MnMap.holdings_of_get hm, (hl.node h dmn hm).holdings_eq, Multiset.coe_count]
    simp

/-! ## A sample chain -/

namespace Sample

def params : CChainParams where
  networkID := .REGTEST
  nActivationHeight idx := if idx = .UPGRADE_V6_0 then 1 else 0
  nPNCollateralAmt := 100 * COIN
  nMaxMoneyOut := 18000000 * COIN
  nBudgetCycleBlocks := 144
  nCoinbaseMaturity := 100
  heightLastInvalidUTXO := -1
  zcTimeStart := 0

def crypto : Crypto where
  hash160 _ := 0
  sha256 _ := 7
  hashWriter _ := 0
  verifyHash _ _ _ := true
  verifyMessage _ _ _ := true

def env : Env := ⟨fun _ => none, 0, .byHash⟩

def p2pkh (k : CKeyID) : CScript := [OP_DUP, OP_HASH160, 0x14] ++ keyID.write k ++ [OP_EQUALVERIFY, OP_CHECKSIG]

def coinbase (h : uint256) : CTransaction := { vin := [{}], vout := [⟨0, []⟩], hash := h }

/-- A registration with keys `k`, `k + 1`, `k + 2` and its own first output as collateral. -/
def register (h : uint256) (k : CKeyID) : CTransaction where
  nVersion := 3
  nType := TxType.PROREG
  vin := [{ prevout := ⟨h + 1, 0⟩ }]
  vout := [⟨100 * COIN, p2pkh (k + 4)⟩]
  hash := h
  extraPayload := some (ProRegPL.codec.write
    { collateralOutpoint := ⟨0, 0⟩, keyIDOwner := k, keyIDOperator := k + 1, keyIDVoting := k + 2,
      scriptPayout := p2pkh (k + 3), inputsHash := 0 })

def registerBlock : CBlock := { hash := 0xb1, vtx := [coinbase 0xc1, register 0x11 0x51] }

def laterBlock : CBlock := { hash := 0xb2, vtx := [coinbase 0xc2, register 0x21 0x61] }

theorem exists_chain (blocks : List CBlock) {P : CBlockIndex × CDeterministicPNList Bytes → Prop}
    (h : Returns (connectBlocks Bytes params crypto 0xb0 (blocks.map fun b => (env, b))) P)
    (hlen : blocks.length < 2 ^ 31) : ∃ r, Chain params crypto blocks r.1 r.2 ∧ r.1.nHeight = blocks.length ∧ P r := by
  obtain ⟨r, hr, hP⟩ := h.exists_ok
  have hc := Chain.of_connectBlocks hr (by rwa [List.length_map])
  rw [List.map_map, List.length_map] at hc
  exact ⟨r, (List.map_id blocks) ▸ hc.1, hc.2, hP⟩

end Sample

set_option maxRecDepth 10000 in
/-- Two nodes that are registered one after the other. -/
theorem list_indexes_are_exact_sample : ∃ (pindex : CBlockIndex) (l : CDeterministicPNList Bytes),
    Chain Sample.params Sample.crypto [Sample.laterBlock, Sample.registerBlock] pindex l ∧ l.mnMap.size = 2 ∧
    (∀ (id : Nat) (h : uint256), l.mnInternalIdMap[id]? = some h ↔
      ∃ dmn : CDeterministicPN, l.mnMap[h]? = some dmn ∧ dmn.internalId = id) ∧
    ∀ (h h' : uint256) (a b : CDeterministicPN), l.mnMap[h]? = some a → l.mnMap[h']? = some b → h ≠ h' →
      SharesNothing a b := by
  obtain ⟨r, hc, -, hsize⟩ := Sample.exists_chain [Sample.laterBlock, Sample.registerBlock]
    (P := fun r => r.2.mnMap.size = 2) (by decide +kernel) (by decide)
  obtain ⟨hids, -, -, hshares⟩ := list_indexes_are_exact (fun _ _ h => h) hc
  exact ⟨r.1, r.2, hc, hsize, hids, hshares⟩

end TrumpCoin
