import Mathlib.Algebra.Order.Group.Multiset
import Mathlib.Tactic.Abel
import TrumpCoin.Evo.PNList

/-!
# The representation invariant of a patriotnode list

A list is meant to be a finite map from `proTxHash` to nodes; its other two maps are indexes of that map.
`RepInv` says so: the id map is the inverse of `internalId` and the property map represents (in the sense of
`OwnerIndex.Represents`) the digests of every node's non-null properties.

* `RepInv.ext`: well-formed lists with the same nodes and header are equal, so the indexes carry no state;
* `addPN_outcome`, `updatePN_outcome`, `removePN_outcome`: when an update returns, and that it then does to the node map
  what its name says and keeps the invariant.
-/

namespace TrumpCoin

open Lib OwnerIndex

variable {D : Type} [Digest D]

/-! ## What a node holds -/

namespace UniqueProperty

def digest (D : Type) [Digest D] (v : UniqueProperty) : Multiset D := if v.IsNull then 0 else {v.hash D}

@[simp] theorem isNull_outpoint {o : COutPoint} : IsNull (.outpoint o) ↔ o = COutPoint.null := by
  simp [IsNull, nullValue]

@[simp] theorem isNull_service {a : CService} : IsNull (.service a) ↔ a = CService.null := by
  simp [IsNull, nullValue]

@[simp] theorem isNull_keyID {k : CKeyID} : IsNull (.keyID k) ↔ k = 0 := by simp [IsNull, nullValue]

variable {v : UniqueProperty}

theorem digest_of_isNull (h : v.IsNull) : v.digest D = 0 := if_pos h

theorem digest_of_not_isNull (h : ¬v.IsNull) : v.digest D = {v.hash D} := if_neg h

theorem mem_digest {d : D} : d ∈ v.digest D ↔ ¬v.IsNull ∧ d = v.hash D := by
  unfold digest
  split <;> simp_all

def width : UniqueProperty → Nat
  | .outpoint _ => 36
  | .service _ => 18
  | .keyID _ => 20

theorem length_bytes (v : UniqueProperty) : v.bytes.length = v.width := by
  cases v with
  | outpoint o =>
    show ((blob 32).write o.hash ++ (uintLE 4).write o.n).length = 36
    rw [List.length_append, length_write_blob, length_write_uintLE]
  | service a =>
    show ((blob 16).write a.ip ++ (blob 2).write a.port).length = 18
    rw [List.length_append, length_write_blob, length_write_blob]
  | keyID k => exact length_write_blob 20 k

/-- The serializations of distinct properties differ: values of one kind by the format, values of two kinds by
their length. -/
theorem bytes_injective : Function.Injective bytes := by
  intro v w h
  have hl := (length_bytes v).symm.trans ((congrArg List.length h).trans (length_bytes w))
  cases v with
  | outpoint a =>
    cases w with
    | outpoint b => exact congrArg _ (COutPoint.codec.write_injective ⟨trivial, trivial⟩ ⟨trivial, trivial⟩ h)
    | service _ | keyID _ => cases hl
  | service a =>
    cases w with
    | outpoint _ | keyID _ => cases hl
    | service b => exact congrArg _ (CService.codec.write_injective ⟨trivial, trivial⟩ ⟨trivial, trivial⟩ h)
  | keyID a =>
    cases w with
    | outpoint _ | service _ => cases hl
    | keyID b => exact congrArg _ (TrumpCoin.keyID.write_injective trivial trivial h)

end UniqueProperty

namespace CDeterministicPN

def properties (dmn : CDeterministicPN) : List UniqueProperty :=
  [.outpoint dmn.collateralOutpoint, .service dmn.pdmnState.addr, .keyID dmn.pdmnState.keyIDOwner,
    .keyID dmn.pdmnState.keyIDOperator]

/-- The digests a node occupies, with multiplicity. -/
def holdings (D : Type) [Digest D] (dmn : CDeterministicPN) : Multiset D :=
  UniqueProperty.digest D (.outpoint dmn.collateralOutpoint) + UniqueProperty.digest D (.service dmn.pdmnState.addr) +
    UniqueProperty.digest D (.keyID dmn.pdmnState.keyIDOwner) +
    UniqueProperty.digest D (.keyID dmn.pdmnState.keyIDOperator)

theorem mem_holdings {dmn : CDeterministicPN} {d : D} :
    d ∈ dmn.holdings D ↔ ∃ v ∈ dmn.properties, ¬v.IsNull ∧ d = v.hash D := by
  simp only [holdings, Multiset.mem_add, UniqueProperty.mem_digest, properties, List.mem_cons, List.not_mem_nil,
    or_false, exists_eq_or_imp, exists_eq_left, or_assoc]

end CDeterministicPN

def MnMap.holdings (D : Type) [Digest D] (m : MnMap) (h : uint256) : Multiset D :=
  match m[h]? with
  | none => 0
  | some dmn => dmn.holdings D

namespace MnMap

variable {m : MnMap} {h : uint256} {dmn : CDeterministicPN}

theorem holdings_of_get (hm : m[h]? = some dmn) : holdings D m h = dmn.holdings D := by rw [holdings, hm]

theorem holdings_of_get_none (hm : m[h]? = none) : holdings D m h = 0 := by rw [holdings, hm]

theorem mem_holdings {d : D} : d ∈ holdings D m h ↔ ∃ dmn, m[h]? = some dmn ∧ d ∈ dmn.holdings D := by
  cases hm : m[h]? with
  | none => rw [holdings_of_get_none hm]; simp
  | some dmn => rw [holdings_of_get hm]; simp

/-- Only the holdings of the inserted node change. -/
theorem holdings_insert (m : MnMap) (dmn : CDeterministicPN) (h : uint256) :
    holdings D (m.insert h dmn) = Function.update (holdings D m) h (dmn.holdings D) := by
  funext a
  by_cases ha : a = h
  · subst ha; rw [Function.update_self, holdings_of_get (FinMap.get_insert_self m a dmn)]
  · rw [Function.update_of_ne ha, holdings, holdings, FinMap.get_insert_ne m dmn (Ne.symm ha)]

theorem holdings_erase (m : MnMap) (h : uint256) : holdings D (m.erase h) = Function.update (holdings D m) h 0 := by
  funext a
  by_cases ha : a = h
  · subst ha; rw [Function.update_self, holdings_of_get_none (FinMap.get_erase_self m a)]
  · rw [Function.update_of_ne ha, holdings, holdings, FinMap.get_erase_ne m (Ne.symm ha)]

end MnMap

/-! ## The property map while one node is being changed -/

section Holding

variable {m m' : MnUniquePropertyMap D} {own : uint256 → Multiset D} {dmn : CDeterministicPN}
  {v old new : UniqueProperty} {t : Multiset D}

variable (m own) in
/-- The property map represents `own`, except that node `h` holds `t`. -/
def Holding (h : uint256) (t : Multiset D) : Prop :=
  Represents m (Function.update own h t)

/-- Some node other than `h` holds the digest of `v`. -/
def HeldByOther (own : uint256 → Multiset D) (h : uint256) (v : UniqueProperty) : Prop :=
  ∃ o, o ≠ h ∧ v.hash D ∈ own o

theorem Holding.of_eq {h : uint256} {s : Multiset D} (H : Holding m own h t) (he : t = s) : Holding m own h s := he ▸ H

/-- A digest that no other node holds is listed for the node itself or not at all. -/
theorem Holding.owner_of_get {h : uint256} (H : Holding m own h t) (hv : ¬HeldByOther own h v) {e : uint256 × Nat}
    (he : m[v.hash D]? = some e) : e.1 = h := by
  by_contra hne
  have hmem := Represents.mem_of_get H (o := e.1) (c := e.2) he
  rw [Function.update_of_ne hne] at hmem
  exact hv ⟨e.1, hne, hmem⟩

/-- `AddUniqueProperty` fails exactly for a null value or one of another node, and adds one to its count otherwise. -/
theorem addUniqueProperty_outcome (H : Holding m own dmn.proTxHash t) :
    Outcome (addUniqueProperty dmn v m)
      (fun m' => ¬v.IsNull ∧ ¬HeldByOther own dmn.proTxHash v ∧ Holding m' own dmn.proTxHash (t + v.digest D))
      (fun _ => v.IsNull ∨ HeldByOther own dmn.proTxHash v) := by
  unfold addUniqueProperty
  refine Outcome.bind (P := fun _ => ¬v.IsNull) (Outcome.require fun h => .inl (not_not.mp h)) fun _ _ hnull => ?_
  refine Outcome.bind (P := fun _ => ∀ e ∈ m[v.hash D]?, e.1 = dmn.proTxHash) (Outcome.require fun h => ?_)
    fun _ _ hfree => ?_
  · by_contra hcon
    rw [not_or] at hcon
    exact h fun e he => H.owner_of_get hcon.2 he
  · refine outcome_pure.mpr ⟨hnull, ?_, ?_⟩
    · rintro ⟨o, hne, hmem⟩
      rw [← Function.update_of_ne hne t own] at hmem
      exact hne (hfree _ (Represents.get_of_mem H hmem))
    have := Represents.acquire H hfree
    rw [Function.update_self, Function.update_idem] at this
    rw [Holding, UniqueProperty.digest_of_not_isNull hnull, Multiset.add_comm, Multiset.singleton_add]
    unfold OwnerIndex.acquire at this
    cases hget : m[v.hash D]? <;> simpa only [hget] using this

/-- `DeleteUniqueProperty` of a property the node holds fails only for a null value. -/
theorem deleteUniqueProperty_outcome (H : Holding m own dmn.proTxHash (t + v.digest D)) :
    Outcome (deleteUniqueProperty dmn v m)
      (fun m' => ¬v.IsNull ∧ Holding m' own dmn.proTxHash t) (fun _ => v.IsNull) := by
  unfold deleteUniqueProperty
  refine Outcome.bind (P := fun _ => ¬v.IsNull) (Outcome.require fun h => not_not.mp h) fun _ _ hnull => ?_
  have hmem : v.hash D ∈ Function.update own dmn.proTxHash (t + v.digest D) dmn.proTxHash := by
    rw [Function.update_self, UniqueProperty.digest_of_not_isNull hnull]; simp
  have hget := Represents.get_of_mem H hmem
  have hrel := Represents.release H hget
  rw [Function.update_self, Function.update_idem, UniqueProperty.digest_of_not_isNull hnull, Multiset.add_comm,
    Multiset.singleton_add, Multiset.erase_cons_head] at hrel
  simp only [hget]
  refine Outcome.bind (P := fun _ => True) (by simp [Lib.require]) fun _ _ _ => outcome_pure.mpr ⟨hnull, ?_⟩
  simpa only [Holding, OwnerIndex.release, hget] using hrel

/-- `UpdateUniqueProperty` gives the old value up before it takes the new one. -/
theorem updateUniqueProperty_outcome (H : Holding m own dmn.proTxHash (t + old.digest D)) :
    Outcome (updateUniqueProperty dmn old new m) (fun m' => Holding m' own dmn.proTxHash (t + new.digest D))
      (fun _ => old ≠ new ∧ HeldByOther own dmn.proTxHash new) := by
  unfold updateUniqueProperty
  split
  · rename_i heq; subst heq; exact H
  · rename_i hne
    refine Outcome.bind (P := fun m' => Holding m' own dmn.proTxHash t) ?_ fun m₁ _ H₁ => ?_
    · split_ifs with hnull
      · rwa [UniqueProperty.digest_of_isNull hnull, Multiset.add_zero] at H
      · exact (deleteUniqueProperty_outcome H).mono (fun _ h => h.2) fun _ h => absurd h hnull
    · split_ifs with hnull
      · rw [UniqueProperty.digest_of_isNull hnull, Multiset.add_zero]
        exact H₁
      · exact (addUniqueProperty_outcome H₁).mono (fun _ h => h.2.2) fun _ h => ⟨hne, h.resolve_left hnull⟩

end Holding

/-! ## The invariant -/

/-- What holds of every node of a list: it was given an id, a collateral and an owner key. -/
structure NodeInv (dmn : CDeterministicPN) : Prop where
  id_ne : dmn.internalId ≠ 2 ^ 64 - 1
  collateral_ne : dmn.collateralOutpoint ≠ COutPoint.null
  owner_ne : dmn.pdmnState.keyIDOwner ≠ 0

/-- The id map and the property map index the node map. -/
structure RepInv (l : CDeterministicPNList D) : Prop where
  key : ∀ (h : uint256) (dmn : CDeterministicPN), l.mnMap[h]? = some dmn → dmn.proTxHash = h
  node : ∀ (h : uint256) (dmn : CDeterministicPN), l.mnMap[h]? = some dmn → NodeInv dmn
  ids : ∀ (id : Nat) (h : uint256), l.mnInternalIdMap[id]? = some h ↔
    ∃ dmn : CDeterministicPN, l.mnMap[h]? = some dmn ∧ dmn.internalId = id
  props : Represents l.mnUniquePropertyMap (MnMap.holdings D l.mnMap)

/-- `l'` is a well-formed list with nodes `m` and counter `c`, and the block of `l`. -/
structure Becomes (l l' : CDeterministicPNList D) (m : MnMap) (c : Nat) : Prop where
  rep : RepInv l'
  mnMap : l'.mnMap = m
  count : l'.nTotalRegisteredCount = c
  blockHash : l'.blockHash = l.blockHash
  nHeight : l'.nHeight = l.nHeight

namespace RepInv

variable {l l' : CDeterministicPNList D} {h h' : uint256} {dmn dmn' : CDeterministicPN} {v : UniqueProperty}

theorem init (blockHash : uint256) (nHeight : Int) (c : Nat) :
    RepInv (⟨blockHash, nHeight, c, ∅, ∅, ∅⟩ : CDeterministicPNList D) where
  key := FinMap.forall_empty
  node := FinMap.forall_empty
  ids id h := by simp
  props := Represents.empty.congr fun h => (MnMap.holdings_of_get_none (FinMap.get_empty h)).symm

variable (hl : RepInv l)
include hl

/-- The nodes and the header determine a list: its indexes carry no state. -/
theorem ext (hl' : RepInv l') (hmap : l.mnMap = l'.mnMap)
    (hcount : l.nTotalRegisteredCount = l'.nTotalRegisteredCount) (hhash : l.blockHash = l'.blockHash)
    (hheight : l.nHeight = l'.nHeight) : l = l' := by
  have hids : l.mnInternalIdMap = l'.mnInternalIdMap := FinMap.ext_get fun id => Option.ext fun h => by
    rw [hl.ids, hl'.ids, hmap]
  have hprops : l.mnUniquePropertyMap = l'.mnUniquePropertyMap := hl.props.unique (hmap ▸ hl'.props)
  cases l; cases l'
  simp_all

/-- A property is free exactly if no node holds its digest. -/
theorem hasUniqueProperty_eq_false : l.hasUniqueProperty v = false ↔ ∀ h, v.hash D ∉ MnMap.holdings D l.mnMap h := by
  rw [CDeterministicPNList.hasUniqueProperty, ← hl.props.get_eq_none, Option.isSome_eq_false_iff,
    Option.isNone_iff_eq_none]

theorem get_of_hasUniqueProperty (hv : l.hasUniqueProperty v = true) :
    ∃ (h : uint256) (dmn : CDeterministicPN), l.mnMap[h]? = some dmn ∧ v.hash D ∈ dmn.holdings D ∧
      l.getUniquePropertyPN v = some dmn := by
  obtain ⟨⟨h, c⟩, hget⟩ := Option.isSome_iff_exists.mp hv
  obtain ⟨dmn, hm, hmem⟩ := MnMap.mem_holdings.mp (hl.props.mem_of_get hget)
  exact ⟨h, dmn, hm, hmem, by simp only [CDeterministicPNList.getUniquePropertyPN, hget]; exact hm⟩

theorem get_of_getUniquePropertyPN (hv : l.getUniquePropertyPN v = some dmn) :
    l.mnMap[dmn.proTxHash]? = some dmn := by
  unfold CDeterministicPNList.getUniquePropertyPN at hv
  split at hv
  · cases hv
  · rw [hl.key _ _ hv]; exact hv

/-- The checks of a transaction ask whether another node holds the property. -/
theorem usedByOther_eq (v : UniqueProperty) (h : uint256)
    [Decidable (HeldByOther (MnMap.holdings D l.mnMap) h v)] :
    l.usedByOther v h = .ok (decide (HeldByOther (MnMap.holdings D l.mnMap) h v)) := by
  unfold CDeterministicPNList.usedByOther
  cases hv : l.hasUniqueProperty v with
  | false =>
    have := hl.hasUniqueProperty_eq_false.mp hv
    rw [if_neg (by simp), decide_eq_false fun ⟨o, _, ho⟩ => this o ho]
    rfl
  | true =>
    obtain ⟨o, dmn, hm, hmem, hget⟩ := hl.get_of_hasUniqueProperty hv
    have howner : v.hash D ∈ MnMap.holdings D l.mnMap o := by rwa [MnMap.holdings_of_get hm]
    rw [if_pos rfl]
    simp only [hget, hl.key o dmn hm]
    refine congrArg Except.ok (decide_eq_decide.mpr ⟨fun hne => ⟨o, hne, howner⟩, ?_⟩)
    rintro ⟨o', hne, hmem'⟩ rfl
    exact hne (hl.props.owner_unique hmem' howner)

theorem holding (hm : l.mnMap[dmn.proTxHash]? = some dmn) :
    Holding l.mnUniquePropertyMap (MnMap.holdings D l.mnMap) dmn.proTxHash (dmn.holdings D) := by
  rw [Holding, ← MnMap.holdings_of_get hm, Function.update_eq_self]
  exact hl.props

theorem getPNByInternalId (hm : l.mnMap[h]? = some dmn) : l.getPNByInternalId dmn.internalId = some dmn := by
  simp only [CDeterministicPNList.getPNByInternalId, (hl.ids dmn.internalId h).mpr ⟨dmn, hm, rfl⟩,
    CDeterministicPNList.getPN, hm]

/-- No two nodes have the same id. -/
theorem id_injective (hm : l.mnMap[h]? = some dmn) (hm' : l.mnMap[h']? = some dmn')
    (hid : dmn.internalId = dmn'.internalId) : h = h' := by
  have h1 := (hl.ids dmn.internalId h).mpr ⟨dmn, hm, rfl⟩
  have h2 := (hl.ids dmn.internalId h').mpr ⟨dmn', hm', hid.symm⟩
  exact Option.some.inj (h1.symm.trans h2)

end RepInv

/-! ## Adding a node -/

/-- `AddPN` can add `dmn` to `l`. -/
structure Addable (l : CDeterministicPNList D) (dmn : CDeterministicPN) : Prop where
  hash_free : l.mnMap[dmn.proTxHash]? = none
  id_free : l.mnInternalIdMap[dmn.internalId]? = none
  node : NodeInv dmn
  operator_ne : dmn.pdmnState.keyIDOperator ≠ 0
  props_free : ∀ v ∈ dmn.properties, l.hasUniqueProperty v = false

section Updates

variable {l l' : CDeterministicPNList D} {h : uint256} {dmn old : CDeterministicPN} {st : CDeterministicPNState}
  {b : Bool}

theorem getInternalId_outcome (dmn : CDeterministicPN) :
    Outcome dmn.getInternalId (fun id => id = dmn.internalId ∧ dmn.internalId ≠ 2 ^ 64 - 1)
      (fun _ => dmn.internalId = 2 ^ 64 - 1) := by
  unfold CDeterministicPN.getInternalId
  exact Outcome.bind (P := fun _ => dmn.internalId ≠ 2 ^ 64 - 1) (Outcome.require fun h => not_not.mp h)
    fun _ _ hne => ⟨rfl, hne⟩

theorem addAddress_outcome {m : MnUniquePropertyMap D} {own : uint256 → Multiset D} {t : Multiset D}
    (H : Holding m own dmn.proTxHash t) :
    Outcome (if dmn.pdmnState.addr = CService.null then pure m
        else addUniqueProperty dmn (.service dmn.pdmnState.addr) m : Result (MnUniquePropertyMap D))
      (fun m' => Holding m' own dmn.proTxHash (t + UniqueProperty.digest D (.service dmn.pdmnState.addr)))
      (fun _ => HeldByOther own dmn.proTxHash (.service dmn.pdmnState.addr)) := by
  split_ifs with hnull
  · rw [UniqueProperty.digest_of_isNull (UniqueProperty.isNull_service.mpr hnull), Multiset.add_zero]
    exact H
  · exact (addUniqueProperty_outcome H).mono (fun _ h => h.2.2)
      fun _ h => h.resolve_left (fun hn => hnull (UniqueProperty.isNull_service.mp hn))

variable {l₁ : CDeterministicPNList D}

/-- A new node with a free hash, a free id and its properties keeps the invariant. -/
theorem RepInv.insert (hl : RepInv l) (hfree : l.mnMap[dmn.proTxHash]? = none)
    (hidfree : l.mnInternalIdMap[dmn.internalId]? = none) (hnode : NodeInv dmn)
    (hmap : l₁.mnMap = l.mnMap.insert dmn.proTxHash dmn)
    (hids : l₁.mnInternalIdMap = l.mnInternalIdMap.insert dmn.internalId dmn.proTxHash)
    (hprops : Holding l₁.mnUniquePropertyMap (MnMap.holdings D l.mnMap) dmn.proTxHash (dmn.holdings D)) :
    RepInv l₁ where
  key := by
    rw [hmap]
    exact FinMap.forall_insert hl.key rfl
  node := by
    rw [hmap]
    exact FinMap.forall_insert hl.node hnode
  ids id a := by
    rw [hids, hmap, FinMap.get_insert, FinMap.get_insert]
    by_cases ha : dmn.proTxHash = a
    · subst ha
      simp only [if_true, Option.some.injEq, exists_eq_left']
      by_cases hid : dmn.internalId = id
      · simp [hid]
      · simp only [hid, if_false, iff_false]
        intro hget
        obtain ⟨p, hp, -⟩ := (hl.ids id _).mp hget
        rw [hfree] at hp
        cases hp
    · rw [if_neg ha]
      by_cases hid : dmn.internalId = id
      · subst hid
        simp only [if_true, Option.some.injEq, ha, false_iff]
        rintro ⟨p, hp, hpid⟩
        rw [(hl.ids _ a).mpr ⟨p, hp, hpid⟩] at hidfree
        cases hidfree
      · rw [if_neg hid]; exact hl.ids id a
  props := by rw [hmap, MnMap.holdings_insert]; exact hprops

/-- `AddPN` returns exactly if the node can be added. -/
theorem addPN_outcome (hl : RepInv l) :
    Outcome (l.addPN dmn b)
      (fun l' => Addable l dmn ∧ Becomes l l' (l.mnMap.insert dmn.proTxHash dmn)
        (if b then max (dmn.internalId + 1) l.nTotalRegisteredCount % 2 ^ 32 else l.nTotalRegisteredCount))
      (fun _ => ¬Addable l dmn) := by
  unfold CDeterministicPNList.addPN
  -- the four checks that throw
  refine Outcome.bind (P := fun _ => l.mnMap[dmn.proTxHash]? = none)
    (Outcome.require fun h ha => h ha.hash_free) fun _ _ hfree => ?_
  refine Outcome.bind ((getInternalId_outcome dmn).mono (fun _ h => h) fun _ h ha => ha.node.id_ne h)
    fun id _ hid => ?_
  obtain ⟨rfl, hidne⟩ := hid
  refine Outcome.bind (P := fun _ => l.mnInternalIdMap[dmn.internalId]? = none)
    (Outcome.require fun h ha => h ha.id_free) fun _ _ hidfree => ?_
  refine Outcome.bind (P := fun _ => l.hasUniqueProperty (.service dmn.pdmnState.addr) = false)
    (Outcome.require fun h ha => h (ha.props_free _ (by simp [CDeterministicPN.properties])))
    fun _ _ haddr => ?_
  refine Outcome.bind (P := fun _ => l.hasUniqueProperty (.keyID dmn.pdmnState.keyIDOwner) = false ∧
      l.hasUniqueProperty (.keyID dmn.pdmnState.keyIDOperator) = false)
    (Outcome.require fun h ha => h ⟨ha.props_free _ (by simp [CDeterministicPN.properties]),
      ha.props_free _ (by simp [CDeterministicPN.properties])⟩) fun _ _ hkeys => ?_
  -- the four properties, from a node that holds nothing yet
  have H₀ : Holding l.mnUniquePropertyMap (MnMap.holdings D l.mnMap) dmn.proTxHash 0 := by
    have hzero : (0 : Multiset D) = MnMap.holdings D l.mnMap dmn.proTxHash := (MnMap.holdings_of_get_none hfree).symm
    rw [Holding, hzero, Function.update_eq_self]
    exact hl.props
  have hnotheld : ∀ v, l.hasUniqueProperty v = false → ¬HeldByOther (MnMap.holdings D l.mnMap) dmn.proTxHash v :=
    fun v hv ⟨o, _, ho⟩ => hl.hasUniqueProperty_eq_false.mp hv o ho
  refine Outcome.bind ((addUniqueProperty_outcome H₀).mono (fun _ h => h) fun _ h ha => h.elim
      (fun hn => ha.node.collateral_ne (UniqueProperty.isNull_outpoint.mp hn))
      (hnotheld _ (ha.props_free _ (by simp [CDeterministicPN.properties])))) fun m₁ _ h₁ => ?_
  obtain ⟨hcoll, hcollfree, H₁⟩ := h₁
  refine Outcome.bind ((addAddress_outcome H₁).mono (fun _ h => h) fun _ h => (hnotheld _ haddr h).elim)
    fun m₂ _ H₂ => ?_
  refine Outcome.bind ((addUniqueProperty_outcome H₂).mono (fun _ h => h) fun _ h ha => h.elim
      (fun hn => ha.node.owner_ne (UniqueProperty.isNull_keyID.mp hn)) (hnotheld _ hkeys.1)) fun m₃ _ h₃ => ?_
  obtain ⟨howner, -, H₃⟩ := h₃
  refine Outcome.bind ((addUniqueProperty_outcome H₃).mono (fun _ h => h) fun _ h ha => h.elim
      (fun hn => ha.operator_ne (UniqueProperty.isNull_keyID.mp hn)) (hnotheld _ hkeys.2)) fun m₄ _ h₄ => ?_
  obtain ⟨hoperator, -, H₄⟩ := h₄
  rw [UniqueProperty.isNull_outpoint] at hcoll
  rw [UniqueProperty.isNull_keyID] at howner hoperator
  have hnode : NodeInv dmn := ⟨hidne, hcoll, howner⟩
  have hcollfree' : l.hasUniqueProperty (.outpoint dmn.collateralOutpoint) = false := by
    rw [hl.hasUniqueProperty_eq_false]
    intro o ho
    by_cases heq : o = dmn.proTxHash
    · rw [heq, MnMap.holdings_of_get_none hfree] at ho; exact absurd ho (Multiset.notMem_zero _)
    · exact hcollfree ⟨o, heq, ho⟩
  refine outcome_pure.mpr ⟨⟨hfree, hidfree, hnode, hoperator, ?_⟩, ?_⟩
  · simp only [CDeterministicPN.properties, List.forall_mem_cons, List.not_mem_nil, false_imp_iff, implies_true,
      and_true]
    exact ⟨hcollfree', haddr, hkeys.1, hkeys.2⟩
  · rw [Multiset.zero_add] at H₄
    exact ⟨hl.insert hfree hidfree hnode rfl rfl H₄, rfl, rfl, rfl, rfl⟩

/-! ## Updating a node -/

/-- A new state of a listed node keeps the invariant, as its hash, id and collateral stay. -/
theorem RepInv.replace (hl : RepInv l) (hold : l.mnMap[old.proTxHash]? = some old) (howner : st.keyIDOwner ≠ 0)
    (hmap : l₁.mnMap = l.mnMap.insert old.proTxHash { old with pdmnState := st })
    (hids : l₁.mnInternalIdMap = l.mnInternalIdMap)
    (hprops : Holding l₁.mnUniquePropertyMap (MnMap.holdings D l.mnMap) old.proTxHash
      (({ old with pdmnState := st } : CDeterministicPN).holdings D)) : RepInv l₁ where
  key := by
    rw [hmap]
    exact FinMap.forall_insert hl.key rfl
  node := by
    have := hl.node _ _ hold
    rw [hmap]
    exact FinMap.forall_insert hl.node ⟨this.id_ne, this.collateral_ne, howner⟩
  ids id a := by
    rw [hids, hmap, FinMap.get_insert, hl.ids]
    split
    · subst a
      rw [hold]
      simp
    · rfl
  props := by rw [hmap, MnMap.holdings_insert]; exact hprops

variable (l old st) in
/-- What keeps `UpdatePN` from replacing the state of `old` by `st`: the old address is listed for another
node, or a new value is. -/
def Blocked : Prop :=
  let taken := HeldByOther (MnMap.holdings D l.mnMap) old.proTxHash
  taken (.service old.pdmnState.addr) ∨
    old.pdmnState.addr ≠ st.addr ∧ taken (.service st.addr) ∨
    old.pdmnState.keyIDOwner ≠ st.keyIDOwner ∧ taken (.keyID st.keyIDOwner) ∨
    old.pdmnState.keyIDOperator ≠ st.keyIDOperator ∧ taken (.keyID st.keyIDOperator)

/-- `UpdatePN` fails only if a property is listed for another node. -/
theorem updatePN_outcome (hl : RepInv l) (hold : l.mnMap[old.proTxHash]? = some old) (howner : st.keyIDOwner ≠ 0) :
    Outcome (l.updatePN old st)
      (fun l' => Becomes l l' (l.mnMap.insert old.proTxHash { old with pdmnState := st }) l.nTotalRegisteredCount)
      (fun _ => Blocked l old st) := by
  classical
  unfold CDeterministicPNList.updatePN
  refine Outcome.bind (P := fun b => b = decide (HeldByOther (MnMap.holdings D l.mnMap) old.proTxHash
    (.service old.pdmnState.addr))) (by rw [hl.usedByOther_eq]; rfl) fun taken _ htaken => ?_
  refine Outcome.bind (P := fun _ => True) (Outcome.of_forall (fun _ _ => trivial) fun e he => ?_) fun _ _ _ => ?_
  · refine .inl (of_decide_eq_true ?_)
    rw [← htaken]
    by_contra hfalse
    rw [Bool.not_eq_true] at hfalse
    rw [Lib.require, if_pos hfalse] at he
    cases he
  let d := UniqueProperty.digest D
  refine Outcome.bind ((updateUniqueProperty_outcome ((hl.holding hold).of_eq (s := d (.outpoint old.collateralOutpoint) +
    d (.keyID old.pdmnState.keyIDOwner) + d (.keyID old.pdmnState.keyIDOperator) + d (.service old.pdmnState.addr))
    (by rw [CDeterministicPN.holdings]; abel))).mono (fun _ h => h)
    fun _ h => .inr (.inl ⟨fun he => h.1 (he ▸ rfl), h.2⟩)) fun m₂ _ H₂ => ?_
  refine Outcome.bind ((updateUniqueProperty_outcome (H₂.of_eq (s := d (.outpoint old.collateralOutpoint) +
    d (.keyID old.pdmnState.keyIDOperator) + d (.service st.addr) + d (.keyID old.pdmnState.keyIDOwner))
    (by abel))).mono (fun _ h => h) fun _ h => .inr (.inr (.inl ⟨fun he => h.1 (he ▸ rfl), h.2⟩))) fun m₃ _ H₃ => ?_
  refine Outcome.bind ((updateUniqueProperty_outcome (H₃.of_eq (s := d (.outpoint old.collateralOutpoint) +
    d (.service st.addr) + d (.keyID st.keyIDOwner) + d (.keyID old.pdmnState.keyIDOperator))
    (by abel))).mono (fun _ h => h) fun _ h => .inr (.inr (.inr ⟨fun he => h.1 (he ▸ rfl), h.2⟩))) fun m₄ _ H₄ => ?_
  exact ⟨hl.replace hold howner rfl rfl H₄, rfl, rfl, rfl, rfl⟩

theorem updatePNByHash_eq (hold : l.mnMap[h]? = some old) : l.updatePNByHash h st = l.updatePN old st := by
  simp only [CDeterministicPNList.updatePNByHash, hold]

/-! ## Removing a node -/

/-- A list without one of its nodes. -/
theorem RepInv.erase (hl : RepInv l) (hm : l.mnMap[h]? = some dmn) (hmap : l₁.mnMap = l.mnMap.erase h)
    (hids : l₁.mnInternalIdMap = l.mnInternalIdMap.erase dmn.internalId)
    (hprops : Holding l₁.mnUniquePropertyMap (MnMap.holdings D l.mnMap) h 0) : RepInv l₁ where
  key := by
    rw [hmap]
    exact FinMap.forall_erase hl.key
  node := by
    rw [hmap]
    exact FinMap.forall_erase hl.node
  ids id a := by
    rw [hids, hmap, FinMap.get_erase, FinMap.get_erase]
    by_cases ha : h = a
    · subst ha
      simp only [if_true, reduceCtorEq, false_and, exists_false, iff_false]
      split_ifs with hid
      · simp
      · intro hget
        obtain ⟨p, hp, hpid⟩ := (hl.ids id h).mp hget
        rw [hm] at hp
        cases hp
        exact hid hpid
    · rw [if_neg ha]
      by_cases hid : dmn.internalId = id
      · subst hid
        simp only [if_true, reduceCtorEq, false_iff]
        rintro ⟨p, hp, hpid⟩
        exact ha (hl.id_injective hm hp hpid.symm)
      · rw [if_neg hid]; exact hl.ids id a
  props := by rw [hmap, MnMap.holdings_erase]; exact hprops

theorem deleteAddress_outcome {m : MnUniquePropertyMap D} {own : uint256 → Multiset D} {t : Multiset D}
    (H : Holding m own dmn.proTxHash (t + UniqueProperty.digest D (.service dmn.pdmnState.addr))) :
    Returns (if dmn.pdmnState.addr = CService.null then pure m
        else deleteUniqueProperty dmn (.service dmn.pdmnState.addr) m : Result (MnUniquePropertyMap D))
      (fun m' => Holding m' own dmn.proTxHash t) := by
  split_ifs with hnull
  · rwa [UniqueProperty.digest_of_isNull (UniqueProperty.isNull_service.mpr hnull), Multiset.add_zero] at H
  · exact (deleteUniqueProperty_outcome H).mono (fun _ h => h.2)
      fun _ h => hnull (UniqueProperty.isNull_service.mp h)

/-- Removing a listed node fails exactly when its operator key is null. -/
theorem removePN_outcome (hl : RepInv l) (hm : l.mnMap[h]? = some dmn) :
    Outcome (l.removePN h)
      (fun l' => dmn.pdmnState.keyIDOperator ≠ 0 ∧ Becomes l l' (l.mnMap.erase h) l.nTotalRegisteredCount)
      (fun _ => dmn.pdmnState.keyIDOperator = 0) := by
  have hkey := hl.key h dmn hm
  have hnode := hl.node h dmn hm
  let d := UniqueProperty.digest D
  have H₀ := (hl.holding (hkey.symm ▸ hm)).of_eq (s := d (.service dmn.pdmnState.addr) +
    d (.keyID dmn.pdmnState.keyIDOwner) + d (.keyID dmn.pdmnState.keyIDOperator) + d (.outpoint dmn.collateralOutpoint))
    (by rw [CDeterministicPN.holdings]; abel)
  unfold CDeterministicPNList.removePN
  rw [show l.getPN h = some dmn from hm]
  refine Outcome.bind ((deleteUniqueProperty_outcome H₀).mono (fun _ h => h.2) fun _ h =>
    (hnode.collateral_ne (UniqueProperty.isNull_outpoint.mp h)).elim) fun m₁ _ H₁ => ?_
  have H₁' := H₁.of_eq (s := d (.keyID dmn.pdmnState.keyIDOwner) + d (.keyID dmn.pdmnState.keyIDOperator) +
    d (.service dmn.pdmnState.addr)) (by abel)
  refine Outcome.bind ((deleteAddress_outcome H₁').mono (fun _ h => h) fun _ h => h.elim) fun m₂ _ H₂ => ?_
  have H₂' := H₂.of_eq (add_comm _ _)
  refine Outcome.bind ((deleteUniqueProperty_outcome H₂').mono (fun _ h => h.2) fun _ h =>
    (hnode.owner_ne (UniqueProperty.isNull_keyID.mp h)).elim) fun m₃ _ H₃ => ?_
  refine Outcome.bind ((deleteUniqueProperty_outcome (H₃.of_eq (zero_add _).symm)).mono (fun _ h => h)
    fun _ h => UniqueProperty.isNull_keyID.mp h) fun m₄ _ h₄ => ?_
  obtain ⟨hoperator, H₄⟩ := h₄
  refine Outcome.bind ((getInternalId_outcome dmn).mono (fun _ h => h) fun _ h => (hnode.id_ne h).elim)
    fun id _ hid => ?_
  obtain ⟨rfl, -⟩ := hid
  rw [hkey] at H₄
  exact ⟨fun hz => hoperator (UniqueProperty.isNull_keyID.mpr hz), hl.erase hm rfl rfl H₄, rfl, rfl, rfl, rfl⟩

end Updates

/-! ## Lookups by property

With a collision-free hash the property map answers for the properties themselves. -/

variable {dmn : CDeterministicPN}

theorem outpoint_mem_properties {o : COutPoint} : .outpoint o ∈ dmn.properties ↔ dmn.collateralOutpoint = o := by
  simp [CDeterministicPN.properties, eq_comm]

theorem service_mem_properties {a : CService} : .service a ∈ dmn.properties ↔ dmn.pdmnState.addr = a := by
  simp [CDeterministicPN.properties, eq_comm]

theorem keyID_mem_properties {k : CKeyID} :
    .keyID k ∈ dmn.properties ↔ dmn.pdmnState.keyIDOwner = k ∨ dmn.pdmnState.keyIDOperator = k := by
  simp [CDeterministicPN.properties, eq_comm]

section Lookup

variable {l : CDeterministicPNList D} {m : MnMap} {h h' : uint256} {dmn dmn' : CDeterministicPN}
  {v : UniqueProperty} {o : COutPoint}
  (hinj : CollisionFree D)
include hinj

/-- The digests a node holds are those of its properties that are not null. -/
theorem hash_mem_holdings : v.hash D ∈ dmn.holdings D ↔ v ∈ dmn.properties ∧ ¬v.IsNull := by
  rw [CDeterministicPN.mem_holdings]
  constructor
  · rintro ⟨w, hw, hnull, he⟩
    obtain rfl := (hinj.comp UniqueProperty.bytes_injective) he
    exact ⟨hw, hnull⟩
  · rintro ⟨hv, hnull⟩
    exact ⟨v, hv, hnull, rfl⟩

theorem heldByOther_iff : HeldByOther (MnMap.holdings D m) h v ↔
    ∃ (o : uint256) (dmn : CDeterministicPN), o ≠ h ∧ m[o]? = some dmn ∧ v ∈ dmn.properties ∧ ¬v.IsNull := by
  simp only [HeldByOther, MnMap.mem_holdings, hash_mem_holdings hinj]
  simp

theorem mem_holdings_of_mem (hm : m[h]? = some dmn) (hv : v ∈ dmn.properties) (hnull : ¬v.IsNull) :
    v.hash D ∈ MnMap.holdings D m h := by
  rw [MnMap.holdings_of_get hm]
  exact (hash_mem_holdings hinj).mpr ⟨hv, hnull⟩

variable (hl : RepInv l)
include hl

/-- The property map answers for the properties themselves. -/
theorem RepInv.hasUniqueProperty_iff : l.hasUniqueProperty v = true ↔
    ∃ (o : uint256) (dmn : CDeterministicPN), l.mnMap[o]? = some dmn ∧ v ∈ dmn.properties ∧ ¬v.IsNull := by
  rw [← not_iff_not, Bool.not_eq_true, hl.hasUniqueProperty_eq_false]
  simp only [MnMap.mem_holdings, hash_mem_holdings hinj, not_exists, not_and, not_not]

/-- Two nodes share no property. -/
theorem RepInv.property_owner (hm : l.mnMap[h]? = some dmn) (hm' : l.mnMap[h']? = some dmn')
    (hv : v ∈ dmn.properties) (hv' : v ∈ dmn'.properties) (hnull : ¬v.IsNull) : h = h' :=
  hl.props.owner_unique (mem_holdings_of_mem hinj hm hv hnull) (mem_holdings_of_mem hinj hm' hv' hnull)

theorem RepInv.collateral_injective (hm : l.mnMap[h]? = some dmn)
    (hm' : l.mnMap[h']? = some dmn') (he : dmn.collateralOutpoint = dmn'.collateralOutpoint) : h = h' :=
  hl.property_owner hinj hm hm' (outpoint_mem_properties.mpr rfl) (outpoint_mem_properties.mpr he.symm)
    fun hn => (hl.node h dmn hm).collateral_ne (UniqueProperty.isNull_outpoint.mp hn)

theorem RepInv.getUniquePropertyPN_of_mem (hm : l.mnMap[h]? = some dmn) (hv : v ∈ dmn.properties)
    (hnull : ¬v.IsNull) : l.getUniquePropertyPN v = some dmn := by
  have hmem := mem_holdings_of_mem hinj hm hv hnull
  simp only [CDeterministicPNList.getUniquePropertyPN, hl.props.get_of_mem hmem, CDeterministicPNList.getPN, hm]

theorem RepInv.mem_of_getUniquePropertyPN (hv : l.getUniquePropertyPN v = some dmn) :
    l.mnMap[dmn.proTxHash]? = some dmn ∧ v ∈ dmn.properties ∧ ¬v.IsNull := by
  unfold CDeterministicPNList.getUniquePropertyPN at hv
  split at hv
  · cases hv
  · rename_i e he
    have hm : l.mnMap[e.1]? = some dmn := hv
    have hmem := hl.props.mem_of_get (o := e.1) (c := e.2) he
    rw [MnMap.holdings_of_get hm] at hmem
    exact ⟨by rw [hl.key _ _ hm]; exact hm, (hash_mem_holdings hinj).mp hmem⟩

theorem RepInv.getPNByCollateral_iff : l.getPNByCollateral o = some dmn ↔
    l.mnMap[dmn.proTxHash]? = some dmn ∧ dmn.collateralOutpoint = o := by
  constructor
  · intro h
    obtain ⟨hm, hv, -⟩ := hl.mem_of_getUniquePropertyPN hinj h
    exact ⟨hm, outpoint_mem_properties.mp hv⟩
  · rintro ⟨hm, rfl⟩
    exact hl.getUniquePropertyPN_of_mem hinj hm (outpoint_mem_properties.mpr rfl)
      fun hn => (hl.node _ dmn hm).collateral_ne (UniqueProperty.isNull_outpoint.mp hn)

end Lookup

end TrumpCoin
