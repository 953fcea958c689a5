import TrumpCoin.Lib.Cursor
import TrumpCoin.Consensus

/-!
# Database transactions

`dbwrapper.h`: `CDBTransaction` keeps writes and deletes in memory in front of a parent, which is the database or
another transaction, and its iterator merges the staged keys with those of the parent's iterator. `Parent` is what a
transaction asks of what it lies on, so that one definition serves both levels of `CEvoDB`.

`Parent.Presents` says that something that can be read and iterated shows a plain map:

* `CDBWrapper.presents`: the database shows its content;
* `CDBTransaction.presents`: a transaction shows the content below it, overridden by what is staged (`overriding`);
* `CDBTransaction.Sound`: the invariant of the staged entries, kept by `write`, `erase` and `clear`.
-/

namespace TrumpCoin

open Lib

/-! ## Values -/

/-- The types of the values that are written, and their serialization. A value that was written and is read back has the
same serialization; members that are not serialized (`CDeterministicPNListDiff::nHeight`) may differ. -/
structure ValueTypes where
  Ty : Type
  decEq : DecidableEq Ty
  Val : Ty → Type
  serialize : {t : Ty} → Val t → Bytes
  unserialize : (t : Ty) → Bytes → Option (Val t)
  roundTrip : ∀ {t : Ty} (v : Val t), (unserialize t (serialize v)).map serialize = some (serialize v)

instance (T : ValueTypes) : DecidableEq T.Ty := T.decEq

variable {T : ValueTypes}

/-- What a read of a key's content returns, up to serialization. -/
def ValueTypes.content (T : ValueTypes) (t : T.Ty) (stored : Option Bytes) : Option Bytes :=
  (stored.bind (T.unserialize t)).map T.serialize

/-- `CDBTransaction::ValueHolderImpl<V>`, with its type for `dynamic_cast`. -/
structure ValueHolder (T : ValueTypes) where
  ty : T.Ty
  value : T.Val ty
  memoryUsage : Nat

/-- `dynamic_cast<ValueHolderImpl<V>*>` and the read of the value. -/
def ValueHolder.get (holder : ValueHolder T) (t : T.Ty) : Result (T.Val t) :=
  if h : holder.ty = t then .ok (h ▸ holder.value)
  else .error (.exception "Read called with V != previously written type")

/-! ## The database -/

/-- `CDBWrapper`: what the LevelDB database holds. -/
structure CDBWrapper where
  entries : FinMap Bytes Bytes := ∅

/-- `leveldb::Iterator` over a snapshot of the database. -/
structure CDBIterator where
  snapshot : List Bytes
  /-- the keys from the current position on -/
  rest : List Bytes := []

namespace CDBIterator

def next (it : CDBIterator) : Result CDBIterator :=
  match it.rest with
  | [] => .error (.assertFailure "leveldb::Iterator::Next: Valid()")
  | _ :: rest => .ok { it with rest }

/-- The functions that a transaction's iterator calls. -/
def cursor : Cursor Fault Bytes CDBIterator where
  valid it := !it.rest.isEmpty
  key it := it.rest.headD []
  seekToFirst it := .ok { it with rest := it.snapshot }
  seek key it := .ok { it with rest := it.snapshot.dropWhile fun a => compare a key = .lt }
  next := next
  left it := it.rest.length

end CDBIterator

/-- `CDBBatch`: puts and deletions, in order. -/
structure CDBBatch where
  batch : List (Bytes × Option Bytes) := []

namespace CDBBatch

def write (b : CDBBatch) (key : Bytes) {t : T.Ty} (value : T.Val t) : CDBBatch :=
  ⟨b.batch ++ [(key, some (T.serialize value))]⟩

def erase (b : CDBBatch) (key : Bytes) : CDBBatch := ⟨b.batch ++ [(key, none)]⟩

end CDBBatch

def CDBWrapper.apply (db : CDBWrapper) (e : Bytes × Option Bytes) : CDBWrapper :=
  match e.2 with
  | some value => ⟨db.entries.insert e.1 value⟩
  | none => ⟨db.entries.erase e.1⟩

def CDBWrapper.writeBatch (db : CDBWrapper) (b : CDBBatch) : CDBWrapper × Bool := (b.batch.foldl apply db, true)

/-- What a transaction calls of its parent. -/
structure Parent (T : ValueTypes) where
  read : (t : T.Ty) → Bytes → Result (Option (T.Val t))
  contains : Bytes → Bool
  It : Type
  iter : Cursor Fault Bytes It
  newIterator : It

def CDBWrapper.asParent (T : ValueTypes) (db : CDBWrapper) : Parent T where
  read t key := .ok (db.entries[key]?.bind (T.unserialize t))
  contains key := (db.entries[key]?).isSome
  It := CDBIterator
  iter := CDBIterator.cursor
  newIterator := { snapshot := db.entries.toList.map Prod.fst }

/-! ## Transactions -/

/-- `CDBTransaction`: what it stages. The parent and the commit target are arguments of the functions that use them. -/
structure CDBTransaction (T : ValueTypes) where
  memoryUsage : Int := 0
  writes : FinMap Bytes (ValueHolder T) := ∅
  deletes : FinMap Bytes Unit := ∅

/-- What a transaction calls of its commit target. -/
structure CommitTarget (T : ValueTypes) (C : Type) where
  write : C → Bytes → {t : T.Ty} → T.Val t → C
  erase : C → Bytes → C

namespace CDBTransaction

variable (tx : CDBTransaction T)

def write (key : Bytes) {t : T.Ty} (v : T.Val t) : CDBTransaction T :=
  let valueMemoryUsage := (T.serialize v).length
  let undeleted := if (tx.deletes[key]?).isSome then tx.memoryUsage - key.length else tx.memoryUsage
  let replaced :=
    match tx.writes[key]? with
    | some old => undeleted - (key.length + old.memoryUsage)
    | none => undeleted
  { memoryUsage := replaced + (key.length + valueMemoryUsage)
    writes := tx.writes.insert key ⟨t, v, valueMemoryUsage⟩
    deletes := tx.deletes.erase key }

def read (parent : Parent T) (t : T.Ty) (key : Bytes) : Result (Option (T.Val t)) :=
  if (tx.deletes[key]?).isSome then .ok none
  else
    match tx.writes[key]? with
    | some holder => do return some (← holder.get t)
    | none => parent.read t key

/-- `CDBTransaction::Exists`. -/
def contains (parent : Parent T) (key : Bytes) : Bool :=
  if (tx.deletes[key]?).isSome then false
  else if (tx.writes[key]?).isSome then true
  else parent.contains key

def erase (key : Bytes) : CDBTransaction T :=
  let unwritten :=
    match tx.writes[key]? with
    | some old => tx.memoryUsage - (key.length + old.memoryUsage)
    | none => tx.memoryUsage
  { memoryUsage := if (tx.deletes[key]?).isSome then unwritten else unwritten + key.length
    writes := tx.writes.erase key
    deletes := tx.deletes.emplace key () }

def clear (_tx : CDBTransaction T) : CDBTransaction T := {}

def commit {C : Type} (target : CommitTarget T C) (c : C) (tx : CDBTransaction T) : C × CDBTransaction T :=
  let erased := tx.deletes.toList.foldl (fun c k => target.erase c k.1) c
  (tx.writes.toList.foldl (fun c p => target.write c p.1 p.2.value) erased, tx.clear)

def isClean : Bool := tx.writes.isEmpty && tx.deletes.isEmpty

def getMemoryUsage : Nat := if tx.memoryUsage < 0 then 0 else tx.memoryUsage.toNat

/-- What the iterator of the transaction passes over in its parent. -/
def hides (key : Bytes) : Bool := (tx.deletes[key]?).isSome || (tx.writes[key]?).isSome

end CDBTransaction

/-! ## The iterator of a transaction -/

/-- `CDBTransactionIterator`; `transactionIt` is the range of the writes that the C++ iterator has still ahead. -/
structure CDBTransactionIterator (T : ValueTypes) (P : Parent T) where
  transactionIt : List (Bytes × ValueHolder T)
  parentIt : P.It
  parentKey : Bytes := []
  curIsParent : Bool := false

namespace CDBTransactionIterator

variable {P : Parent T}

variable (it : CDBTransactionIterator T P)

def valid : Bool := !it.transactionIt.isEmpty || P.iter.valid it.parentIt

/-- The key of the write that `transactionIt` stands at. -/
def stagedKey : Bytes := (it.transactionIt.map Prod.fst).headD []

def getKey : Bytes :=
  if !it.valid then []
  else if it.curIsParent then P.iter.key it.parentIt
  else it.stagedKey

variable (tx : CDBTransaction T)

def getValue (t : T.Ty) (it : CDBTransactionIterator T P) : Result (Option (T.Val t)) :=
  if !it.valid then .ok none
  else if it.curIsParent then tx.read P t it.parentKey
  else tx.read P t it.stagedKey

/-- The loop of `SkipDeletedAndOverwritten`; `left` of the parent's iterator bounds it. -/
def skipLoop : Nat → P.It → Bytes → Result (P.It × Bytes)
  | 0, parentIt, parentKey => .ok (parentIt, parentKey)
  | fuel + 1, parentIt, parentKey =>
    if P.iter.valid parentIt then
      if !tx.hides (P.iter.key parentIt) then .ok (parentIt, P.iter.key parentIt)
      else do skipLoop fuel (← P.iter.next parentIt) (P.iter.key parentIt)
    else .ok (parentIt, parentKey)

variable (it : CDBTransactionIterator T P)

def skipDeletedAndOverwritten : Result (CDBTransactionIterator T P) := do
  let r ← skipLoop tx (P.iter.left it.parentIt) it.parentIt it.parentKey
  return { it with parentIt := r.1, parentKey := r.2 }

def decideCur : CDBTransactionIterator T P :=
  { it with
    curIsParent :=
      if !it.transactionIt.isEmpty && !P.iter.valid it.parentIt then false
      else if it.transactionIt.isEmpty && P.iter.valid it.parentIt then true
      else if !it.transactionIt.isEmpty && P.iter.valid it.parentIt then !(compare it.stagedKey it.parentKey = .lt)
      else it.curIsParent }

def seekToFirst : Result (CDBTransactionIterator T P) := do
  let parentIt ← P.iter.seekToFirst it.parentIt
  return decideCur (← skipDeletedAndOverwritten tx { it with transactionIt := tx.writes.toList, parentIt })

def seek (key : Bytes) (it : CDBTransactionIterator T P) : Result (CDBTransactionIterator T P) := do
  let parentIt ← P.iter.seek key it.parentIt
  return decideCur (← skipDeletedAndOverwritten tx
    { it with transactionIt := tx.writes.toList.dropWhile fun e => compare e.1 key = .lt, parentIt })

def next : Result (CDBTransactionIterator T P) :=
  if it.transactionIt.isEmpty && !P.iter.valid it.parentIt then .ok it
  else if it.curIsParent then do
    require (.assertFailure "CDBTransactionIterator::Next: parentIt->Valid()") (P.iter.valid it.parentIt)
    let parentIt ← P.iter.next it.parentIt
    return decideCur (← skipDeletedAndOverwritten tx { it with parentIt })
  else do
    require (.assertFailure "CDBTransactionIterator::Next: transactionIt != end()") (!it.transactionIt.isEmpty)
    return decideCur { it with transactionIt := it.transactionIt.tail }

def cursor (P : Parent T) : Cursor Fault Bytes (CDBTransactionIterator T P) where
  valid := valid
  key := getKey
  seekToFirst := seekToFirst tx
  seek := seek tx
  next := next tx
  left it := it.transactionIt.length + P.iter.left it.parentIt

end CDBTransactionIterator

def CDBTransaction.asParent (tx : CDBTransaction T) (P : Parent T) : Parent T where
  read := tx.read P
  contains := tx.contains P
  It := CDBTransactionIterator T P
  iter := CDBTransactionIterator.cursor tx P
  newIterator := { transactionIt := [], parentIt := P.newIterator }

/-! ## What a transaction stages -/

namespace CDBTransaction

def stagedUsage (tx : CDBTransaction T) : Int :=
  FinMap.entrySum (fun e => e.1.length + (T.serialize e.2.value).length) tx.writes +
    FinMap.entrySum (fun e => (e.1.length : Int)) tx.deletes

/-- The content below, overridden by the staged deletes and writes. -/
def overriding (tx : CDBTransaction T) (below : FinMap Bytes Bytes) : FinMap Bytes Bytes :=
  tx.writes.toList.foldl (fun m e => m.insert e.1 (T.serialize e.2.value))
    (tx.deletes.toList.foldl (fun m e => m.erase e.1) below)

/-- What holds of every transaction: no key is both written and deleted, every key is written with its own type, and
the memory usage is that of the staged entries. -/
structure Sound (typeOf : Bytes → T.Ty) (tx : CDBTransaction T) : Prop where
  disjoint : ∀ {k : Bytes} {holder}, tx.writes[k]? = some holder → tx.deletes[k]? = none
  typed : ∀ {k : Bytes} {holder}, tx.writes[k]? = some holder → holder.ty = typeOf k
  sized : ∀ {k : Bytes} {holder}, tx.writes[k]? = some holder → holder.memoryUsage = (T.serialize holder.value).length
  usage : tx.memoryUsage = tx.stagedUsage

variable {typeOf : Bytes → T.Ty} {tx : CDBTransaction T} {below : FinMap Bytes Bytes} {k : Bytes}

variable (tx below k) in
theorem get_overriding : (tx.overriding below)[k]? =
      ((tx.writes[k]?).map fun h => T.serialize h.value).or (if (tx.deletes[k]?).isSome then none else below[k]?) := by
  rw [overriding, FinMap.get_foldl_insert_toList (fun h : ValueHolder T => T.serialize h.value),
    FinMap.get_foldl_erase Prod.fst]
  simp only [FinMap.mem_keys]

variable (tx below) in
theorem overriding_clear : tx.clear.overriding below = below :=
  FinMap.ext_get fun k => by
    rw [get_overriding]
    simp [clear]

theorem Sound.clear (tx : CDBTransaction T) : tx.clear.Sound typeOf where
  disjoint h := by simp [CDBTransaction.clear] at h
  typed h := by simp [CDBTransaction.clear] at h
  sized h := by simp [CDBTransaction.clear] at h
  usage := by simp [CDBTransaction.clear, stagedUsage]

theorem isClean_clear (tx : CDBTransaction T) : tx.clear.isClean = true := by
  simp [CDBTransaction.clear, isClean]

/-! ### Writes -/

variable {t : T.Ty}

variable (tx below) in
/-- A staged write is an insertion into the content seen. -/
theorem overriding_write (key : Bytes) (v : T.Val t) :
    (tx.write key v).overriding below = (tx.overriding below).insert key (T.serialize v) :=
  FinMap.ext_get fun k => by
    rw [get_overriding, FinMap.get_insert, get_overriding]
    simp only [write, FinMap.get_insert, FinMap.get_erase]
    split <;> rfl

theorem Sound.usage_write (h : tx.Sound typeOf) (key : Bytes) (v : T.Val t) :
    (tx.write key v).memoryUsage = (tx.write key v).stagedUsage := by
  have husage := h.usage
  unfold stagedUsage at husage ⊢
  unfold write
  cases hw : tx.writes[key]? with
  | some old =>
    -- the key is not deleted, so the entry only takes the place of the older one
    have hdel := h.disjoint hw
    have hsize := h.sized hw
    simp only [hdel, FinMap.erase_of_absent hdel, FinMap.entrySum_insert _ _ hw]
    simp only [Option.isSome_none, Bool.false_eq_true, if_false]
    omega
  | none =>
    cases hd : tx.deletes[key]? with
    | none =>
      simp only [FinMap.erase_of_absent hd, FinMap.entrySum_insert_absent _ _ hw]
      simp only [Option.isSome_none, Bool.false_eq_true, if_false]
      omega
    | some u =>
      simp only [FinMap.entrySum_erase _ hd, FinMap.entrySum_insert_absent _ _ hw]
      simp only [Option.isSome_some, if_true]
      omega

theorem Sound.write (h : tx.Sound typeOf) {key : Bytes} (ht : t = typeOf key) (v : T.Val t) :
    (tx.write key v).Sound typeOf where
  disjoint {k holder} hk := by
    simp only [CDBTransaction.write, FinMap.get_insert, FinMap.get_erase] at hk ⊢
    split_ifs at hk with heq
    · rw [if_pos heq]
    · rw [if_neg heq]
      exact h.disjoint hk
  typed {k holder} hk := by
    simp only [CDBTransaction.write, FinMap.get_insert] at hk
    split_ifs at hk with heq
    · cases hk
      exact ht.trans (congrArg typeOf heq)
    · exact h.typed hk
  sized {k holder} hk := by
    simp only [CDBTransaction.write, FinMap.get_insert] at hk
    split at hk
    · cases hk
      rfl
    · exact h.sized hk
  usage := h.usage_write key v

/-! ### Erasures -/

variable (tx below) in
/-- A staged erase removes the key from the content seen. -/
theorem overriding_erase (key : Bytes) : (tx.erase key).overriding below = (tx.overriding below).erase key :=
  FinMap.ext_get fun k => by
    rw [get_overriding, FinMap.get_erase, get_overriding]
    simp only [erase, FinMap.get_erase, FinMap.isSome_emplace]
    by_cases hk : key = k
    · simp [hk]
    · simp [hk, Ne.symm hk]

theorem isClean_erase (tx : CDBTransaction T) (key : Bytes) : (tx.erase key).isClean = false := by
  have hmem := FinMap.isSome_emplace tx.deletes key key ()
  have hne : (tx.deletes.emplace key ()).isEmpty = false := Bool.eq_false_iff.mpr fun hempty => by
    rw [Std.ExtTreeMap.isEmpty_iff.mp hempty] at hmem
    simp at hmem
  rw [isClean, erase]
  simp only [hne, Bool.and_false]

theorem Sound.usage_erase (h : tx.Sound typeOf) (key : Bytes) :
    (tx.erase key).memoryUsage = (tx.erase key).stagedUsage := by
  have husage := h.usage
  unfold stagedUsage at husage ⊢
  unfold erase FinMap.emplace
  cases hw : tx.writes[key]? with
  | some old =>
    have hdel := h.disjoint hw
    have hsize := h.sized hw
    simp only [hdel, FinMap.entrySum_erase _ hw, Option.isSome_none, Bool.false_eq_true, if_false,
      FinMap.entrySum_insert_absent _ _ hdel]
    omega
  | none =>
    cases hd : tx.deletes[key]? with
    | none =>
      simp only [FinMap.erase_of_absent hw, Option.isSome_none, Bool.false_eq_true, if_false,
        FinMap.entrySum_insert_absent _ _ hd]
      omega
    | some u =>
      simp only [FinMap.erase_of_absent hw, Option.isSome_some, if_true]
      omega

theorem Sound.erase (h : tx.Sound typeOf) (key : Bytes) : (tx.erase key).Sound typeOf where
  disjoint {k holder} hk := by
    simp only [CDBTransaction.erase, FinMap.get_erase] at hk ⊢
    split at hk
    · cases hk
    · rename_i hne
      rw [← Option.not_isSome_iff_eq_none, FinMap.isSome_emplace, h.disjoint hk]
      simp [Ne.symm hne]
  typed {k holder} hk := by
    simp only [CDBTransaction.erase, FinMap.get_erase] at hk
    split at hk
    · cases hk
    · exact h.typed hk
  sized {k holder} hk := by
    simp only [CDBTransaction.erase, FinMap.get_erase] at hk
    split at hk
    · cases hk
    · exact h.sized hk
  usage := h.usage_erase key

end CDBTransaction

/-! ## What a level shows -/

/-- Reads, `Exists` and iterators of `P` are those of the map `content`. -/
structure Parent.Presents (typeOf : Bytes → T.Ty) (P : Parent T) (content : FinMap Bytes Bytes) : Prop where
  read : ∀ key, ∃ v, P.read (typeOf key) key = .ok v ∧ v.map T.serialize = T.content (typeOf key) content[key]?
  contains : ∀ key, P.contains key = (content[key]?).isSome
  iter : ∃ ahead, P.iter.Walks (content.toList.map Prod.fst) ahead ∧ ahead P.newIterator []

variable {typeOf : Bytes → T.Ty}

theorem CDBIterator.walks (snapshot : List Bytes) (hsorted : Sorted snapshot) :
    CDBIterator.cursor.Walks snapshot fun it ks => it.snapshot = snapshot ∧ it.rest = ks ∧ Sorted ks where
  sorted h := h.2.2
  valid h := by rw [← h.2.1]; rfl
  key h := by
    show List.headD _ _ = _
    rw [h.2.1]
    rfl
  next {it k ks} h := by
    refine ⟨{ it with rest := ks }, ?_, h.1, rfl, (sorted_cons.mp h.2.2).2⟩
    show CDBIterator.next it = _
    rw [CDBIterator.next, h.2.1]
  seekToFirst {it ks} h := ⟨_, rfl, h.1, h.1, hsorted⟩
  seek {it ks} k h := ⟨_, rfl, h.1, by rw [h.1], (hsorted.dropWhile k).1⟩
  left h := by rw [← h.2.1]; exact Nat.le_refl _

/-- The database at the bottom presents its own entries. -/
theorem CDBWrapper.presents (db : CDBWrapper) : (db.asParent T).Presents typeOf db.entries where
  read _ := ⟨_, rfl, rfl⟩
  contains _ := rfl
  iter := ⟨_, CDBIterator.walks _ (FinMap.sorted_keys db.entries), rfl, rfl, sorted_nil⟩

theorem ValueHolder.get_typed {holder : ValueHolder T} {t : T.Ty} (h : holder.ty = t) :
    ∃ v, holder.get t = .ok v ∧ T.serialize v = T.serialize holder.value := by
  subst h
  exact ⟨holder.value, by rw [ValueHolder.get, dif_pos rfl], rfl⟩

namespace CDBTransaction

variable {tx : CDBTransaction T} {P : Parent T} {content : FinMap Bytes Bytes}

/-- A read sees the staged value, or what lies below it. -/
theorem Sound.read (h : tx.Sound typeOf) (hP : P.Presents typeOf content) (key : Bytes) :
    ∃ v, tx.read P (typeOf key) key = .ok v ∧
      v.map T.serialize = T.content (typeOf key) (tx.overriding content)[key]? := by
  unfold CDBTransaction.read
  rw [get_overriding]
  cases hw : tx.writes[key]? with
  | some holder =>
    -- a staged value is returned as it is, and would be read back with the same serialization
    obtain ⟨v, hv, hser⟩ := holder.get_typed (h.typed hw)
    refine ⟨some v, ?_, ?_⟩
    · rw [h.disjoint hw, if_neg (by simp)]
      dsimp only
      rw [hv]
      rfl
    · rw [Option.map_some, Option.map_some, Option.some_or, ← hser, ValueTypes.content]
      exact (T.roundTrip v).symm
  | none =>
    cases hd : tx.deletes[key]? with
    | some u => exact ⟨none, rfl, rfl⟩
    | none => exact hP.read key

theorem contains_eq (hP : P.Presents typeOf content) (h : tx.Sound typeOf) (key : Bytes) :
    tx.contains P key = ((tx.overriding content)[key]?).isSome := by
  rw [contains, get_overriding, hP.contains]
  cases hw : tx.writes[key]? with
  | some holder =>
    rw [h.disjoint hw]
    rfl
  | none =>
    cases hd : tx.deletes[key]? with
    | some u => rfl
    | none => rfl

theorem mem_keys_overriding (tx : CDBTransaction T) (key : Bytes) :
    key ∈ (tx.overriding content).toList.map Prod.fst ↔
      key ∈ tx.writes.toList.map Prod.fst ∨ key ∈ content.toList.map Prod.fst ∧ tx.hides key = false := by
  rw [FinMap.mem_keys, FinMap.mem_keys, FinMap.mem_keys, get_overriding, hides]
  cases tx.writes[key]? with
  | some holder => simp
  | none =>
    cases tx.deletes[key]? with
    | some u => simp
    | none => simp

end CDBTransaction

/-! ### The iterator -/

namespace CDBTransactionIterator

variable {tx : CDBTransaction T} {P : Parent T} {pahead : P.It → List Bytes → Prop} {pall : List Bytes}

/-- Where the two iterators stand: `ps` are the keys that the parent's still has ahead, `ks` the keys that the
transaction's has. The parent's stands at a key that shows through, which `parentKey` holds. -/
structure Placed (tx : CDBTransaction T) (pahead : P.It → List Bytes → Prop) (it : CDBTransactionIterator T P)
    (ps ks : List Bytes) : Prop where
  parent : pahead it.parentIt ps
  shown : ∀ p ∈ ps.head?, tx.hides p = false ∧ it.parentKey = p
  staged : Sorted (it.transactionIt.map Prod.fst)
  ours : ∀ a ∈ it.transactionIt.map Prod.fst, tx.hides a = true
  sorted : Sorted ks
  mem : ∀ a, a ∈ ks ↔ a ∈ it.transactionIt.map Prod.fst ∨ a ∈ ps ∧ tx.hides a = false

/-- The iterator that is said to be the current one stands at the first key. -/
def Current (it : CDBTransactionIterator T P) (ps ks : List Bytes) : Prop :=
  ∀ k ∈ ks.head?, if it.curIsParent then ps.head? = some k else (it.transactionIt.map Prod.fst).head? = some k

def Ahead (tx : CDBTransaction T) (pahead : P.It → List Bytes → Prop) (it : CDBTransactionIterator T P)
    (ks : List Bytes) : Prop :=
  ∃ ps, Placed tx pahead it ps ks ∧ Current it ps ks

section Steps

variable {it : CDBTransactionIterator T P} {ps ks : List Bytes}

theorem Placed.valid (h : Placed tx pahead it ps ks) (hP : P.iter.Walks pall pahead) : it.valid = !ks.isEmpty := by
  have hmem : (∃ a, a ∈ ks) ↔ (∃ a, a ∈ it.transactionIt.map Prod.fst) ∨ ∃ p, p ∈ ps := by
    constructor
    · rintro ⟨a, ha⟩
      exact ((h.mem a).mp ha).imp (fun hw => ⟨a, hw⟩) fun hp => ⟨a, hp.1⟩
    · rintro (⟨a, ha⟩ | ⟨p, hp⟩)
      · exact ⟨a, (h.mem a).mpr (.inl ha)⟩
      · cases ps with
        | nil => cases hp
        | cons p ps => exact ⟨p, (h.mem p).mpr (.inr ⟨List.mem_cons_self, (h.shown p rfl).1⟩)⟩
  rw [CDBTransactionIterator.valid, hP.valid h.parent, Bool.eq_iff_iff, Bool.or_eq_true]
  simp only [Bool.not_eq_true', List.isEmpty_eq_false_iff_exists_mem, hmem, List.mem_map]
  refine or_congr_left ⟨fun ha => ?_, fun ha => ?_⟩
  · obtain ⟨e, he⟩ := ha
    exact ⟨e.1, e, he, rfl⟩
  · obtain ⟨a, e, he, _⟩ := ha
    exact ⟨e, he⟩

theorem Placed.decideCur (h : Placed tx pahead it ps ks) (hP : P.iter.Walks pall pahead) :
    Ahead tx pahead it.decideCur ks := by
  refine ⟨ps, ⟨h.parent, h.shown, h.staged, h.ours, h.sorted, h.mem⟩, fun k hk => ?_⟩
  obtain ⟨ks, rfl⟩ : ∃ tail, ks = k :: tail := List.head?_eq_some_iff.mp hk
  have hkin := (h.mem k).mp List.mem_cons_self
  have hps := hP.sorted h.parent
  have hstaged := h.staged
  have hours : ∀ a ∈ it.transactionIt.map Prod.fst, a ∈ k :: ks := fun a ha => (h.mem a).mpr (.inl ha)
  have hparent : ∀ p ∈ ps.head?, p ∈ k :: ks := fun p hp =>
    (h.mem p).mpr (.inr ⟨List.mem_of_mem_head? hp, (h.shown p hp).1⟩)
  have hvalid := hP.valid h.parent
  unfold CDBTransactionIterator.decideCur stagedKey
  cases hws : it.transactionIt with
  | nil =>
    rw [hws] at hkin
    cases ps with
    | nil => simp at hkin
    | cons p ps =>
      have hpk : p = k := h.sorted.head_eq (hparent p rfl) (hps.not_lt_head ((hkin.resolve_left List.not_mem_nil).1))
      simp [hvalid, hpk]
  | cons e es =>
    rw [hws, List.map_cons] at hkin hstaged hours
    cases ps with
    | nil =>
      have hek : e.1 = k := h.sorted.head_eq (hours e.1 List.mem_cons_self)
        (hstaged.not_lt_head (hkin.resolve_right fun hp => List.not_mem_nil hp.1))
      simp [hvalid, hek]
    | cons p ps =>
      have hkey := (h.shown p rfl).2
      by_cases hlt : compare e.1 p = .lt
      · have hek : e.1 = k := h.sorted.head_eq (hours e.1 List.mem_cons_self) fun hke =>
          hkin.elim (fun hw => hstaged.not_lt_head hw hke) fun hp =>
            hps.not_lt_head hp.1 (Std.TransCmp.lt_trans hke hlt)
        simp [hvalid, hkey, hek, hek ▸ hlt]
      · have hpk : p = k := h.sorted.head_eq (hparent p rfl) fun hkp => hkin.elim (fun hw => by
          rcases List.mem_cons.mp hw with rfl | hw
          · exact hlt hkp
          · exact hlt (Std.TransCmp.lt_trans ((sorted_cons.mp hstaged).1 k hw) hkp)) fun hp => hps.not_lt_head hp.1 hkp
        simp [hvalid, hkey, hpk, hpk ▸ hlt]

/-- Skipping stops at the first key of the parent that is not hidden. -/
theorem skipLoop_spec (hP : P.iter.Walks pall pahead) : ∀ {fuel : Nat} {parentIt : P.It} (parentKey : Bytes)
    {ps : List Bytes}, pahead parentIt ps → ps.length ≤ fuel →
    ∃ parentIt' parentKey' ps', skipLoop tx fuel parentIt parentKey = .ok (parentIt', parentKey') ∧
      pahead parentIt' ps' ∧ (∀ p ∈ ps'.head?, tx.hides p = false ∧ parentKey' = p) ∧
      ∀ a, a ∈ ps' ∧ tx.hides a = false ↔ a ∈ ps ∧ tx.hides a = false
  | 0, parentIt, parentKey, [], hahead, _ => ⟨parentIt, parentKey, [], rfl, hahead, by simp, fun a => Iff.rfl⟩
  | fuel + 1, parentIt, parentKey, [], hahead, _ => by
    refine ⟨parentIt, parentKey, [], ?_, hahead, by simp, fun a => Iff.rfl⟩
    rw [skipLoop, hP.valid hahead]
    rfl
  | fuel + 1, parentIt, parentKey, p :: ps, hahead, hfuel => by
    rw [skipLoop, hP.valid hahead, if_pos (show (!(p :: ps).isEmpty) = true from rfl), hP.key hahead]
    cases hp : tx.hides p with
    | false =>
      refine ⟨parentIt, p, p :: ps, rfl, hahead, fun q hq => ?_, fun a => Iff.rfl⟩
      cases hq
      exact ⟨hp, rfl⟩
    | true =>
      obtain ⟨next, hnext, hahead'⟩ := hP.next hahead
      obtain ⟨parentIt', parentKey', ps', hloop, hat, hshown, hmem⟩ :=
        skipLoop_spec hP p hahead' (Nat.le_of_succ_le_succ hfuel)
      refine ⟨parentIt', parentKey', ps', ?_, hat, hshown, fun a => (hmem a).trans ?_⟩
      · rw [hnext]
        exact hloop
      · rw [List.mem_cons]
        refine and_congr_left fun ha => ⟨.inr, fun hor => hor.resolve_left fun heq => ?_⟩
        rw [heq, hp] at ha
        cases ha

/-- After the loop and `DecideCur` the iterator stands at the first of the keys that show. -/
theorem skip_decideCur (it : CDBTransactionIterator T P) (hP : P.iter.Walks pall pahead)
    (hparent : pahead it.parentIt ps) (hstaged : Sorted (it.transactionIt.map Prod.fst))
    (hours : ∀ a ∈ it.transactionIt.map Prod.fst, tx.hides a = true)
    (hsorted : Sorted ks)
    (hmem : ∀ a, a ∈ ks ↔ a ∈ it.transactionIt.map Prod.fst ∨ a ∈ ps ∧ tx.hides a = false) :
    ∃ it', skipDeletedAndOverwritten tx it = .ok it' ∧ Ahead tx pahead it'.decideCur ks := by
  obtain ⟨parentIt, parentKey, ps', (hloop : skipLoop tx _ _ _ = _), hat, hshown, hps'⟩ :=
    skipLoop_spec hP it.parentKey hparent (hP.left hparent)
  refine ⟨{ it with parentIt, parentKey }, ?_, ?_⟩
  · rw [skipDeletedAndOverwritten, hloop]
    rfl
  · have hplaced : Placed tx pahead { it with parentIt, parentKey } ps' ks :=
      ⟨hat, hshown, hstaged, hours, hsorted, fun a => by rw [hmem a, hps' a]⟩
    exact hplaced.decideCur hP

variable {k : Bytes}

theorem Current.cases (h : Current it ps (k :: ks)) :
    (it.curIsParent = true ∧ ∃ ps', ps = k :: ps') ∨
      it.curIsParent = false ∧ ∃ e es, it.transactionIt = e :: es ∧ e.1 = k := by
  have hk := h k rfl
  cases hcur : it.curIsParent with
  | true =>
    rw [hcur, if_pos rfl] at hk
    exact .inl ⟨rfl, List.head?_eq_some_iff.mp hk⟩
  | false =>
    rw [hcur, if_neg (by simp)] at hk
    cases hws : it.transactionIt with
    | nil => simp [hws] at hk
    | cons e es =>
      rw [hws] at hk
      exact .inr ⟨rfl, e, es, rfl, Option.some.inj hk⟩

variable (h : Ahead tx pahead it (k :: ks))
include h

variable (hP : P.iter.Walks pall pahead)
include hP

theorem Ahead.getKey : it.getKey = k := by
  obtain ⟨ps, hplaced, hcur⟩ := h
  have hvalid : it.valid = true := hplaced.valid hP
  rw [CDBTransactionIterator.getKey, hvalid]
  rcases hcur.cases with ⟨hparent, ps', rfl⟩ | ⟨hstaged, e, es, hws, rfl⟩
  · rw [hparent]
    exact hP.key hplaced.parent
  · rw [hstaged, stagedKey, hws]
    rfl

theorem Ahead.getValue (t : T.Ty) : it.getValue tx t = tx.read P t k := by
  obtain ⟨ps, hplaced, hcur⟩ := h
  have hvalid : it.valid = true := hplaced.valid hP
  rw [CDBTransactionIterator.getValue, hvalid]
  rcases hcur.cases with ⟨hparent, ps', rfl⟩ | ⟨hstaged, e, es, hws, rfl⟩
  · rw [hparent, (hplaced.shown k rfl).2]
    rfl
  · rw [hstaged, stagedKey, hws]
    rfl

theorem Ahead.next : ∃ it', it.next tx = .ok it' ∧ Ahead tx pahead it' ks := by
  obtain ⟨ps, hplaced, hcur⟩ := h
  have hvalid : it.valid = true := hplaced.valid hP
  have hnotDone : (it.transactionIt.isEmpty && !P.iter.valid it.parentIt) = false := by
    rw [CDBTransactionIterator.valid] at hvalid
    simpa [or_iff_not_imp_left] using hvalid
  have hsorted := (sorted_cons.mp hplaced.sorted).2
  rw [CDBTransactionIterator.next, hnotDone, if_neg (by simp)]
  rcases hcur.cases with ⟨hparent, ps', rfl⟩ | ⟨hstaged, e, es, hws, rfl⟩
  · -- the parent's iterator moves on; its key was not staged
    have hnot : k ∉ it.transactionIt.map Prod.fst := fun hk => by
      have := hplaced.ours k hk
      rw [(hplaced.shown k rfl).1] at this
      cases this
    obtain ⟨parentIt, hnext, hat⟩ := hP.next hplaced.parent
    obtain ⟨it', hskip, hahead⟩ := skip_decideCur { it with parentIt } hP hat hplaced.staged hplaced.ours
      hsorted fun a => by
        rw [hplaced.sorted.mem_tail_iff, hplaced.mem, (hP.sorted hplaced.parent).mem_tail_iff]
        grind
    refine ⟨it'.decideCur, ?_, hahead⟩
    have hpvalid : P.iter.valid it.parentIt = true := hP.valid hplaced.parent
    rw [if_pos hparent, require_pos hpvalid, ok_bind, hnext, ok_bind, hskip]
    rfl
  · -- the next staged key; the parent's iterator does not move
    obtain ⟨transactionIt, parentIt, parentKey, curIsParent⟩ := it
    obtain rfl : transactionIt = e :: es := hws
    have hhides : tx.hides e.1 = true := hplaced.ours e.1 List.mem_cons_self
    have hplaced' : Placed tx pahead ⟨es, parentIt, parentKey, curIsParent⟩ ps ks := by
      refine ⟨hplaced.parent, hplaced.shown, (sorted_cons.mp hplaced.staged).2,
        fun a ha => hplaced.ours a (List.mem_cons_of_mem _ ha), hsorted, fun a => ?_⟩
      · rw [hplaced.sorted.mem_tail_iff, hplaced.mem]
        show _ ↔ a ∈ List.map Prod.fst es ∨ _
        rw [hplaced.staged.mem_tail_iff]
        grind
    refine ⟨_, ?_, hplaced'.decideCur hP⟩
    exact if_neg (Bool.eq_false_iff.mp hstaged)

end Steps

theorem hides_of_mem_writes {a : Bytes} (h : a ∈ tx.writes.toList.map Prod.fst) : tx.hides a = true := by
  rw [FinMap.mem_keys] at h
  rw [CDBTransaction.hides, h, Bool.or_true]

/-- **The iterator of a transaction walks through the keys that its level shows.** -/
theorem walks (hP : P.iter.Walks pall pahead) (hpall : Sorted pall) {all : List Bytes} (hall : Sorted all)
    (hmem : ∀ a, a ∈ all ↔ a ∈ tx.writes.toList.map Prod.fst ∨ a ∈ pall ∧ tx.hides a = false) :
    (cursor tx P).Walks all (Ahead tx pahead) where
  sorted h := by
    obtain ⟨ps, h, _⟩ := h
    exact h.sorted
  valid h := by
    obtain ⟨ps, h, _⟩ := h
    exact h.valid hP
  key h := h.getKey hP
  next h := h.next hP
  seekToFirst {it ks} h := by
    obtain ⟨ps, h, _⟩ := h
    obtain ⟨parentIt, hseek, hat⟩ := hP.seekToFirst h.parent
    obtain ⟨it', hskip, hahead⟩ := skip_decideCur { it with transactionIt := tx.writes.toList, parentIt } hP hat
      (FinMap.sorted_keys tx.writes) (fun a => hides_of_mem_writes) hall hmem
    refine ⟨it'.decideCur, ?_, hahead⟩
    show CDBTransactionIterator.seekToFirst tx it = _
    rw [CDBTransactionIterator.seekToFirst, hseek, ok_bind, hskip]
    rfl
  seek {it ks} k h := by
    obtain ⟨ps, h, _⟩ := h
    obtain ⟨parentIt, hseek, hat⟩ := hP.seek k h.parent
    have hwrites := FinMap.sorted_keys tx.writes
    have hstaged : (tx.writes.toList.dropWhile fun e => compare e.1 k = .lt).map Prod.fst =
        (tx.writes.toList.map Prod.fst).dropWhile fun a => compare a k = .lt := by
      rw [List.dropWhile_map]
      rfl
    obtain ⟨it', hskip, hahead⟩ := skip_decideCur
      { it with transactionIt := tx.writes.toList.dropWhile fun e => compare e.1 k = .lt, parentIt } hP hat
      (hstaged ▸ (hwrites.dropWhile k).1)
      (fun a ha => hides_of_mem_writes (((hwrites.dropWhile k).2 a).mp (hstaged ▸ ha)).1)
      (hall.dropWhile k).1 fun a => by
        show _ ↔ a ∈ List.map Prod.fst (List.dropWhile _ _) ∨ _
        rw [hstaged, (hall.dropWhile k).2, (hwrites.dropWhile k).2, (hpall.dropWhile k).2, hmem]
        tauto
    refine ⟨it'.decideCur, ?_, hahead⟩
    show CDBTransactionIterator.seek tx k it = _
    rw [CDBTransactionIterator.seek, hseek, ok_bind, hskip]
    rfl
  left {it ks} h := by
    obtain ⟨ps, h, _⟩ := h
    have hsub : ks ⊆ it.transactionIt.map Prod.fst ++ ps := fun a ha =>
      List.mem_append.mpr (((h.mem a).mp ha).imp_right And.left)
    have hlen := (h.sorted.nodup.subperm hsub).length_le
    rw [List.length_append, List.length_map] at hlen
    exact hlen.trans (Nat.add_le_add_left (hP.left h.parent) _)

theorem ahead_new (hnew : pahead P.newIterator []) :
    Ahead tx pahead { transactionIt := [], parentIt := P.newIterator } [] :=
  ⟨[], ⟨hnew, by simp, sorted_nil, by simp, sorted_nil, by simp⟩, by simp [Current]⟩

/-- The merged iterator walks the keys of the content seen, in order and once each. -/
theorem walks_overriding (tx : CDBTransaction T) {content : FinMap Bytes Bytes}
    (hP : P.iter.Walks (content.toList.map Prod.fst) pahead) :
    (cursor tx P).Walks ((tx.overriding content).toList.map Prod.fst) (Ahead tx pahead) :=
  walks hP (FinMap.sorted_keys content) (FinMap.sorted_keys _) fun a => tx.mem_keys_overriding a

theorem Ahead.next_end {it : CDBTransactionIterator T P} (h : Ahead tx pahead it [])
    (hP : P.iter.Walks pall pahead) : it.next tx = .ok it := by
  obtain ⟨ps, hplaced, _⟩ := h
  have hvalid : it.valid = false := hplaced.valid hP
  rw [CDBTransactionIterator.valid, Bool.or_eq_false_iff] at hvalid
  rw [CDBTransactionIterator.next, if_pos]
  simpa using hvalid

end CDBTransactionIterator

/-- **A transaction shows the content below it, overridden by what it stages.** -/
theorem CDBTransaction.presents {tx : CDBTransaction T} {P : Parent T} {content : FinMap Bytes Bytes}
    (h : tx.Sound typeOf) (hP : P.Presents typeOf content) :
    (tx.asParent P).Presents typeOf (tx.overriding content) where
  read := h.read hP
  contains := contains_eq hP h
  iter := by
    obtain ⟨pahead, hwalks, hnew⟩ := hP.iter
    exact ⟨_, CDBTransactionIterator.walks_overriding tx hwalks, CDBTransactionIterator.ahead_new hnew⟩

end TrumpCoin
