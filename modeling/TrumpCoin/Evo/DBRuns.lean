import Mathlib.Algebra.Order.BigOperators.Group.List
import TrumpCoin.Evo.DBTransaction
import TrumpCoin.Evo.Manager

/-!
# The levels of the EvoDB as a stack of maps

`evodb.h` and `evodb.cpp` on the transactions of `Evo.DBTransaction`: the database, a root transaction over it and a
current transaction over that. `StoreOps` are the operations of such a store and `Op` their calls, so that one `step`
runs both the code (`CEvoDBLevels.ops`) and the plain stack of three maps it stands for (`PlainStack.ops`).

* `Refines`: the levels of the code show the maps of the stack, and every operation keeps it so;
* `evodb_is_stack`: every run of the code and of the plain stack see the same;
* `CEvoDB.ShownBy`: the EvoDB of the list manager is such a stack, seen through the keys of the manager.
-/

namespace TrumpCoin

open Lib

variable {T : ValueTypes}

/-! ## Stores and their runs -/

inductive Move where
  | seekToFirst
  | seek (key : Bytes)
  | next
deriving DecidableEq

/-- What is seen after a move: nothing where the iterator is not valid, or the key and the value. -/
abbrev Sight := Option (Bytes × Option Bytes)

/-- The operations of a store with a current level. A value that is read is given by its serialization. -/
structure StoreOps (T : ValueTypes) (S : Type) where
  write : S → Bytes → {t : T.Ty} → T.Val t → S
  erase : S → Bytes → S
  read : S → T.Ty → Bytes → Result (Option Bytes)
  contains : S → Bytes → Bool
  iterate : S → List Move → Result (List Sight)
  clear : S → S
  commitCurTransaction : S → S
  rollbackCurTransaction : S → S
  commitRootTransaction : S → Result (S × Bool)

/-- The calls. The committers that `BeginTransaction` returns are numbered in the order of their creation. -/
inductive Op (T : ValueTypes) where
  | write (key : Bytes) (t : T.Ty) (v : T.Val t)
  | erase (key : Bytes)
  | read (t : T.Ty) (key : Bytes)
  | contains (key : Bytes)
  | iterate (moves : List Move)
  | clear
  | beginTransaction
  | commit (committer : Nat)
  | rollback (committer : Nat)
  | destroy (committer : Nat)
  | commitRootTransaction

/-- A key is written and read with the type that belongs to it; `CDBTransaction::Read` throws otherwise. -/
def Op.Typed (typeOf : Bytes → T.Ty) : Op T → Prop
  | .write key t _ => t = typeOf key
  | .read t key => t = typeOf key
  | _ => True

inductive Observation where
  | none
  | value (v : Option Bytes)
  | flag (b : Bool)
  | seen (l : List Sight)
deriving DecidableEq

structure CEvoDBScopedCommitter where
  didCommitOrRollback : Bool := false
deriving DecidableEq

/-- A store with the committers its callers hold; a pointer that was reset is null. -/
structure Session (S : Type) where
  store : S
  committers : List (Option CEvoDBScopedCommitter) := []

namespace Session

variable {S : Type}

variable (w : Session S) (i : Nat)

def committer : Result CEvoDBScopedCommitter :=
  match w.committers[i]? with
  | some (some c) => .ok c
  | _ => .error (.nullDeref "CEvoDBScopedCommitter")

/-- `Commit` and `Rollback` of a committer, with what they do to the store. -/
def finish (f : S → S) : Result (Session S) := do
  let c ← w.committer i
  require (.assertFailure "CEvoDBScopedCommitter: !didCommitOrRollback") (!c.didCommitOrRollback)
  return { store := f w.store, committers := w.committers.set i (some { didCommitOrRollback := true }) }

/-- The destructor of a committer; there is none to call behind a null pointer. -/
def destroy (rollback : S → S) : Session S :=
  match w.committers[i]? with
  | some (some c) =>
    { store := if c.didCommitOrRollback then w.store else rollback w.store, committers := w.committers.set i none }
  | _ => w

end Session

namespace StoreOps

variable {S : Type}

def step (ops : StoreOps T S) (w : Session S) : Op T → Result (Session S × Observation)
  | .write key _ v => .ok ({ w with store := ops.write w.store key v }, .none)
  | .erase key => .ok ({ w with store := ops.erase w.store key }, .none)
  | .read t key => do return (w, .value (← ops.read w.store t key))
  | .contains key => .ok (w, .flag (ops.contains w.store key))
  | .iterate moves => do return (w, .seen (← ops.iterate w.store moves))
  | .clear => .ok ({ w with store := ops.clear w.store }, .none)
  | .beginTransaction => .ok ({ w with committers := w.committers ++ [some {}] }, .none)
  | .commit i => do return (← w.finish i ops.commitCurTransaction, .none)
  | .rollback i => do return (← w.finish i ops.rollbackCurTransaction, .none)
  | .destroy i => .ok (w.destroy i ops.rollbackCurTransaction, .none)
  | .commitRootTransaction => do
    let r ← ops.commitRootTransaction w.store
    return ({ w with store := r.1 }, .flag r.2)

/-- One call, with what was seen before it. -/
def stepSeeing (ops : StoreOps T S) (r : Session S × List Observation) (op : Op T) :
    Result (Session S × List Observation) := do
  let r' ← ops.step r.1 op
  return (r'.1, r.2 ++ [r'.2])

def run (ops : StoreOps T S) (calls : List (Op T)) (store : S) : Result (Session S × List Observation) :=
  calls.foldlM ops.stepSeeing ({ store }, [])

end StoreOps

/-! ## The plain stack -/

/-- Three plain maps, and whether anything was written or erased on the current one since it was last equal to the one
below it by `Commit` or `Clear`. -/
structure PlainStack where
  db : FinMap Bytes Bytes
  root : FinMap Bytes Bytes
  cur : FinMap Bytes Bytes
  staged : Bool := false

namespace PlainStack

def keys (p : PlainStack) : List Bytes := p.cur.toList.map Prod.fst

/-- A move in the sorted list of the keys: what remains from the new position on. -/
def move (p : PlainStack) (rest : List Bytes) : Move → List Bytes
  | .seekToFirst => p.keys
  | .seek key => p.keys.dropWhile fun a => compare a key = .lt
  | .next => rest.tail

def sight (typeOf : Bytes → T.Ty) (p : PlainStack) (rest : List Bytes) : Sight :=
  rest.head?.map fun k => (k, T.content (typeOf k) p.cur[k]?)

def walk (typeOf : Bytes → T.Ty) (p : PlainStack) : List Move → List Bytes → List Sight
  | [], _ => []
  | m :: moves, rest => p.sight typeOf (p.move rest m) :: p.walk typeOf moves (p.move rest m)

def clear (p : PlainStack) : PlainStack := { p with cur := p.root, staged := false }

def ops (typeOf : Bytes → T.Ty) : StoreOps T PlainStack where
  write p key _ v := { p with cur := p.cur.insert key (T.serialize v), staged := true }
  erase p key := { p with cur := p.cur.erase key, staged := true }
  read p t key := .ok (T.content t p.cur[key]?)
  contains p key := (p.cur[key]?).isSome
  iterate p moves := .ok (p.walk typeOf moves [])
  clear := clear
  commitCurTransaction p := { p with root := p.cur, staged := false }
  rollbackCurTransaction := clear
  commitRootTransaction p := do
    require (.assertFailure "CommitRootTransaction: curDBTransaction.IsClean()") (p.staged = false)
    return ({ p with db := p.root }, true)

end PlainStack

/-! ## The code -/

/-- The members of `CEvoDB`. -/
structure CEvoDBLevels (T : ValueTypes) where
  db : CDBWrapper
  rootBatch : CDBBatch := {}
  rootDBTransaction : CDBTransaction T := {}
  curDBTransaction : CDBTransaction T := {}

namespace CEvoDBLevels

def rootTarget : CommitTarget T CDBBatch := ⟨fun b key _ v => b.write key v, CDBBatch.erase⟩

def curTarget : CommitTarget T (CDBTransaction T) := ⟨fun tx key _ v => tx.write key v, CDBTransaction.erase⟩

variable (e : CEvoDBLevels T)

def root : Parent T := e.rootDBTransaction.asParent (e.db.asParent T)

abbrev Iterator := CDBTransactionIterator T e.root

def move (it : e.Iterator) : Move → Result e.Iterator
  | .seekToFirst => it.seekToFirst e.curDBTransaction
  | .seek key => it.seek e.curDBTransaction key
  | .next => it.next e.curDBTransaction

/-- The key and, read with the type that belongs to the key, the value. -/
def sight (typeOf : Bytes → T.Ty) (e : CEvoDBLevels T) (it : e.Iterator) : Result Sight :=
  if it.valid then do
    let v ← it.getValue e.curDBTransaction (typeOf it.getKey)
    return some (it.getKey, v.map T.serialize)
  else .ok none

def walk (typeOf : Bytes → T.Ty) (e : CEvoDBLevels T) : List Move → e.Iterator → Result (List Sight)
  | [], _ => .ok []
  | m :: moves, it => do
    let it ← e.move it m
    return (← e.sight typeOf it) :: (← e.walk typeOf moves it)

def newIterator : e.Iterator := { transactionIt := [], parentIt := e.root.newIterator }

/-- The keys that a loop over an iterator of the current transaction visits. -/
def keys : Result (List Bytes) := do
  let it ← e.newIterator.seekToFirst e.curDBTransaction
  let c := CDBTransactionIterator.cursor e.curDBTransaction e.root
  c.collect (c.left it) it

def commitCurTransaction : CEvoDBLevels T :=
  let r := e.curDBTransaction.commit curTarget e.rootDBTransaction
  { e with rootDBTransaction := r.1, curDBTransaction := r.2 }

def rollbackCurTransaction : CEvoDBLevels T :=
  { e with curDBTransaction := e.curDBTransaction.clear }

def commitRootTransaction : Result (CEvoDBLevels T × Bool) := do
  require (.assertFailure "CommitRootTransaction: curDBTransaction.IsClean()") (e.curDBTransaction.isClean)
  let r := e.rootDBTransaction.commit rootTarget e.rootBatch
  let written := e.db.writeBatch r.1
  return ({ e with db := written.1, rootBatch := {}, rootDBTransaction := r.2 }, written.2)

def getMemoryUsage : Nat := e.rootDBTransaction.getMemoryUsage

def ops (typeOf : Bytes → T.Ty) : StoreOps T (CEvoDBLevels T) where
  write e key _ v := { e with curDBTransaction := e.curDBTransaction.write key v }
  erase e key := { e with curDBTransaction := e.curDBTransaction.erase key }
  read e t key := do return (← e.curDBTransaction.read e.root t key).map T.serialize
  contains e key := e.curDBTransaction.contains e.root key
  iterate e moves := e.walk typeOf moves e.newIterator
  clear e := { e with curDBTransaction := e.curDBTransaction.clear }
  commitCurTransaction := commitCurTransaction
  rollbackCurTransaction := rollbackCurTransaction
  commitRootTransaction := commitRootTransaction

end CEvoDBLevels

/-! ## Refinement -/

/-- The levels of the code show the maps of the stack, and each transaction accounts for what it stages. -/
structure Refines (typeOf : Bytes → T.Ty) (e : CEvoDBLevels T) (p : PlainStack) : Prop where
  db : e.db.entries = p.db
  root : e.rootDBTransaction.overriding p.db = p.root
  cur : e.curDBTransaction.overriding p.root = p.cur
  staged : p.staged = !e.curDBTransaction.isClean
  batch : e.rootBatch = {}
  soundRoot : e.rootDBTransaction.Sound typeOf
  soundCur : e.curDBTransaction.Sound typeOf

namespace Refines

variable {typeOf : Bytes → T.Ty} {e : CEvoDBLevels T} {p : PlainStack}

theorem presentsRoot (h : Refines typeOf e p) : e.root.Presents typeOf p.root := by
  have := CDBTransaction.presents h.soundRoot (e.db.presents (T := T))
  rwa [h.db, h.root] at this

/-! ### What is seen -/

theorem read (h : Refines typeOf e p) (key : Bytes) :
    (CEvoDBLevels.ops typeOf).read e (typeOf key) key = (PlainStack.ops typeOf).read p (typeOf key) key := by
  obtain ⟨v, hread, hv⟩ := h.soundCur.read h.presentsRoot key
  rw [h.cur] at hv
  show (e.curDBTransaction.read e.root (typeOf key) key >>= fun v => pure (v.map T.serialize)) = _
  rw [hread, ok_bind, hv]
  rfl

theorem contains (h : Refines typeOf e p) (key : Bytes) :
    (CEvoDBLevels.ops typeOf).contains e key = (PlainStack.ops typeOf).contains p key := by
  have := CDBTransaction.contains_eq h.presentsRoot h.soundCur key
  rwa [h.cur] at this

section Iterator

variable {pahead : e.root.It → List Bytes → Prop} {it : e.Iterator} {ks : List Bytes}

variable (h : Refines typeOf e p)
include h

variable (hP : e.root.iter.Walks (p.root.toList.map Prod.fst) pahead)
include hP

theorem walks :
    (CDBTransactionIterator.cursor e.curDBTransaction e.root).Walks p.keys
      (CDBTransactionIterator.Ahead e.curDBTransaction pahead) := by
  have := CDBTransactionIterator.walks_overriding e.curDBTransaction hP
  rwa [h.cur] at this

theorem move
    (hit : CDBTransactionIterator.Ahead e.curDBTransaction pahead it ks) (m : Move) :
    ∃ it', e.move it m = .ok it' ∧ CDBTransactionIterator.Ahead e.curDBTransaction pahead it' (p.move ks m) := by
  cases m with
  | seekToFirst => exact (h.walks hP).seekToFirst hit
  | seek key => exact (h.walks hP).seek key hit
  | next =>
    cases ks with
    | nil => exact ⟨it, hit.next_end hP, hit⟩
    | cons k ks => exact hit.next hP

theorem sight
    (hit : CDBTransactionIterator.Ahead e.curDBTransaction pahead it ks) :
    e.sight typeOf it = .ok (p.sight typeOf ks) := by
  have hvalid : it.valid = !ks.isEmpty := (h.walks hP).valid hit
  rw [CEvoDBLevels.sight, hvalid]
  cases ks with
  | nil => rfl
  | cons k ks =>
    obtain ⟨v, hread, hv⟩ := h.soundCur.read h.presentsRoot k
    rw [h.cur] at hv
    rw [if_pos (show (!(k :: ks).isEmpty) = true from rfl), hit.getKey hP, hit.getValue hP, hread, ok_bind, hv]
    rfl

/-- Any sequence of moves sees what it sees on the plain stack. -/
theorem walk_eq :
    ∀ (moves : List Move) {it : e.Iterator} {ks : List Bytes},
      CDBTransactionIterator.Ahead e.curDBTransaction pahead it ks →
      e.walk typeOf moves it = .ok (p.walk typeOf moves ks)
  | [], _, _, _ => rfl
  | m :: moves, it, ks, hit => by
    obtain ⟨it', hmove, hit'⟩ := h.move hP hit m
    rw [CEvoDBLevels.walk, hmove, ok_bind, h.sight hP hit', ok_bind, walk_eq moves hit', ok_bind]
    rfl

end Iterator

theorem iterate (h : Refines typeOf e p) (moves : List Move) :
    (CEvoDBLevels.ops typeOf).iterate e moves = (PlainStack.ops typeOf).iterate p moves := by
  obtain ⟨pahead, hwalks, hnew⟩ := h.presentsRoot.iter
  exact h.walk_eq hwalks moves (CDBTransactionIterator.ahead_new hnew)

theorem keys (h : Refines typeOf e p) : e.keys = .ok p.keys := by
  obtain ⟨pahead, hP, hnew⟩ := h.presentsRoot.iter
  have hwalks := h.walks hP
  have hstart : CDBTransactionIterator.Ahead e.curDBTransaction pahead e.newIterator [] :=
    CDBTransactionIterator.ahead_new hnew
  obtain ⟨it, hseek, hit⟩ := hwalks.seekToFirst hstart
  rw [CEvoDBLevels.keys, show e.newIterator.seekToFirst e.curDBTransaction = .ok it from hseek, ok_bind]
  exact hwalks.collect hit (hwalks.left hit)

theorem memoryUsage {tx : CDBTransaction T} (h : tx.Sound typeOf) : (tx.getMemoryUsage : Int) = tx.stagedUsage := by
  have hnonneg : 0 ≤ tx.stagedUsage := by
    unfold CDBTransaction.stagedUsage FinMap.entrySum
    refine Int.add_nonneg (List.sum_nonneg fun x hx => ?_) (List.sum_nonneg fun x hx => ?_)
    · obtain ⟨e, _, rfl⟩ := List.mem_map.mp hx
      omega
    · obtain ⟨e, _, rfl⟩ := List.mem_map.mp hx
      omega
  rw [CDBTransaction.getMemoryUsage, h.usage, if_neg (Int.not_lt.mpr hnonneg), Int.toNat_of_nonneg hnonneg]

/-! ### What changes -/

variable (h : Refines typeOf e p)
include h

theorem withCur {tx : CDBTransaction T} {cur : FinMap Bytes Bytes} {staged : Bool} (hcur : tx.overriding p.root = cur)
    (hstaged : staged = !tx.isClean) (hsound : tx.Sound typeOf) :
    Refines typeOf { e with curDBTransaction := tx } { p with cur, staged } :=
  ⟨h.db, h.root, hcur, hstaged, h.batch, h.soundRoot, hsound⟩

theorem write {key : Bytes} {t : T.Ty} (ht : t = typeOf key) (v : T.Val t) :
    Refines typeOf ((CEvoDBLevels.ops typeOf).write e key v) ((PlainStack.ops typeOf).write p key v) := by
  refine h.withCur ?_ ?_ (h.soundCur.write ht v)
  · rw [CDBTransaction.overriding_write, h.cur]
  · simp [CDBTransaction.write, CDBTransaction.isClean]

theorem erase (key : Bytes) :
    Refines typeOf ((CEvoDBLevels.ops typeOf).erase e key) ((PlainStack.ops typeOf).erase p key) := by
  refine h.withCur ?_ ?_ (h.soundCur.erase key)
  · rw [CDBTransaction.overriding_erase, h.cur]
  · rw [CDBTransaction.isClean_erase]
    rfl

theorem clear : Refines typeOf ((CEvoDBLevels.ops typeOf).clear e) ((PlainStack.ops typeOf).clear p) := by
  refine h.withCur (e.curDBTransaction.overriding_clear p.root) ?_ (.clear _)
  rw [CDBTransaction.isClean_clear]
  rfl

end Refines

/-! ### Commits -/

section Commits

variable {typeOf : Bytes → T.Ty}

theorem commit_sound {root cur : CDBTransaction T} (hroot : root.Sound typeOf) (hcur : cur.Sound typeOf) :
    (cur.commit CEvoDBLevels.curTarget root).1.Sound typeOf := by
  refine List.foldlRecOn _ _ (List.foldlRecOn _ _ hroot fun _ h k _ => h.erase k.1) fun _ h e he => ?_
  exact h.write (hcur.typed (FinMap.mem_toList.mp he)) e.2.value

/-- A commit does to what is read of its parent, by `view`, what the transaction says of each key. -/
theorem view_commit {C : Type} (parent : CommitTarget T C) (view : C → FinMap Bytes Bytes)
    (herase : ∀ c key, view (parent.erase c key) = (view c).erase key)
    (hwrite : ∀ c key {t : T.Ty} (v : T.Val t), view (parent.write c key v) = (view c).insert key (T.serialize v))
    (tx : CDBTransaction T) (c : C) : view (tx.commit parent c).1 = tx.overriding (view c) := by
  rw [CDBTransaction.overriding, List.foldl_hom view fun c e => (herase c e.1).symm,
    List.foldl_hom view fun c e => (hwrite c e.1 e.2.value).symm]
  rfl

theorem writeBatch_commit (root : CDBTransaction T) (db : CDBWrapper) :
    (db.writeBatch (root.commit CEvoDBLevels.rootTarget {}).1).1.entries = root.overriding db.entries := by
  refine view_commit CEvoDBLevels.rootTarget (fun b => (db.writeBatch b).1.entries) (fun b key => ?_)
    (fun b key _ v => ?_) root {}
  · exact congrArg CDBWrapper.entries (List.foldl_concat _ _ _ _)
  · exact congrArg CDBWrapper.entries (List.foldl_concat _ _ _ _)

end Commits

namespace Refines

variable {typeOf : Bytes → T.Ty} {e : CEvoDBLevels T} {p : PlainStack}

theorem commitCurTransaction (h : Refines typeOf e p) :
    Refines typeOf ((CEvoDBLevels.ops typeOf).commitCurTransaction e)
      ((PlainStack.ops typeOf).commitCurTransaction p) := by
  have hsound := commit_sound h.soundRoot h.soundCur
  have hview := view_commit CEvoDBLevels.curTarget (fun tx => tx.overriding p.db)
    (fun tx => tx.overriding_erase p.db) (fun tx key _ => tx.overriding_write p.db key) e.curDBTransaction
    e.rootDBTransaction
  rw [h.root, h.cur] at hview
  have hclear := h.clear
  exact ⟨h.db, hview, e.curDBTransaction.overriding_clear p.cur, hclear.staged, h.batch, hsound, hclear.soundCur⟩

theorem commitRootTransaction (h : Refines typeOf e p) :
    Agree (fun r r' => Refines typeOf r.1 r'.1 ∧ r.2 = r'.2) ((CEvoDBLevels.ops typeOf).commitRootTransaction e)
      ((PlainStack.ops typeOf).commitRootTransaction p) := by
  show Agree _ e.commitRootTransaction _
  have hdb := writeBatch_commit e.rootDBTransaction e.db
  rw [h.db, h.root] at hdb
  have hstaged := h.staged
  unfold CEvoDBLevels.commitRootTransaction PlainStack.ops
  dsimp only
  cases hclean : e.curDBTransaction.isClean with
  | false =>
    rw [hclean] at hstaged
    rw [hstaged]
    exact .error _
  | true =>
    rw [hclean] at hstaged
    rw [hstaged, h.batch]
    refine .ok ⟨⟨hdb, e.rootDBTransaction.overriding_clear p.root, h.cur, ?_, rfl,
      CDBTransaction.Sound.clear e.rootDBTransaction, h.soundCur⟩, rfl⟩
    exact (congrArg not hclean).symm

end Refines

/-! ## Runs -/

section Runs

variable {typeOf : Bytes → T.Ty} {w : Session (CEvoDBLevels T)} {w' : Session PlainStack}

variable (typeOf w w') in
def SessionRefines : Prop :=
  w.committers = w'.committers ∧ Refines typeOf w.store w'.store

variable (h : SessionRefines typeOf w w')
include h

theorem SessionRefines.finish (i : Nat) {f : CEvoDBLevels T → CEvoDBLevels T}
    {f' : PlainStack → PlainStack} (hf : Refines typeOf (f w.store) (f' w'.store)) :
    Agree (SessionRefines typeOf) (w.finish i f) (w'.finish i f') := by
  have hc : w.committer i = w'.committer i := by
    rw [Session.committer, Session.committer, h.1]
  rw [Session.finish, Session.finish, hc]
  cases w'.committer i with
  | error fault => exact .error fault
  | ok c =>
    rw [ok_bind, ok_bind]
    cases hdone : c.didCommitOrRollback with
    | true => exact .error _
    | false => exact .ok ⟨by rw [h.1], hf⟩

theorem SessionRefines.destroy (i : Nat) :
    SessionRefines typeOf (w.destroy i CEvoDBLevels.rollbackCurTransaction) (w'.destroy i PlainStack.clear) := by
  unfold Session.destroy
  rw [h.1]
  split
  · rename_i c _
    refine ⟨rfl, ?_⟩
    cases c.didCommitOrRollback with
    | true => exact h.2
    | false => exact h.2.clear
  · exact h

/-- One call keeps the two sessions in step and returns the same. -/
theorem SessionRefines.step {op : Op T} (hop : op.Typed typeOf) :
    Agree (fun r r' => SessionRefines typeOf r.1 r'.1 ∧ r.2 = r'.2) ((CEvoDBLevels.ops typeOf).step w op)
      ((PlainStack.ops typeOf).step w' op) := by
  obtain ⟨hcommitters, hstore⟩ := h
  cases op with
  | write key t v => exact .ok ⟨⟨hcommitters, hstore.write hop v⟩, rfl⟩
  | erase key => exact .ok ⟨⟨hcommitters, hstore.erase key⟩, rfl⟩
  | read t key =>
    have ht : t = typeOf key := hop
    subst ht
    rw [StoreOps.step, StoreOps.step, hstore.read]
    exact .ok ⟨⟨hcommitters, hstore⟩, rfl⟩
  | contains key =>
    rw [StoreOps.step, StoreOps.step, hstore.contains]
    exact .ok ⟨⟨hcommitters, hstore⟩, rfl⟩
  | iterate moves =>
    rw [StoreOps.step, StoreOps.step, hstore.iterate]
    exact .ok ⟨⟨hcommitters, hstore⟩, rfl⟩
  | clear => exact .ok ⟨⟨hcommitters, hstore.clear⟩, rfl⟩
  | beginTransaction => exact .ok ⟨⟨by rw [hcommitters], hstore⟩, rfl⟩
  | commit i =>
    exact (SessionRefines.finish ⟨hcommitters, hstore⟩ i hstore.commitCurTransaction).bind fun _ _ hr => .ok ⟨hr, rfl⟩
  | rollback i =>
    exact (SessionRefines.finish ⟨hcommitters, hstore⟩ i hstore.clear).bind fun _ _ hr => .ok ⟨hr, rfl⟩
  | destroy i => exact .ok ⟨SessionRefines.destroy ⟨hcommitters, hstore⟩ i, rfl⟩
  | commitRootTransaction =>
    exact hstore.commitRootTransaction.bind fun _ _ hr => .ok ⟨⟨hcommitters, hr.1⟩, by rw [hr.2]⟩

end Runs

theorem refines_start (typeOf : Bytes → T.Ty) (content : FinMap Bytes Bytes) :
    Refines typeOf { db := ⟨content⟩ } { db := content, root := content, cur := content } where
  db := rfl
  root := CDBTransaction.overriding_clear {} content
  cur := CDBTransaction.overriding_clear {} content
  staged := (congrArg not (CDBTransaction.isClean_clear ({} : CDBTransaction T))).symm
  batch := rfl
  soundRoot := CDBTransaction.Sound.clear {}
  soundCur := CDBTransaction.Sound.clear {}

/-- What the levels of the code show after a run, and what they account for. -/
structure ShowsStack (e : CEvoDBLevels T) (p : PlainStack) : Prop where
  db : e.db.entries = p.db
  root : e.rootDBTransaction.overriding e.db.entries = p.root
  cur : e.curDBTransaction.overriding p.root = p.cur
  /-- a loop over all keys visits each once -/
  keys : e.keys = .ok p.keys
  increasing : Sorted p.keys
  rootUsage : (e.getMemoryUsage : Int) = e.rootDBTransaction.stagedUsage
  curUsage : (e.curDBTransaction.getMemoryUsage : Int) = e.curDBTransaction.stagedUsage

theorem Refines.shows {typeOf : Bytes → T.Ty} {e : CEvoDBLevels T} {p : PlainStack} (h : Refines typeOf e p) :
    ShowsStack e p where
  db := h.db
  root := h.db ▸ h.root
  cur := h.cur
  keys := h.keys
  increasing := FinMap.sorted_keys p.cur
  rootUsage := memoryUsage h.soundRoot
  curUsage := memoryUsage h.soundCur

/-- **The EvoDB is a stack of plain maps.** Whatever the database holds at first, every sequence of calls fails in the
same way on the code and on the stack, or shows the same on both, and then the levels of the code show the maps of the
stack and account for exactly what they stage. -/
theorem evodb_is_stack (T : ValueTypes) (typeOf : Bytes → T.Ty) (content : FinMap Bytes Bytes) (calls : List (Op T))
    (htyped : ∀ op ∈ calls, op.Typed typeOf) :
    Agree (fun r r' => r.2 = r'.2 ∧ r.1.committers = r'.1.committers ∧ ShowsStack r.1.store r'.1.store)
      ((CEvoDBLevels.ops typeOf).run calls { db := ⟨content⟩ })
      ((PlainStack.ops typeOf).run calls { db := content, root := content, cur := content }) := by
  have hrun : Agree (fun r r' => SessionRefines typeOf r.1 r'.1 ∧ r.2 = r'.2)
      ((CEvoDBLevels.ops typeOf).run calls { db := ⟨content⟩ })
      ((PlainStack.ops typeOf).run calls { db := content, root := content, cur := content }) := by
    refine Agree.foldlM (fun op hop r r' hr => ?_) ⟨⟨rfl, refines_start typeOf content⟩, rfl⟩
    refine (hr.1.step (htyped op hop)).bind fun s s' hs => .ok ⟨hs.1, ?_⟩
    rw [hr.2, hs.2]
  exact hrun.mono fun r r' h => ⟨h.2, h.1.1, h.1.2.shows⟩

def Sample.byteValues : ValueTypes where
  Ty := Unit
  decEq := inferInstance
  Val _ := Bytes
  serialize v := v
  unserialize _ b := some b
  roundTrip _ := rfl

/-- A key of the database is deleted and another is written, first for good and then without effect. -/
def Sample.evoCalls : List (Op Sample.byteValues) :=
  [.beginTransaction, .write [2] () [7], .erase [1], .iterate [.seekToFirst, .next, .next], .commit 0,
    .beginTransaction, .write [1] () [9], .read () [1], .rollback 1, .contains [1], .commitRootTransaction]

def Sample.evoContent : FinMap Bytes Bytes := (∅ : FinMap Bytes Bytes).insert [1] [5]

def Sample.evoSeen : List Observation :=
  [.none, .none, .none, .seen [some ([2], some [7]), none, none], .none, .none, .none, .value (some [9]), .none,
    .flag false, .flag true]

open Sample

theorem evodb_is_stack_calls : (∀ op ∈ evoCalls, op.Typed fun _ => ()) ∧
    ∃ r, (CEvoDBLevels.ops fun _ => ()).run evoCalls { db := ⟨evoContent⟩ } = .ok r ∧
      r.2 = evoSeen := by
  have htyped : ∀ op ∈ evoCalls, op.Typed fun _ => () := fun op _ => by cases op <;> first | rfl | trivial
  have hplain : Returns ((PlainStack.ops fun _ => ()).run evoCalls
      { db := evoContent, root := evoContent, cur := evoContent })
      (fun r => r.2 = evoSeen) := by
    decide +kernel
  obtain ⟨r', hrun', hseen⟩ := hplain.exists_ok
  obtain ⟨r, hrun, hsame, _⟩ :=
    (evodb_is_stack byteValues (fun _ => ()) evoContent evoCalls htyped).of_ok hrun'
  exact ⟨htyped, r, hrun, hsame.trans hseen⟩

/-! ## The keys of the list manager -/

/-- The keys `(DB_LIST_DIFF, hash)` and `(DB_LIST_SNAPSHOT, hash)`. -/
inductive EvoKey where
  | diff (hash : uint256)
  | snapshot (hash : uint256)
deriving DecidableEq

namespace EvoKey

/-- The serialized key, with the text `dmn_D` or `dmn_S` in front. -/
def bytes : EvoKey → Bytes
  | diff hash => [5, 0x64, 0x6d, 0x6e, 0x5f, 0x44] ++ (blob 32).write hash
  | snapshot hash => [5, 0x64, 0x6d, 0x6e, 0x5f, 0x53] ++ (blob 32).write hash

theorem bytes_injective : Function.Injective bytes := by
  intro a b h
  cases a <;> cases b <;> simp only [bytes, List.cons_append, List.nil_append, List.cons.injEq, true_and] at h
  · rw [(blob 32).write_injective trivial trivial h]
  · exact absurd h.1 (by decide)
  · exact absurd h.1 (by decide)
  · rw [(blob 32).write_injective trivial trivial h]

end EvoKey

section Manager

variable {D : Type} [Digest D] {order : MapOrder}

def EvoTable.get (t : EvoTable) : EvoKey → Option Bytes
  | .diff hash => t.diffs[hash]?
  | .snapshot hash => t.snapshots[hash]?

/-- What a transaction will write to the database under a key. -/
def EvoWrites.get (order : MapOrder) (w : EvoWrites D) : EvoKey → Option Bytes
  | .diff hash => (w.diffs[hash]?).map (·.serialize)
  | .snapshot hash => (w.snapshots[hash]?).map (·.serialize order)

/-- Under the keys of the manager the stack has what the manager's model of `CEvoDB` has. -/
structure CEvoDB.ShownBy (order : MapOrder) (e : CEvoDB D) (p : PlainStack) : Prop where
  db : ∀ k : EvoKey, p.db[k.bytes]? = e.db.get k
  root : ∀ k : EvoKey, p.root[k.bytes]? = (e.rootDBTransaction.get order k).or (e.db.get k)
  cur : ∀ k : EvoKey, p.cur[k.bytes]? =
    (e.curDBTransaction.get order k).or ((e.rootDBTransaction.get order k).or (e.db.get k))

namespace CEvoDB.ShownBy

variable {typeOf : Bytes → T.Ty} {e : CEvoDB D} {p : PlainStack} {hash : uint256}

theorem empty_get (k : EvoKey) : ({} : EvoWrites D).get order k = none := by
  cases k <;> simp [EvoWrites.get]

/-- The current level after `Write` of one key. -/
theorem cur_write (h : e.ShownBy order p) {key : EvoKey} {bs : Bytes} {w : EvoWrites D}
    (hw : ∀ k, w.get order k = if key = k then some bs else e.curDBTransaction.get order k) (k : EvoKey) :
    (p.cur.insert key.bytes bs)[k.bytes]? =
      (w.get order k).or ((e.rootDBTransaction.get order k).or (e.db.get k)) := by
  rw [FinMap.get_insert, hw]
  by_cases hk : key = k
  · rw [if_pos hk, if_pos (congrArg EvoKey.bytes hk), Option.some_or]
  · rw [if_neg hk, if_neg fun heq => hk (EvoKey.bytes_injective heq), h.cur]

theorem writeDiff (h : e.ShownBy order p) {diff : CDeterministicPNListDiff} {t : T.Ty} {v : T.Val t}
    (hv : T.serialize v = diff.serialize) :
    (e.writeDiff hash diff).ShownBy order ((PlainStack.ops typeOf).write p (EvoKey.diff hash).bytes v) :=
  ⟨h.db, h.root, h.cur_write fun k => by
    cases k <;> simp only [hv, CEvoDB.writeDiff, EvoWrites.get, FinMap.get_insert, EvoKey.diff.injEq, reduceCtorEq,
      if_false]
    split_ifs <;> rfl⟩

theorem writeSnapshot (h : e.ShownBy order p) {l : CDeterministicPNList D} {t : T.Ty} {v : T.Val t}
    (hv : T.serialize v = l.serialize order) :
    (e.writeSnapshot hash l).ShownBy order ((PlainStack.ops typeOf).write p (EvoKey.snapshot hash).bytes v) :=
  ⟨h.db, h.root, h.cur_write fun k => by
    cases k <;> simp only [hv, CEvoDB.writeSnapshot, EvoWrites.get, FinMap.get_insert, EvoKey.snapshot.injEq,
      reduceCtorEq, if_false]
    split_ifs <;> rfl⟩

theorem commitCurTransaction (h : e.ShownBy order p) :
    e.commitCurTransaction.ShownBy order ((PlainStack.ops typeOf).commitCurTransaction p) := by
  have hroot : ∀ k, e.commitCurTransaction.rootDBTransaction.get order k =
      (e.curDBTransaction.get order k).or (e.rootDBTransaction.get order k) := by
    intro k
    cases k <;> simp only [CEvoDB.commitCurTransaction, EvoWrites.get, Std.ExtTreeMap.getElem?_union, Option.map_or]
  have hcur : ∀ k : EvoKey, p.cur[k.bytes]? =
      (e.commitCurTransaction.rootDBTransaction.get order k).or (e.db.get k) := fun k => by
    rw [hroot, Option.or_assoc, h.cur]
  exact ⟨h.db, hcur, fun k => by
    rw [show e.commitCurTransaction.curDBTransaction = {} from rfl, empty_get, Option.none_or]
    exact hcur k⟩

theorem rollbackCurTransaction (h : e.ShownBy order p) :
    e.rollbackCurTransaction.ShownBy order ((PlainStack.ops typeOf).rollbackCurTransaction p) :=
  ⟨h.db, h.root, fun k => by
    rw [show e.rollbackCurTransaction.curDBTransaction = {} from rfl, empty_get, Option.none_or]
    exact h.root k⟩

theorem commitRootTransaction (h : e.ShownBy order p) {r : PlainStack × Bool}
    (hr : (PlainStack.ops typeOf).commitRootTransaction p = .ok r) :
    (e.commitRootTransaction order).ShownBy order r.1 := by
  obtain ⟨-, -, hr⟩ := bind_eq_ok.mp hr
  cases hr
  have hdb : ∀ k, (e.commitRootTransaction order).db.get k =
      (e.rootDBTransaction.get order k).or (e.db.get k) := by
    intro k
    cases k <;> simp only [CEvoDB.commitRootTransaction, EvoTable.get, EvoWrites.get, Std.ExtTreeMap.getElem?_union,
      Std.ExtTreeMap.getElem?_map]
  refine ⟨fun k => ?_, fun k => ?_, fun k => ?_⟩
  · rw [hdb, ← h.root]
  · rw [show (e.commitRootTransaction order).rootDBTransaction = {} from rfl, empty_get, Option.none_or, hdb, ← h.root]
  · rw [show (e.commitRootTransaction order).rootDBTransaction = {} from rfl, empty_get, Option.none_or, hdb]
    exact h.cur k

/-- A difference that survives its serialization is read as if it were read back from its bytes. -/
theorem readDiff (h : e.ShownBy order p)
    (hstaged : ∀ d, e.curDBTransaction.diffs[hash]?.or e.rootDBTransaction.diffs[hash]? = some d →
      readValue (CDeterministicPNListDiff.unserialize d.serialize) = .ok (some d)) :
    e.readDiff hash = (p.cur[(EvoKey.diff hash).bytes]?).elim (.ok none)
      fun bs => readValue (CDeterministicPNListDiff.unserialize bs) := by
  rw [h.cur, ← Option.or_assoc]
  simp only [CEvoDB.readDiff, EvoWrites.get, EvoTable.get, ← Option.map_or]
  cases hst : e.curDBTransaction.diffs[hash]?.or e.rootDBTransaction.diffs[hash]? with
  | some d => exact (hstaged d hst).symm
  | none => cases e.db.diffs[hash]? <;> rfl

theorem readSnapshot (h : e.ShownBy order p)
    (hstaged : ∀ l, e.curDBTransaction.snapshots[hash]?.or e.rootDBTransaction.snapshots[hash]? = some l →
      readValue (CDeterministicPNList.unserialize D (l.serialize order)) = .ok (some l)) :
    e.readSnapshot hash = (p.cur[(EvoKey.snapshot hash).bytes]?).elim (.ok none)
      fun bs => readValue (CDeterministicPNList.unserialize D bs) := by
  rw [h.cur, ← Option.or_assoc]
  simp only [CEvoDB.readSnapshot, EvoWrites.get, EvoTable.get, ← Option.map_or]
  cases hst : e.curDBTransaction.snapshots[hash]?.or e.rootDBTransaction.snapshots[hash]? with
  | some l => exact (hstaged l hst).symm
  | none => cases e.db.snapshots[hash]? <;> rfl

end CEvoDB.ShownBy

end Manager

end TrumpCoin
