import TrumpCoin.Consensus

/-!
# The rolling bloom filter

`CRollingBloomFilter` of `bloom.cpp`. A key is inserted by putting the number of the generation into its cells; a new
generation takes the number of the oldest one and wipes its cells. `Recent` says what the cells of a key hold, by the
number of keys inserted since.

* `rolling_filter_remembers_iff`: when a filter has the last keys.
-/

namespace TrumpCoin

open Lib

/-- What a filter is made with besides `nElements`: the tweak, and the numbers of hash functions and of cells, which are
computed in floating point. -/
structure FilterEnv where
  nTweak : BitVec 32
  nHashFuncs : Nat
  nHashFuncs_pos : 1 ≤ nHashFuncs
  nFilterBits : BitVec 32 → BitVec 32
  nFilterBits_zero : nFilterBits 0 = 0
  murmurHash3 : BitVec 32 → Bytes → BitVec 32

/-- What changes in a filter; `get` are the pairs of bits of `data`. -/
structure CRollingBloomFilter where
  nEntriesThisGeneration : Nat := 0
  nGeneration : Nat := 1
  get : Nat → Nat := fun _ => 0

namespace CRollingBloomFilter

variable (E : FilterEnv) (nElements : BitVec 32)

def nEntriesPerGeneration : Nat := ((nElements + 1) / 2).toNat

def dataSize : Nat := ((E.nFilterBits (BitVec.ofNat 32 (nEntriesPerGeneration nElements * 3)) + 15) / 16).toNat

/-- The cell of a key for a hash function. -/
def cell (nHashNum : Nat) (vDataToHash : Bytes) : Nat :=
  (E.murmurHash3 (BitVec.ofNat 32 nHashNum * 0xFBA4C795 + E.nTweak) vDataToHash).toNat % (dataSize E nElements * 16)

/-- A division by zero stops the process, as a failed assertion does. -/
def hash (nHashNum : Nat) (vDataToHash : Bytes) : Result Nat := do
  require (.assertFailure "CRollingBloomFilter::Hash: % 0") (dataSize E nElements ≠ 0)
  return cell E nElements nHashNum vDataToHash

variable (f : CRollingBloomFilter)

def put (position val : Nat) : CRollingBloomFilter :=
  { f with get := Function.update f.get position val }

def next (nGeneration : Nat) : Nat := if nGeneration + 1 = 4 then 1 else nGeneration + 1

/-- The start of a generation. -/
def turn : CRollingBloomFilter where
  nGeneration := next f.nGeneration
  get p := if f.get p = next f.nGeneration then 0 else f.get p

def insert (vKey : Bytes) : Result CRollingBloomFilter :=
  let f := if f.nEntriesThisGeneration = nEntriesPerGeneration nElements then f.turn else f
  (List.range E.nHashFuncs).foldlM (fun f n => do return f.put (← hash E nElements n vKey) f.nGeneration)
    { f with nEntriesThisGeneration := f.nEntriesThisGeneration + 1 }

def contains (vKey : Bytes) : Result Bool :=
  (List.range E.nHashFuncs).allM fun n => do return f.get (← hash E nElements n vKey) ≠ 0

/-- What the cells of the keys hold, newest first. -/
structure Recent (f : CRollingBloomFilter) (keys : List Bytes) : Prop where
  generation : f.nGeneration = 1 ∨ f.nGeneration = 2 ∨ f.nGeneration = 3
  age : ∀ {i key n}, keys[i]? = some key → n < E.nHashFuncs →
    (i < f.nEntriesThisGeneration → f.get (cell E nElements n key) = f.nGeneration) ∧
    (i < f.nEntriesThisGeneration + nEntriesPerGeneration nElements →
      f.get (cell E nElements n key) ≠ 0 ∧ f.get (cell E nElements n key) ≠ next f.nGeneration) ∧
    (i < f.nEntriesThisGeneration + 2 * nEntriesPerGeneration nElements → f.get (cell E nElements n key) ≠ 0)

variable {E nElements} {f : CRollingBloomFilter} {keys : List Bytes} {vKey : Bytes}

theorem Recent.turn (h : Recent E nElements f keys)
    (hfull : f.nEntriesThisGeneration = nEntriesPerGeneration nElements) : Recent E nElements f.turn keys := by
  have hg := h.generation
  refine ⟨?_, fun hkey hn => ?_⟩
  · simp only [CRollingBloomFilter.turn, next]
    split_ifs <;> omega
  · have hage := h.age hkey hn
    simp only [CRollingBloomFilter.turn, next] at hage ⊢
    split_ifs at hage ⊢ <;> omega

/-- The size of the data wraps to zero with the number of entries in a generation. -/
theorem le_of_dataSize (h : dataSize E nElements ≠ 0) : nElements.toNat ≤ 2 * nEntriesPerGeneration nElements := by
  have hentries : nEntriesPerGeneration nElements = (nElements.toNat + 1) % 2 ^ 32 / 2 := by
    simp [nEntriesPerGeneration, BitVec.toNat_udiv, BitVec.toNat_add]
  by_contra hlt
  obtain hzero : nEntriesPerGeneration nElements = 0 := by omega
  rw [dataSize, hzero, Nat.zero_mul, show BitVec.ofNat 32 0 = 0 from rfl, E.nFilterBits_zero] at h
  exact h rfl

variable (hsize : dataSize E nElements ≠ 0)
include hsize

theorem hash_eq (n : Nat) (vKey : Bytes) : hash E nElements n vKey = .ok (cell E nElements n vKey) := by
  rw [hash, require_pos hsize]
  rfl

theorem foldlM_put (vKey : Bytes) (ns : List Nat) (f : CRollingBloomFilter) :
    ns.foldlM (fun f n => do return f.put (← hash E nElements n vKey) f.nGeneration) f =
      .ok { f with get := fun p => if p ∈ ns.map (cell E nElements · vKey) then f.nGeneration else f.get p } := by
  induction ns generalizing f with
  | nil => simp; rfl
  | cons n ns ih =>
    rw [List.foldlM_cons, hash_eq hsize]
    refine (ih _).trans ?_
    congr 2
    funext p
    simp only [put, Function.update_apply, List.map_cons, List.mem_cons]
    by_cases hp : p ∈ ns.map (cell E nElements · vKey)
    · rw [if_pos hp, if_pos (.inr hp)]
    · simp only [hp, if_false, or_false]

theorem Recent.insert (h : Recent E nElements f keys) (vKey : Bytes) :
    Returns (f.insert E nElements vKey) (Recent E nElements · (vKey :: keys)) := by
  unfold CRollingBloomFilter.insert
  dsimp only
  generalize hturned : (if f.nEntriesThisGeneration = _ then f.turn else f) = g
  have hg : Recent E nElements g keys := by
    subst hturned
    split_ifs with hfull
    · exact h.turn hfull
    · exact h
  rw [foldlM_put hsize]
  refine ⟨hg.generation, fun {i key n} hkey hn => ?_⟩
  have hgen := hg.generation
  dsimp only
  split_ifs with hcell
  · simp only [next, implies_true, true_and]
    split_ifs <;> omega
  · cases i with
    | zero =>
      cases hkey
      exact (hcell (List.mem_map_of_mem (List.mem_range.mpr hn))).elim
    | succ i =>
      have hage := hg.age hkey hn
      omega

theorem Recent.contains (h : Recent E nElements f keys) {i : Nat} (hkey : keys[i]? = some vKey)
    (hi : i < nElements.toNat) : f.contains E nElements vKey = .ok true := by
  have hall : ∀ l : List Nat, (∀ n ∈ l, n < E.nHashFuncs) →
      (l.allM fun n => do return decide (f.get (← hash E nElements n vKey) ≠ 0)) = .ok true := by
    intro l hl
    induction l with
    | nil => rfl
    | cons n l ih =>
      rw [List.forall_mem_cons] at hl
      have hcell := (h.age hkey hl.1).2.2 (by have := le_of_dataSize hsize; omega)
      rw [List.allM, hash_eq hsize]
      simpa [hcell] using ih hl.2
  exact hall _ fun n => List.mem_range.mp

end CRollingBloomFilter

open CRollingBloomFilter

/-- **The last keys.** Every insertion succeeds and the filter has the last `nElements` keys, whatever is inserted,
exactly if the data is not empty. -/
theorem rolling_filter_remembers_iff (E : FilterEnv) (nElements : BitVec 32) :
    (∀ keys : List Bytes, ∃ f : CRollingBloomFilter, keys.foldlM (CRollingBloomFilter.insert E nElements) {} = .ok f ∧
      ∀ vKey ∈ keys.reverse.take nElements.toNat, f.contains E nElements vKey = .ok true) ↔
      dataSize E nElements ≠ 0 := by
  constructor
  · intro hall hsize
    obtain ⟨f, hrun, -⟩ := hall [[]]
    obtain ⟨m, hm⟩ : ∃ m, E.nHashFuncs = m + 1 := ⟨_, (Nat.sub_add_cancel E.nHashFuncs_pos).symm⟩
    simp [CRollingBloomFilter.insert, hm, List.range_succ_eq_map, CRollingBloomFilter.hash, Lib.require, hsize] at hrun
  · intro hsize keys
    have hrun : Returns (keys.foldlM (CRollingBloomFilter.insert E nElements) {})
        (Recent E nElements · keys.reverse) := by
      refine Outcome.foldlM (I := fun pre f => Recent E nElements f pre.reverse) (fun pre vKey post f _ hf => ?_)
        ⟨.inl rfl, fun hkey => by simp at hkey⟩
      rw [List.reverse_append]
      exact hf.insert hsize vKey
    obtain ⟨f, hok, hf⟩ := hrun.exists_ok
    refine ⟨f, hok, fun vKey hkey => ?_⟩
    obtain ⟨i, hi⟩ := List.mem_iff_getElem?.mp hkey
    rw [List.getElem?_take] at hi
    split_ifs at hi with hlt
    exact hf.contains hsize hi hlt

def Sample.filterEnv : FilterEnv := ⟨0, 1, le_rfl, (10 * ·), rfl, fun _ _ => 0⟩

/-- The number of entries in a generation wraps to zero, and the first insertion divides by zero. -/
theorem largest_filter_stops : CRollingBloomFilter.insert Sample.filterEnv 0xffffffff {} [] =
    .error (.assertFailure "CRollingBloomFilter::Hash: % 0") := rfl

end TrumpCoin
