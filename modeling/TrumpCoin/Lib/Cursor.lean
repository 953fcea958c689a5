import TrumpCoin.Lib.Fallible
import TrumpCoin.Lib.FinMap

/-!
# Sorted keys and cursors over them

The keys of an ordered store form a strictly increasing list, which its elements determine. A `Cursor` is what a loop
over such a store calls; `Cursor.Walks` says that it walks through a given list of keys, in terms of the
keys it still has ahead of it.

* `Sorted.dropWhile`: where a search for the first key from `k` on ends;
* `Cursor.Walks`: the laws of a cursor, with `ahead` as what remains;
* `Cursor.Walks.collect`: the loop over all keys returns them in order.
-/

namespace Lib

variable {K : Type} [Ord K]

/-! ## Strictly increasing lists -/

/-- Every key is less than the ones after it. -/
def Sorted (l : List K) : Prop := l.Pairwise fun a b => compare a b = .lt

theorem sorted_nil : Sorted ([] : List K) := List.Pairwise.nil

variable {l : List K} {k a : K}

theorem sorted_cons {k : K} : Sorted (k :: l) ↔ (∀ a ∈ l, compare k a = .lt) ∧ Sorted l :=
  List.pairwise_cons

theorem Sorted.head_eq (h : Sorted (k :: l)) (ha : a ∈ k :: l) (hmin : compare k a ≠ .lt) : a = k :=
  (List.mem_cons.mp ha).resolve_right fun hl => hmin ((sorted_cons.mp h).1 a hl)

variable [Std.TransOrd K]

theorem FinMap.sorted_keys {V : Type} (m : FinMap K V) : Sorted (m.toList.map Prod.fst) := by
  rw [Sorted, List.pairwise_map]
  exact m.ordered_keys_toList

theorem compare_irrefl {a : K} : compare a a ≠ .lt := by
  rw [Std.ReflOrd.compare_self]
  exact fun h => (by cases h)

theorem Sorted.nodup (h : Sorted l) : l.Nodup := by
  refine List.Pairwise.imp ?_ h
  rintro a b hlt rfl
  exact compare_irrefl hlt

theorem Sorted.not_lt_head (h : Sorted (k :: l)) (ha : a ∈ k :: l) : compare a k ≠ .lt := by
  rcases List.mem_cons.mp ha with rfl | hl
  · exact compare_irrefl
  · exact fun hlt => compare_irrefl (Std.TransCmp.lt_trans ((sorted_cons.mp h).1 a hl) hlt)

theorem Sorted.mem_tail_iff (h : Sorted (k :: l)) : a ∈ l ↔ a ∈ k :: l ∧ a ≠ k := by
  rw [List.mem_cons]
  constructor
  · intro hl
    exact ⟨.inr hl, fun hk => (List.nodup_cons.mp h.nodup).1 (hk ▸ hl)⟩
  · rintro ⟨hor, hne⟩
    exact hor.resolve_left hne

theorem Sorted.dropWhile (h : Sorted l) (k : K) :
    Sorted (l.dropWhile fun a => compare a k = .lt) ∧
      ∀ a, (a ∈ l.dropWhile fun a => compare a k = .lt) ↔ a ∈ l ∧ compare a k ≠ .lt := by
  induction l with
  | nil => exact ⟨sorted_nil, fun a => by simp⟩
  | cons b l ih =>
    rw [sorted_cons] at h
    by_cases hb : compare b k = .lt
    · rw [List.dropWhile_cons_of_pos (by simpa using hb)]
      refine ⟨(ih h.2).1, fun a => ((ih h.2).2 a).trans ?_⟩
      rw [List.mem_cons]
      exact ⟨fun ha => ⟨.inr ha.1, ha.2⟩, fun ha => ⟨ha.1.resolve_left fun he => ha.2 (he ▸ hb), ha.2⟩⟩
    · rw [List.dropWhile_cons_of_neg (by simpa using hb)]
      refine ⟨sorted_cons.mpr h, fun a => ⟨fun ha => ⟨ha, ?_⟩, And.left⟩⟩
      rcases List.mem_cons.mp ha with rfl | hl
      · exact hb
      · exact fun hlt => hb (Std.TransCmp.lt_trans (h.1 a hl) hlt)

/-! ## Cursors -/

variable {ε I : Type}

/-- What a loop over an ordered store calls. -/
structure Cursor (ε K I : Type) where
  valid : I → Bool
  key : I → K
  seekToFirst : I → Except ε I
  seek : K → I → Except ε I
  next : I → Except ε I
  /-- no fewer steps than there are keys ahead: what bounds a loop over the cursor -/
  left : I → Nat

namespace Cursor

/-- The cursor walks through `all`, with `ahead it` the keys from its position on. -/
structure Walks (c : Cursor ε K I) (all : List K) (ahead : I → List K → Prop) : Prop where
  sorted : ∀ {it ks}, ahead it ks → Sorted ks
  valid : ∀ {it ks}, ahead it ks → c.valid it = !ks.isEmpty
  key : ∀ {it k ks}, ahead it (k :: ks) → c.key it = k
  next : ∀ {it k ks}, ahead it (k :: ks) → ∃ it', c.next it = .ok it' ∧ ahead it' ks
  seekToFirst : ∀ {it ks}, ahead it ks → ∃ it', c.seekToFirst it = .ok it' ∧ ahead it' all
  seek : ∀ {it ks} (k : K), ahead it ks →
    ∃ it', c.seek k it = .ok it' ∧ ahead it' (all.dropWhile fun a => compare a k = .lt)
  left : ∀ {it ks}, ahead it ks → ks.length ≤ c.left it

/-- The keys from a cursor's position on: `for (; it->Valid(); it->Next())`. -/
def collect (c : Cursor ε K I) : Nat → I → Except ε (List K)
  | 0, _ => .ok []
  | fuel + 1, it => if c.valid it then do return c.key it :: (← c.collect fuel (← c.next it)) else .ok []

omit [Std.TransOrd K] in
theorem Walks.collect {c : Cursor ε K I} {all : List K} {ahead : I → List K → Prop} (h : c.Walks all ahead) :
    ∀ {ks : List K} {fuel : Nat} {it : I}, ahead it ks → ks.length ≤ fuel → c.collect fuel it = .ok ks
  | [], 0, _, _, _ => rfl
  | [], fuel + 1, it, hit, _ => by
    rw [Cursor.collect, h.valid hit]
    rfl
  | k :: ks, fuel + 1, it, hit, hfuel => by
    obtain ⟨it', hnext, hit'⟩ := h.next hit
    rw [Cursor.collect, h.valid hit, if_pos (show (!(k :: ks).isEmpty) = true from rfl), hnext, ok_bind,
      h.collect hit' (Nat.le_of_succ_le_succ hfuel), h.key hit]
    rfl

end Cursor

end Lib
