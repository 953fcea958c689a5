import TrumpCoin.Lib.FinMap

/-!
# Items with an index by tag

Items are kept under their key, and an index leads from the tag of an item to its key. Adding an item never replaces
an entry of either map, and an item that is swept out takes the entry of its tag along.

* `Exact`: the index is the inverse of the tags;
* `exact_add_iff`: adding an item keeps the index exact exactly if no other item has its tag;
* `Exact.sweep`, `Exact.removeTag`: the other updates keep it exact.
-/

namespace Lib

structure TagIndexed (K T I : Type) [Ord K] [Ord T] where
  items : FinMap K I := ∅
  index : FinMap T K := ∅

namespace TagIndexed

variable {K T I : Type} [Ord K] [Std.TransOrd K] [Ord T] [Std.TransOrd T]
variable (keyOf : I → K) (tagOf : I → T) (F : TagIndexed K T I)

/-- An item is added under its key and its tag. -/
def add (i : I) : TagIndexed K T I where
  items := F.items.emplace (keyOf i) i
  index := F.index.emplace (tagOf i) (keyOf i)

/-- One item of a sweep: it is kept, or the entry of its tag is dropped. -/
def sweepStep (keep : I → Bool) (F : TagIndexed K T I) (e : K × I) : TagIndexed K T I :=
  if keep e.2 then { F with items := F.items.emplace (keyOf e.2) e.2 }
  else { F with index := F.index.erase (tagOf e.2) }

/-- The items are replaced by those that are kept. -/
def sweep (keep : I → Bool) : TagIndexed K T I :=
  F.items.toList.foldl (sweepStep keyOf tagOf keep) { F with items := ∅ }

/-- The item that the index gives for a tag is removed, and the entry of the tag. -/
def removeTag (t : T) : TagIndexed K T I :=
  match F.index[t]? with
  | none => F
  | some k => { items := F.items.erase k, index := F.index.erase t }

/-- Every item is kept under its key. -/
def Keyed : Prop := ∀ (k : K) i, F.items[k]? = some i → keyOf i = k

def HasTag (t : T) : Prop := ∃ (k : K) (i : I), F.items[k]? = some i ∧ tagOf i = t

/-- The index is exactly the inverse of the tags of the items. -/
def Exact : Prop := ∀ (t : T) (k : K), F.index[t]? = some k ↔ ∃ i, F.items[k]? = some i ∧ tagOf i = t

variable {keyOf tagOf F}

omit [Std.TransOrd T] in
theorem not_hasTag_empty (t : T) : ¬HasTag tagOf ({} : TagIndexed K T I) t := by
  rintro ⟨k, i, h, -⟩
  rw [FinMap.get_empty] at h
  cases h

theorem exact_empty : Exact tagOf ({} : TagIndexed K T I) := by
  intro t k
  rw [FinMap.get_empty, FinMap.get_empty]
  simp

variable {t : T} {i : I}

theorem Exact.hasTag_iff (h : Exact tagOf F) : HasTag tagOf F t ↔ ∃ k, F.index[t]? = some k :=
  exists_congr fun k => (h t k).symm

/-! ## Adding an item -/

variable [Std.LawfulEqOrd K]

theorem items_add (tagOf : I → T) {i j : I} {k : K} (hnew : F.items[keyOf i]? = none) :
    (F.add keyOf tagOf i).items[k]? = some j ↔ F.items[k]? = some j ∨ k = keyOf i ∧ j = i := by
  rw [add, FinMap.get_emplace]
  refine or_congr_right ⟨fun h => h.2, fun h => ⟨?_, h⟩⟩
  rw [h.1, hnew]

theorem Keyed.add (h : Keyed keyOf F) (i : I) : Keyed keyOf (F.add keyOf tagOf i) := by
  intro k j hj
  rw [TagIndexed.add, FinMap.get_emplace] at hj
  rcases hj with hj | ⟨-, rfl, rfl⟩
  · exact h k j hj
  · rfl

theorem hasTag_add (hnew : F.items[keyOf i]? = none) :
    HasTag tagOf (F.add keyOf tagOf i) t ↔ HasTag tagOf F t ∨ tagOf i = t := by
  unfold HasTag
  simp only [items_add _ hnew]
  grind

variable [Std.LawfulEqOrd T]

/-- **Adding an item** keeps an exact index exact if and only if its tag is new. -/
theorem exact_add_iff (h : Exact tagOf F) (hnew : F.items[keyOf i]? = none) :
    Exact tagOf (F.add keyOf tagOf i) ↔ ¬HasTag tagOf F (tagOf i) := by
  constructor
  · rintro hadd ⟨k, j, hj, ht⟩
    have hold := (hadd (tagOf i) k).mpr ⟨j, (items_add _ hnew).mpr (.inl hj), ht⟩
    have hown := (hadd (tagOf i) (keyOf i)).mpr ⟨i, (items_add _ hnew).mpr (.inr ⟨rfl, rfl⟩), rfl⟩
    rw [hold] at hown
    rw [Option.some.inj hown, hnew] at hj
    cases hj
  · intro hfresh t k
    have hnone : F.index[tagOf i]? = none := by
      cases hidx : F.index[tagOf i]? with
      | none => rfl
      | some k => exact (hfresh (h.hasTag_iff.mpr ⟨k, hidx⟩)).elim
    rw [TagIndexed.add, FinMap.get_emplace]
    constructor
    · rintro (hk | ⟨-, rfl, rfl⟩)
      · obtain ⟨j, hj, ht⟩ := (h t k).mp hk
        exact ⟨j, (items_add tagOf hnew).mpr (.inl hj), ht⟩
      · exact ⟨i, (items_add tagOf hnew).mpr (.inr ⟨rfl, rfl⟩), rfl⟩
    · rintro ⟨j, hj, rfl⟩
      rcases (items_add tagOf hnew).mp hj with hj | ⟨rfl, rfl⟩
      · exact .inl ((h _ k).mpr ⟨j, hj, rfl⟩)
      · exact .inr ⟨hnone, rfl, rfl⟩

/-! ## Sweeping -/

section Sweep

variable {keep : I → Bool}

omit [Std.LawfulEqOrd K] [Std.LawfulEqOrd T] in
theorem items_foldl_sweepStep : ∀ {es : List (K × I)} {F : TagIndexed K T I}, (∀ e ∈ es, keyOf e.2 = e.1) →
    (es.foldl (sweepStep keyOf tagOf keep) F).items = FinMap.emplaceAll (es.filter fun e => keep e.2) F.items
  | [], _, _ => rfl
  | e :: es, F, hkeyed => by
    rw [List.forall_mem_cons] at hkeyed
    rw [List.foldl_cons, items_foldl_sweepStep hkeyed.2, List.filter_cons, sweepStep]
    split
    · rw [hkeyed.1]
      rfl
    · rfl

omit [Std.LawfulEqOrd K] in
/-- The index after a sweep: the tags of the dropped items are gone. -/
theorem index_foldl_sweepStep {t : T} {k : K} : ∀ {es : List (K × I)} {F : TagIndexed K T I},
    (es.foldl (sweepStep keyOf tagOf keep) F).index[t]? = some k ↔
      F.index[t]? = some k ∧ ∀ e ∈ es, keep e.2 = false → tagOf e.2 ≠ t
  | [], _ => by simp
  | e :: es, F => by
    classical
    rw [List.foldl_cons, index_foldl_sweepStep, List.forall_mem_cons, sweepStep]
    cases hkeep : keep e.2 with
    | true => simp
    | false =>
      simp only [Bool.false_eq_true, if_false, FinMap.get_erase]
      by_cases ht : tagOf e.2 = t
      · simp [ht]
      · simp [ht]

omit [Std.LawfulEqOrd T] in
theorem items_sweep (h : Keyed keyOf F) {k : K} {i : I} :
    (F.sweep keyOf tagOf keep).items[k]? = some i ↔ F.items[k]? = some i ∧ keep i = true := by
  have hnodup : ((F.items.toList.filter fun e => keep e.2).map Prod.fst).Nodup :=
    (FinMap.nodup_keys _).sublist (List.filter_sublist.map _)
  rw [sweep, items_foldl_sweepStep fun e he => h e.1 e.2 (FinMap.mem_toList.mp he), FinMap.get_emplaceAll hnodup,
    FinMap.get_empty, List.mem_filter, FinMap.mem_toList]
  simp

omit [Std.LawfulEqOrd T] in
theorem Keyed.sweep (h : Keyed keyOf F) : Keyed keyOf (F.sweep keyOf tagOf keep) :=
  fun k i hi => h k i ((items_sweep h).mp hi).1

omit [Std.LawfulEqOrd T] in
theorem hasTag_of_sweep (h : Keyed keyOf F) {t : T} (ht : HasTag tagOf (F.sweep keyOf tagOf keep) t) :
    HasTag tagOf F t := by
  obtain ⟨k, i, hi, ht⟩ := ht
  exact ⟨k, i, ((items_sweep h).mp hi).1, ht⟩

theorem Exact.sweep (h : Exact tagOf F) (hkeyed : Keyed keyOf F) : Exact tagOf (F.sweep keyOf tagOf keep) := by
  intro t k
  rw [TagIndexed.sweep, index_foldl_sweepStep]
  constructor
  · rintro ⟨hk, hdropped⟩
    obtain ⟨i, hi, ht⟩ := (h t k).mp hk
    have hkeep : keep i = true := by
      by_contra hno
      exact hdropped (k, i) (FinMap.mem_toList.mpr hi) (by simpa using hno) ht
    exact ⟨i, (items_sweep hkeyed).mpr ⟨hi, hkeep⟩, ht⟩
  · rintro ⟨i, hi, rfl⟩
    obtain ⟨hi, hkeep⟩ := (items_sweep hkeyed).mp hi
    have hk := (h _ k).mpr ⟨i, hi, rfl⟩
    refine ⟨hk, fun e he hdrop htag => ?_⟩
    -- the index gives one key for the tag, so the dropped item would be the kept one
    have hk' := (h _ e.1).mpr ⟨e.2, FinMap.mem_toList.mp he, htag⟩
    rw [hk] at hk'
    have hei := FinMap.mem_toList.mp he
    rw [← Option.some.inj hk', hi] at hei
    rw [← Option.some.inj hei, hkeep] at hdrop
    cases hdrop

end Sweep

/-! ## Removing a tag -/

omit [Std.LawfulEqOrd T] in
theorem Keyed.removeTag (h : Keyed keyOf F) (t : T) : Keyed keyOf (F.removeTag t) := by
  unfold TagIndexed.removeTag
  split
  · exact h
  · exact FinMap.forall_erase h

omit [Std.LawfulEqOrd T] in
theorem Exact.items_removeTag (h : Exact tagOf F) {k : K} :
    (F.removeTag t).items[k]? = some i ↔ F.items[k]? = some i ∧ tagOf i ≠ t := by
  classical
  unfold TagIndexed.removeTag
  cases hidx : F.index[t]? with
  | none =>
    refine ⟨fun hi => ⟨hi, fun ht => ?_⟩, fun hi => hi.1⟩
    rw [(h t k).mpr ⟨i, hi, ht⟩] at hidx
    cases hidx
  | some k' =>
    rw [FinMap.get_erase]
    split
    · rename_i hk
      subst hk
      obtain ⟨j, hj, ht⟩ := (h t k').mp hidx
      rw [hj]
      simp only [reduceCtorEq, false_iff, not_and, ne_eq, not_not, Option.some.injEq]
      rintro rfl
      exact ht
    · rename_i hk
      refine ⟨fun hi => ⟨hi, fun ht => hk ?_⟩, fun hi => hi.1⟩
      rw [(h t k).mpr ⟨i, hi, ht⟩] at hidx
      exact (Option.some.inj hidx).symm

omit [Std.LawfulEqOrd T] in
theorem Exact.hasTag_removeTag (h : Exact tagOf F) {t t' : T} :
    HasTag tagOf (F.removeTag t) t' ↔ HasTag tagOf F t' ∧ t' ≠ t := by
  unfold HasTag
  simp only [h.items_removeTag]
  grind

theorem Exact.removeTag (h : Exact tagOf F) (t : T) : Exact tagOf (F.removeTag t) := by
  classical
  intro t' k
  simp only [h.items_removeTag]
  have hindex : (F.removeTag t).index[t']? = some k ↔ F.index[t']? = some k ∧ t' ≠ t := by
    unfold TagIndexed.removeTag
    cases hidx : F.index[t]? with
    | none =>
      refine ⟨fun hk => ⟨hk, ?_⟩, fun hk => hk.1⟩
      rintro rfl
      rw [hidx] at hk
      cases hk
    | some k' =>
      rw [FinMap.get_erase]
      split_ifs with ht
      · simp [ht]
      · exact ⟨fun hk => ⟨hk, Ne.symm ht⟩, fun hk => hk.1⟩
  rw [hindex, h t' k]
  grind

end TagIndexed

end Lib
