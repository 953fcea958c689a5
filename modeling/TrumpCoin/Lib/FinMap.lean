import Mathlib.Algebra.BigOperators.Group.List.Basic
import Mathlib.Algebra.Order.Ring.Int
import Mathlib.Data.Multiset.Count

/-!
# Finite maps

A finite map is a `Std.ExtTreeMap`: two maps with the same lookups are equal, so an invariant that
fixes every lookup fixes the map. The lemmas here state lookups with `=` on keys and relate the map to
the list of its entries, which is what loops and sums over a map see.
-/

namespace Lib

/-- A finite map over an ordered key type. -/
abbrev FinMap (K V : Type) [Ord K] := Std.ExtTreeMap K V compare

namespace FinMap

variable {K V : Type} [Ord K] [Std.TransOrd K] [Std.LawfulEqOrd K]

theorem ext_get {m m' : FinMap K V} (h : ∀ k : K, m[k]? = m'[k]?) : m = m' :=
  Std.ExtTreeMap.ext_getElem? h

omit [Std.LawfulEqOrd K] in
@[simp] theorem get_empty (k : K) : (∅ : FinMap K V)[k]? = none := by simp

variable (m : FinMap K V)

theorem get_insert [DecidableEq K] (k a : K) (v : V) : (m.insert k v)[a]? = if k = a then some v else m[a]? := by
  rw [Std.ExtTreeMap.getElem?_insert]
  simp only [Std.compare_eq_iff_eq]

theorem get_erase [DecidableEq K] (k a : K) : (m.erase k)[a]? = if k = a then none else m[a]? := by
  rw [Std.ExtTreeMap.getElem?_erase]
  simp only [Std.compare_eq_iff_eq]

@[simp] theorem get_insert_self (k : K) (v : V) : (m.insert k v)[k]? = some v := by
  simp

theorem get_insert_ne {k a : K} (v : V) (h : k ≠ a) : (m.insert k v)[a]? = m[a]? := by
  classical rw [get_insert, if_neg h]

@[simp] theorem get_erase_self (k : K) : (m.erase k)[k]? = none := by simp

theorem get_erase_ne {k a : K} (h : k ≠ a) : (m.erase k)[a]? = m[a]? := by
  classical rw [get_erase, if_neg h]

variable {m : FinMap K V} {k : K} {v : V} {α : Type} {P : K → V → Prop}

omit [Std.LawfulEqOrd K] in
theorem forall_empty : ∀ (a : K) w, (∅ : FinMap K V)[a]? = some w → P a w := by
  intro a w h
  rw [get_empty] at h
  cases h

theorem forall_insert (h : ∀ (a : K) w, m[a]? = some w → P a w) (hv : P k v) :
    ∀ (a : K) w, (m.insert k v)[a]? = some w → P a w := by
  classical
  intro a w hw
  rw [get_insert] at hw
  split at hw
  · subst k
    cases hw
    exact hv
  · exact h a w hw

theorem forall_erase (h : ∀ (a : K) w, m[a]? = some w → P a w) : ∀ (a : K) w, (m.erase k)[a]? = some w → P a w := by
  classical
  intro a w hw
  rw [get_erase] at hw
  split at hw
  · cases hw
  · exact h a w hw

theorem insert_self_get (h : m[k]? = some v) : m.insert k v = m := by
  classical
  refine ext_get fun a => ?_
  rw [get_insert]
  split
  · subst k; exact h.symm
  · rfl

theorem map_insert {W : Type} (f : K → V → W) (m : FinMap K V) (k : K) (v : V) :
    (m.insert k v).map f = (m.map f).insert k (f k v) := by
  classical
  refine ext_get (K := K) fun a => ?_
  rw [Std.ExtTreeMap.getElem?_map, get_insert, get_insert, Std.ExtTreeMap.getElem?_map]
  by_cases hk : k = a
  · rw [if_pos hk, if_pos hk, Option.map_some, hk]
  · rw [if_neg hk, if_neg hk]

theorem erase_insert_self (m : FinMap K V) (k : K) (v : V) : (m.insert k v).erase k = m.erase k := by
  classical
  refine ext_get fun a => ?_
  simp only [get_erase, get_insert]
  split <;> rfl

theorem insert_erase (m : FinMap K V) (k : K) (v : V) : (m.erase k).insert k v = m.insert k v := by
  classical
  refine ext_get fun a => ?_
  simp only [get_insert, get_erase]
  split <;> rfl

/-! ## The entries of a map -/

def vals (m : FinMap K V) : List V := m.toList.map Prod.snd

theorem mem_toList : (k, v) ∈ m.toList ↔ m[k]? = some v :=
  Std.ExtTreeMap.mem_toList_iff_getElem?_eq_some

theorem mem_vals : v ∈ m.vals ↔ ∃ k : K, m[k]? = some v := by
  simp only [vals, List.mem_map, Prod.exists, mem_toList, exists_eq_right]

omit [Std.LawfulEqOrd K] in
theorem length_vals (m : FinMap K V) : m.vals.length = m.size := by
  rw [vals, List.length_map, Std.ExtTreeMap.length_toList]

theorem nodup_toList (m : FinMap K V) : m.toList.Nodup :=
  m.distinct_keys_toList.imp fun hne heq => hne (by subst heq; exact Std.ReflCmp.compare_self)

theorem nodup_vals {key : V → K} (hkey : ∀ (k : K) v, m[k]? = some v → key v = k) : m.vals.Nodup := by
  refine List.Nodup.map_on ?_ (nodup_toList m)
  rintro ⟨k, v⟩ h ⟨k', v'⟩ h' (rfl : v = v')
  rw [mem_toList] at h h'
  rw [← hkey k v h, ← hkey k' v h']

theorem toList_insert_perm (v : V) (h : m[k]? = none) : (m.insert k v).toList.Perm ((k, v) :: m.toList) := by
  classical
  have hmem : (k, v) ∉ m.toList := fun hm => by rw [mem_toList, h] at hm; cases hm
  refine (List.perm_ext_iff_of_nodup (nodup_toList _) (List.nodup_cons.mpr ⟨hmem, nodup_toList m⟩)).mpr ?_
  rintro ⟨a, w⟩
  rw [List.mem_cons, mem_toList, mem_toList, get_insert, Prod.mk.injEq]
  split_ifs with hne
  · subst k; rw [h]; simp [eq_comm]
  · exact ⟨.inr, fun hor => hor.resolve_left fun hk => hne hk.1.symm⟩

theorem toList_erase_perm (h : m[k]? = some v) : m.toList.Perm ((k, v) :: (m.erase k).toList) := by
  have hins := (insert_erase m k v).trans (insert_self_get h)
  have := toList_insert_perm (m := m.erase k) v (get_erase_self m k)
  rwa [hins] at this

theorem nodup_keys (m : FinMap K V) : (m.toList.map Prod.fst).Nodup := by
  rw [List.Nodup, List.pairwise_map]
  exact m.distinct_keys_toList.imp fun hne heq => hne (by rw [heq]; exact Std.ReflCmp.compare_self)

/-! ## Entries that are added once -/

/-- Add an entry unless the key is in use. -/
def emplace (m : FinMap K V) (k : K) (v : V) : FinMap K V := if (m[k]?).isSome then m else m.insert k v

def emplaceAll (es : List (K × V)) (m : FinMap K V) : FinMap K V := es.foldl (fun m e => m.emplace e.1 e.2) m

theorem get_emplace {k a : K} {v w : V} :
    (m.emplace k v)[a]? = some w ↔ m[a]? = some w ∨ m[a]? = none ∧ a = k ∧ w = v := by
  classical
  unfold emplace
  cases hk : m[k]? with
  | some u =>
    rw [if_pos Option.isSome_some]
    refine ⟨.inl, fun h => h.elim id fun ⟨hnone, ha, _⟩ => ?_⟩
    rw [ha, hk] at hnone
    cases hnone
  | none =>
    rw [if_neg (by simp), get_insert]
    by_cases ha : k = a
    · subst ha
      simp [hk, eq_comm]
    · simp [ha, Ne.symm ha]

theorem isSome_emplace [DecidableEq K] (m : FinMap K V) (k a : K) (v : V) :
    ((m.emplace k v)[a]?).isSome = (decide (a = k) || (m[a]?).isSome) := by
  rw [Bool.eq_iff_iff, Bool.or_eq_true, decide_eq_true_iff, Option.isSome_iff_exists, Option.isSome_iff_exists]
  simp only [get_emplace]
  grind

theorem emplace_erase_ne (m : FinMap K V) {k a : K} (v : V) (h : k ≠ a) :
    emplace (m.erase a) k v = (emplace m k v).erase a := by
  classical
  unfold emplace
  rw [get_erase_ne _ (Ne.symm h)]
  split
  · rfl
  · refine ext_get fun b => ?_
    simp only [get_insert, get_erase]
    by_cases hb : a = b
    · subst hb
      simp [h]
    · simp [hb]

theorem emplace_erase_self (m : FinMap K V) (k : K) (v : V) : (emplace m k v).erase k = m.erase k := by
  unfold emplace
  split
  · rfl
  · exact erase_insert_self m k v

theorem erase_of_absent (h : m[k]? = none) : m.erase k = m := by
  classical
  refine ext_get fun a => ?_
  rw [get_erase]
  split
  · subst k; exact h.symm
  · rfl

theorem get_emplaceAll {a : K} {w : V} : ∀ {es : List (K × V)} {m : FinMap K V}, (es.map Prod.fst).Nodup →
    ((emplaceAll es m)[a]? = some w ↔ m[a]? = some w ∨ m[a]? = none ∧ (a, w) ∈ es)
  | [], m, _ => by simp [emplaceAll]
  | (k, v) :: es, m, hnodup => by
    rw [List.map_cons, List.nodup_cons] at hnodup
    rw [emplaceAll, List.foldl_cons]
    refine (get_emplaceAll hnodup.2).trans ?_
    have hnone : (m.emplace k v)[a]? = none ↔ m[a]? = none ∧ a ≠ k := by
      classical
      rw [← Option.not_isSome_iff_eq_none, isSome_emplace, ← Option.not_isSome_iff_eq_none]
      simp [and_comm]
    have hk : ∀ u, (k, u) ∉ es := fun u hu => hnodup.1 (List.mem_map.mpr ⟨_, hu, rfl⟩)
    rw [get_emplace, hnone, List.mem_cons, Prod.mk.injEq]
    grind

theorem emplaceAll_toList (m : FinMap K V) : emplaceAll m.toList ∅ = m :=
  ext_get fun a => Option.ext fun w => by
    rw [get_emplaceAll (nodup_keys m), get_empty, mem_toList]
    simp

theorem toList_emplaceAll {es : List (K × V)} (h : (es.map Prod.fst).Nodup) :
    (emplaceAll es (∅ : FinMap K V)).toList.Perm es := by
  refine (List.perm_ext_iff_of_nodup (nodup_toList _) (List.Nodup.of_map _ h)).mpr ?_
  rintro ⟨k, v⟩
  rw [mem_toList, get_emplaceAll h, get_empty]
  simp

/-! ## Sums over a map -/

/-- The sum of `f` over the map's entries. -/
def entrySum (f : K × V → Int) (m : FinMap K V) : Int := (m.toList.map f).sum

/-- The sum of `f` over the map's values. -/
def total (f : V → Int) (m : FinMap K V) : Int := (m.vals.map f).sum

/-- What the entry at `k`, if any, contributes to a total. -/
def at? (f : V → Int) (m : FinMap K V) (k : K) : Int := (m[k]?.map f).getD 0

section EntrySum

variable (f : K × V → Int)

@[simp] theorem entrySum_empty : entrySum f (∅ : FinMap K V) = 0 := by
  have h : (∅ : FinMap K V).toList = [] := List.eq_nil_iff_forall_not_mem.mpr fun e he => by
    simpa using mem_toList.mp he
  rw [entrySum, h]
  rfl

theorem entrySum_insert_absent (v : V) (h : m[k]? = none) : entrySum f (m.insert k v) = entrySum f m + f (k, v) := by
  have hp := ((toList_insert_perm v h).map f).sum_eq
  rw [List.map_cons, List.sum_cons] at hp
  rw [entrySum, hp, entrySum]
  omega

theorem entrySum_erase (h : m[k]? = some v) : entrySum f (m.erase k) = entrySum f m - f (k, v) := by
  have hp := ((toList_erase_perm h).map f).sum_eq
  rw [List.map_cons, List.sum_cons] at hp
  rw [entrySum, entrySum, hp]
  omega

theorem entrySum_insert {w : V} (v : V) (h : m[k]? = some w) :
    entrySum f (m.insert k v) = entrySum f m - f (k, w) + f (k, v) := by
  rw [← insert_erase, entrySum_insert_absent f v (get_erase_self m k), entrySum_erase f h]

end EntrySum

section Total

variable (f : V → Int) (m : FinMap K V)

omit [Std.LawfulEqOrd K] in
theorem total_eq : total f m = entrySum (fun e => f e.2) m := by
  simp [total, vals, entrySum, Function.comp_def]

@[simp] theorem total_empty : total f (∅ : FinMap K V) = 0 := by rw [total_eq, entrySum_empty]

theorem total_erase (k : K) : total f (m.erase k) = total f m - at? f m k := by
  cases h : m[k]? with
  | none => simp [erase_of_absent h, at?, h]
  | some v =>
    rw [total_eq, total_eq, entrySum_erase _ h]
    simp [at?, h]

theorem total_insert (k : K) (v : V) : total f (m.insert k v) = total f m - at? f m k + f v := by
  rw [← insert_erase, total_eq, entrySum_insert_absent _ v (get_erase_self m k), ← total_eq, total_erase]

end Total

omit [Std.LawfulEqOrd K] in
/-- A loop each step of which sets one key to what `g` says of it. -/
theorem get_foldl [DecidableEq K] {step : FinMap K V → α → FinMap K V} {key : α → K} {g : K → Option V} :
    ∀ (l : List α) (m : FinMap K V),
    (∀ a ∈ l, ∀ (m : FinMap K V) (k : K), (step m a)[k]? = if key a = k then g k else m[k]?) → ∀ k : K,
    (l.foldl step m)[k]? = if k ∈ l.map key then g k else m[k]?
  | [], m, _, k => by simp
  | a :: l, m, hstep, k => by
    rw [List.forall_mem_cons] at hstep
    rw [List.foldl_cons, get_foldl l _ hstep.2 k, hstep.1, List.map_cons]
    by_cases hl : k ∈ l.map key
    · rw [if_pos hl, if_pos (List.mem_cons_of_mem _ hl)]
    · rw [if_neg hl]
      by_cases hk : key a = k
      · rw [if_pos hk, if_pos (hk ▸ List.mem_cons_self)]
      · rw [if_neg hk, if_neg fun hmem => (List.mem_cons.mp hmem).elim (fun heq => hk heq.symm) hl]

theorem get_foldl_insert [DecidableEq K] {key : α → K} {val : α → V} {g : K → V} (l : List α) (m : FinMap K V)
    (hval : ∀ a ∈ l, val a = g (key a)) (k : K) :
    (l.foldl (fun (m : FinMap K V) a => m.insert (key a) (val a)) m)[k]? =
      if k ∈ l.map key then some (g k) else m[k]? := by
  refine get_foldl (g := fun k => some (g k)) l m (fun a ha m k => ?_) k
  rw [get_insert, hval a ha]
  split_ifs with hk
  · rw [hk]
  · rfl

theorem get_foldl_insert_of_not_mem {key : α → K} {val : α → V} :
    ∀ (l : List α) (m : FinMap K V), k ∉ l.map key →
    (l.foldl (fun (m : FinMap K V) a => m.insert (key a) (val a)) m)[k]? = m[k]?
  | [], _, _ => rfl
  | a :: l, m, h => by
    rw [List.map_cons, List.mem_cons, not_or] at h
    rw [List.foldl_cons, get_foldl_insert_of_not_mem l _ h.2, get_insert_ne _ _ fun heq => h.1 heq.symm]

theorem get_foldl_erase [DecidableEq K] (key : α → K) (l : List α) (m : FinMap K V) (k : K) :
    (l.foldl (fun (m : FinMap K V) a => m.erase (key a)) m)[k]? = if k ∈ l.map key then none else m[k]? :=
  get_foldl l m (fun a _ m k => get_erase m (key a) k) k

theorem mem_keys : k ∈ m.toList.map Prod.fst ↔ (m[k]?).isSome := by
  rw [List.mem_map, Option.isSome_iff_exists]
  simp

theorem get_foldl_insert_toList {W : Type} (f : V → W) (m : FinMap K V) (m' : FinMap K W) (k : K) :
    (m.toList.foldl (fun (m' : FinMap K W) e => m'.insert e.1 (f e.2)) m')[k]? = (m[k]?.map f).or m'[k]? := by
  classical
  cases hk : m[k]? with
  | none =>
    rw [get_foldl_insert_of_not_mem m.toList m' fun hmem => by rw [mem_keys, hk] at hmem; cases hmem]
    rfl
  | some v =>
    rw [get_foldl_insert (g := fun a => ((m[a]?).map f).getD (f v)) m.toList m' fun e he => by
      rw [mem_toList.mp he]; rfl, if_pos (mem_keys.mpr (hk ▸ rfl)), hk]
    rfl

/-! ## Loops that change every value -/

section Loop

variable {ε : Type}

/-- Every value is replaced by what `f` makes of it, in the order of the keys. -/
def updateM (f : V → Except ε V) (m : FinMap K V) : Except ε (FinMap K V) :=
  m.toList.foldlM (fun acc e => do return acc.insert e.1 (← f e.2)) m

theorem foldlM_insert {f : V → Except ε V} {R : K → V → V → Prop} : ∀ (l : List (K × V)) (acc : FinMap K V),
    (l.map Prod.fst).Nodup → (∀ e ∈ l, ∃ v, f e.2 = .ok v ∧ R e.1 e.2 v) →
    ∃ acc' : FinMap K V, l.foldlM (fun acc e => do return acc.insert e.1 (← f e.2)) acc = .ok acc' ∧
      (∀ k, k ∉ l.map Prod.fst → acc'[k]? = acc[k]?) ∧ ∀ e ∈ l, ∃ v, acc'[e.1]? = some v ∧ R e.1 e.2 v
  | [], acc, _, _ => ⟨acc, rfl, fun _ _ => rfl, List.forall_mem_nil _⟩
  | e :: l, acc, hnodup, hf => by
    rw [List.map_cons, List.nodup_cons] at hnodup
    obtain ⟨v, hv, hR⟩ := hf e List.mem_cons_self
    obtain ⟨acc', hfold, hother, hmem⟩ := foldlM_insert l (acc.insert e.1 v) hnodup.2 fun e' he' =>
      hf e' (List.mem_cons_of_mem e he')
    refine ⟨acc', ?_, fun k hk => ?_, List.forall_mem_cons.mpr ⟨⟨v, ?_, hR⟩, hmem⟩⟩
    · rw [List.foldlM_cons, hv]
      exact hfold
    · rw [List.map_cons, List.mem_cons, not_or] at hk
      rw [hother k hk.2, get_insert_ne _ _ fun h => hk.1 h.symm]
    · rw [hother e.1 hnodup.1, get_insert_self]

theorem updateM_spec {f : V → Except ε V} {R : K → V → V → Prop} {m : FinMap K V}
    (hf : ∀ (k : K) v, m[k]? = some v → ∃ v', f v = .ok v' ∧ R k v v') :
    ∃ m' : FinMap K V, m.updateM f = .ok m' ∧ (∀ k : K, m[k]? = none → m'[k]? = none) ∧
      ∀ (k : K) v, m[k]? = some v → ∃ v', m'[k]? = some v' ∧ R k v v' := by
  obtain ⟨m', hfold, hother, hmem⟩ := foldlM_insert m.toList m (nodup_keys m) fun e he => hf e.1 e.2 (mem_toList.mp he)
  refine ⟨m', hfold, fun k hk => ?_, fun k v hk => hmem (k, v) (mem_toList.mpr hk)⟩
  rw [hother k, hk]
  intro hin
  obtain ⟨e, he, rfl⟩ := List.mem_map.mp hin
  rw [mem_toList.mp he] at hk
  cases hk

end Loop

end FinMap

end Lib
