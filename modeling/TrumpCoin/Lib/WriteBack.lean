import TrumpCoin.Lib.Fallible
import TrumpCoin.Lib.FinMap

/-!
# Write-back caches

A cache in front of a store keeps an entry for some of the keys. An entry is dirty where it was written through the
cache, and fresh where the store is known to have nothing under its key; the store is asked for the other keys. With
`below` and `above` as the contents without and with the cache, `Reading.Through` says that the cache is a sound layer
between the two:

* `Through.put`, `Through.drop`, `Through.fetch`: how one entry may change;
* `Through.mergeAll`: writing the entries of a cache into the cache below it, in any order;
* `Through.foldl_flush`: writing them into a store.
-/

namespace Lib

variable {K : Type}

/-- Write a value under a key, or erase the key. -/
def FinMap.assign [Ord K] [Std.TransOrd K] {V : Type} (m : FinMap K V) (k : K) : Option V → FinMap K V
  | none => m.erase k
  | some v => m.insert k v

theorem FinMap.get_assign [Ord K] [Std.TransOrd K] [Std.LawfulEqOrd K] [DecidableEq K] {V : Type} (m : FinMap K V)
    (k a : K) (v : Option V) : (m.assign k v)[a]? = if k = a then v else m[a]? := by
  cases v with
  | none => exact FinMap.get_erase m k a
  | some v => exact FinMap.get_insert m k a v

namespace WriteBack

variable {E W : Type}

structure Reading (E W : Type) where
  /-- what the entry says about its key -/
  seen : E → W
  dirty : E → Bool
  fresh : E → Bool := fun _ => false
  /-- what is seen of a key of which there is nothing -/
  absent : W

namespace Reading

variable (R : Reading E W)

/-- One key: what is seen with and without the cache's entry for it. -/
inductive Holds : Option E → W → W → Prop
  | miss (w : W) : Holds none w w
  | hit {e : E} {below : W} (clean : R.dirty e = false → R.seen e = below)
      (fresh : R.fresh e = true → below = R.absent) : Holds (some e) below (R.seen e)

variable [Ord K] [Std.TransOrd K] [Std.LawfulEqOrd K]

def Through (cache : FinMap K E) (below above : K → W) : Prop := ∀ k : K, R.Holds cache[k]? (below k) (above k)

variable {R} {cache : FinMap K E} {below above : K → W} {k : K} {e : E}

theorem Holds.seen_eq {below above : W} (h : R.Holds (some e) below above) : above = R.seen e := by
  cases h; rfl

theorem Holds.fresh_absent {below above : W} (h : R.Holds (some e) below above) (hfresh : R.fresh e = true) :
    below = R.absent := by
  cases h with
  | hit _ fresh => exact fresh hfresh

theorem Holds.clean_eq {below above : W} (h : R.Holds (some e) below above) (hclean : R.dirty e = false) :
    above = below := by
  cases h with
  | hit clean _ => exact clean hclean

theorem Holds.miss_eq {below above : W} (h : R.Holds none below above) : above = below := by
  cases h; rfl

theorem Holds.of_dirty {below : W} (hdirty : R.dirty e = true) (hfresh : R.fresh e = true → below = R.absent) :
    R.Holds (some e) below (R.seen e) :=
  .hit (fun h => by rw [hdirty] at h; cases h) hfresh

namespace Through

omit [Std.LawfulEqOrd K] in
theorem empty (f : K → W) : R.Through (∅ : FinMap K E) f f := fun k => by
  rw [FinMap.get_empty]
  exact .miss _

omit [Std.LawfulEqOrd K] in
theorem seen_eq (h : R.Through cache below above) (hk : cache[k]? = some e) : above k = R.seen e := by
  have := h k
  rw [hk] at this
  exact this.seen_eq

omit [Std.LawfulEqOrd K] in
theorem miss_eq (h : R.Through cache below above) (hk : cache[k]? = none) : above k = below k := by
  have := h k
  rw [hk] at this
  exact this.miss_eq

variable [DecidableEq K]

variable (h : R.Through cache below above)
include h

theorem put {w : W} (hk : R.Holds (some e) (below k) w) :
    R.Through (cache.insert k e) below (Function.update above k w) := by
  intro a
  rw [FinMap.get_insert]
  by_cases ha : k = a
  · subst ha
    rw [if_pos rfl, Function.update_self]
    exact hk
  · rw [if_neg ha, Function.update_of_ne (Ne.symm ha)]
    exact h a

theorem drop (k : K) : R.Through (cache.erase k) below (Function.update above k (below k)) := by
  intro a
  rw [FinMap.get_erase]
  by_cases ha : k = a
  · subst ha
    rw [if_pos rfl, Function.update_self]
    exact .miss _
  · rw [if_neg ha, Function.update_of_ne (Ne.symm ha)]
    exact h a

/-- An entry that says what is seen anyway. -/
theorem fetch (hk : R.Holds (some e) (below k) (above k)) : R.Through (cache.insert k e) below above := by
  have := h.put hk
  rwa [Function.update_eq_self] at this

/-- A clean entry is not needed. -/
theorem uncache (hk : cache[k]? = some e) (hclean : R.dirty e = false) : R.Through (cache.erase k) below above := by
  have hsame : below k = above k := by
    have := h k
    rw [hk] at this
    exact (this.clean_eq hclean).symm
  have := h.drop k
  rwa [hsame, Function.update_eq_self] at this

end Through

end Reading

/-! ## Writing into the cache below -/

section Merge

variable {ε : Type} [Ord K] [Std.TransOrd K]

/-- What becomes of the own entry of a key when an entry comes from above: `merge` says which entry is kept. -/
def mergeEntry (merge : Option E → E → Except ε (Option E)) (own : FinMap K E) (x : K × E) :
    Except ε (FinMap K E) := do
  let e ← merge own[x.1]? x.2
  return own.assign x.1 e

def mergeAll (merge : Option E → E → Except ε (Option E)) (entries : List (K × E)) (own : FinMap K E) :
    Except ε (FinMap K E) :=
  entries.foldlM (mergeEntry merge) own

variable [Std.LawfulEqOrd K] [DecidableEq K] {merge : Option E → E → Except ε (Option E)}

theorem mergeEntry_eq_ok {own : FinMap K E} {x : K × E} {e : Option E} (h : merge own[x.1]? x.2 = .ok e) :
    ∃ own', mergeEntry merge own x = .ok own' ∧ own'[x.1]? = e ∧ ∀ k, k ≠ x.1 → own'[k]? = own[k]? := by
  unfold mergeEntry
  rw [h]
  refine ⟨own.assign x.1 e, rfl, ?_, fun k hk => ?_⟩
  · rw [FinMap.get_assign, if_pos rfl]
  · rw [FinMap.get_assign, if_neg (Ne.symm hk)]

theorem mergeAll_spec {P : K → Option E → Prop} : ∀ {entries : List (K × E)} {own : FinMap K E},
    (entries.map Prod.fst).Nodup → (∀ x ∈ entries, ∃ e, merge own[x.1]? x.2 = .ok e ∧ P x.1 e) →
    (∀ k, k ∉ entries.map Prod.fst → P k own[k]?) →
    ∃ own', mergeAll merge entries own = .ok own' ∧ ∀ k, P k own'[k]?
  | [], own, _, _, hrest => ⟨own, rfl, fun k => hrest k List.not_mem_nil⟩
  | x :: entries, own, hnodup, hmerge, hrest => by
    rw [List.map_cons, List.nodup_cons] at hnodup
    obtain ⟨e, he, hx⟩ := hmerge x List.mem_cons_self
    obtain ⟨own₁, hstep, hself, hother⟩ := mergeEntry_eq_ok he
    -- the keys still to come are not touched by the step
    have hlater : ∀ y ∈ entries, own₁[y.1]? = own[y.1]? := fun y hy =>
      hother y.1 fun heq => hnodup.1 (heq ▸ List.mem_map_of_mem hy)
    obtain ⟨own', hrun, hP⟩ : ∃ own', mergeAll merge entries own₁ = .ok own' ∧ ∀ k, P k own'[k]? := mergeAll_spec
      hnodup.2 (fun y hy => by rw [hlater y hy]; exact hmerge y (List.mem_cons_of_mem x hy))
      (fun k hk => by
        by_cases hkx : k = x.1
        · rw [hkx, hself]
          exact hx
        · rw [hother k hkx]
          exact hrest k (by rw [List.map_cons, List.mem_cons, not_or]; exact ⟨hkx, hk⟩))
    refine ⟨own', ?_, hP⟩
    rw [mergeAll, List.foldlM_cons, hstep]
    exact hrun

/-- The entries of a cache, in any order, are merged into the cache below it: what was seen through both is then seen
through the one. What is `good` of the entries stays so. -/
theorem Reading.Through.mergeAll {R : Reading E W} {below mid above : K → W} {own cache : FinMap K E}
    {entries : List (K × E)} {good : K → E → Prop} (hperm : entries.Perm cache.toList)
    (hown : R.Through own below mid) (hgood : ∀ (k : K) e, own[k]? = some e → good k e)
    (hcache : R.Through cache mid above)
    (hmerge : ∀ (k : K) e, cache[k]? = some e →
      ∃ e', merge own[k]? e = .ok e' ∧ R.Holds e' (below k) (above k) ∧ ∀ x, e' = some x → good k x) :
    ∃ own', WriteBack.mergeAll merge entries own = .ok own' ∧ R.Through own' below above ∧
      ∀ (k : K) e, own'[k]? = some e → good k e := by
  have hmem : ∀ x, x ∈ entries ↔ cache[x.1]? = some x.2 := fun x => hperm.mem_iff.trans FinMap.mem_toList
  obtain ⟨own', hrun, hall⟩ : ∃ own', WriteBack.mergeAll merge entries own = .ok own' ∧
      ∀ k : K, R.Holds own'[k]? (below k) (above k) ∧ ∀ x, own'[k]? = some x → good k x := mergeAll_spec
    (P := fun k e => R.Holds e (below k) (above k) ∧ ∀ x, e = some x → good k x)
    ((hperm.map Prod.fst).nodup_iff.mpr (FinMap.nodup_keys cache))
    (fun x hx => hmerge x.1 x.2 ((hmem x).mp hx)) fun k hk => by
      have hmiss : cache[k]? = none := by
        cases hcase : cache[k]? with
        | none => rfl
        | some e => exact absurd (List.mem_map.mpr ⟨(k, e), (hmem (k, e)).mpr hcase, rfl⟩) hk
      rw [hcache.miss_eq hmiss]
      exact ⟨hown k, fun x hx => hgood k x hx⟩
  exact ⟨own', hrun, fun k => (hall k).1, fun k => (hall k).2⟩

end Merge

/-! ## Writing into a store -/

section Flush

variable {σ : Type} {step : σ → K × E → σ} {obs : σ → K → W}

theorem foldl_write {R : Reading E W} :
    ∀ {entries : List (K × E)} {s : σ}, (entries.map Prod.fst).Nodup →
    (∀ x ∈ entries, ∀ s, obs (step s x) x.1 = if R.dirty x.2 then R.seen x.2 else obs s x.1) →
    (∀ x ∈ entries, ∀ s k, k ≠ x.1 → obs (step s x) k = obs s k) →
    (∀ x ∈ entries, obs (entries.foldl step s) x.1 = if R.dirty x.2 then R.seen x.2 else obs s x.1) ∧
      ∀ k, k ∉ entries.map Prod.fst → obs (entries.foldl step s) k = obs s k
  | [], s, _, _, _ => ⟨List.forall_mem_nil _, fun _ _ => rfl⟩
  | x :: entries, s, hnodup, hself, hother => by
    rw [List.map_cons, List.nodup_cons] at hnodup
    rw [List.foldl_cons]
    obtain ⟨hmem, hrest⟩ := foldl_write (s := step s x) hnodup.2
      (fun y hy => hself y (List.mem_cons_of_mem x hy)) (fun y hy => hother y (List.mem_cons_of_mem x hy))
    refine ⟨List.forall_mem_cons.mpr ⟨?_, fun y hy => ?_⟩, fun k hk => ?_⟩
    · rw [hrest _ hnodup.1, hself x List.mem_cons_self]
    · rw [hmem y hy, hother x List.mem_cons_self s y.1 fun heq => hnodup.1 (heq ▸ List.mem_map_of_mem hy)]
    · rw [List.map_cons, List.mem_cons, not_or] at hk
      rw [hrest k hk.2, hother x List.mem_cons_self s k hk.1]

variable [Ord K] [Std.TransOrd K] [Std.LawfulEqOrd K]

/-- The dirty entries of a cache, in any order, are written into the store: the store then has what was seen through the
cache. -/
theorem Reading.Through.foldl_flush {R : Reading E W} {s : σ}
    {above : K → W} {cache : FinMap K E} {entries : List (K × E)} (hperm : entries.Perm cache.toList)
    (hcache : R.Through cache (obs s) above)
    (hself : ∀ (k : K) e s, cache[k]? = some e →
      obs (step s (k, e)) k = if R.dirty e then R.seen e else obs s k)
    (hother : ∀ x s k, k ≠ x.1 → obs (step s x) k = obs s k) : obs (entries.foldl step s) = above := by
  have hmem : ∀ x, x ∈ entries ↔ cache[x.1]? = some x.2 := fun x => hperm.mem_iff.trans FinMap.mem_toList
  obtain ⟨hin, hout⟩ := foldl_write (s := s) (R := R) ((hperm.map Prod.fst).nodup_iff.mpr (FinMap.nodup_keys cache))
    (fun x hx s => hself x.1 x.2 s ((hmem x).mp hx)) fun x _ s k => hother x s k
  funext k
  cases hcase : cache[k]? with
  | none =>
    rw [hout k fun hk => ?_, hcache.miss_eq hcase]
    obtain ⟨x, hx, rfl⟩ := List.mem_map.mp hk
    rw [(hmem x).mp hx] at hcase
    cases hcase
  | some e =>
    rw [hin (k, e) ((hmem (k, e)).mpr hcase)]
    have hk := hcache k
    rw [hcase] at hk
    split_ifs with hclean
    · exact hk.seen_eq.symm
    · exact (hk.clean_eq (by simpa using hclean)).symm

end Flush

end WriteBack

end Lib
