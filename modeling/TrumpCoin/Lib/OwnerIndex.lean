import Mathlib.Data.Multiset.AddSub
import TrumpCoin.Lib.FinMap

/-!
# Reference-counted ownership index

A table that records, for every key in use, its one owner and how often that owner holds it. What the
table is for is a function `own : O → Multiset K`; `Represents m own` says that `m` is exactly its index.

* `Represents.owner_unique`: represented owners hold disjoint keys;
* `Represents.unique`: the table is determined by what it represents;
* `Represents.acquire`, `Represents.release`: the two updates and what they do to `own`.
-/

namespace Lib

/-- Keys in use, each with its owner and the owner's multiplicity. -/
abbrev OwnerIndex (K O : Type) [Ord K] := FinMap K (O × Nat)

namespace OwnerIndex

variable {K O : Type} [Ord K] [Std.TransOrd K] [DecidableEq K]

/-- `m` lists every held key with its owner and multiplicity, and nothing else. -/
def Represents (m : OwnerIndex K O) (own : O → Multiset K) : Prop :=
  ∀ (k : K) (o : O) (c : Nat), m[k]? = some (o, c) ↔ 0 < c ∧ (own o).count k = c

def acquire (m : OwnerIndex K O) (k : K) (o : O) : OwnerIndex K O :=
  m.insert k (o, match m[k]? with | some e => e.2 + 1 | none => 1)

def release (m : OwnerIndex K O) (k : K) (o : O) : OwnerIndex K O :=
  match m[k]? with
  | some e => if e.2 = 1 then m.erase k else m.insert k (o, e.2 - 1)
  | none => m

namespace Represents

variable {m m' : OwnerIndex K O} {own own' : O → Multiset K} {k : K} {o o' : O} {c : Nat}

variable (h : Represents m own)
include h

theorem mem_of_get (hk : m[k]? = some (o, c)) : k ∈ own o := by
  obtain ⟨hpos, hc⟩ := (h k o c).mp hk
  exact Multiset.count_pos.mp (hc ▸ hpos)

theorem get_of_mem (hk : k ∈ own o) : m[k]? = some (o, (own o).count k) :=
  (h k o _).mpr ⟨Multiset.count_pos.mpr hk, rfl⟩

theorem owner_unique (hk : k ∈ own o) (hk' : k ∈ own o') : o = o' := by
  have := (h.get_of_mem hk).symm.trans (h.get_of_mem hk')
  exact (Prod.mk.inj (Option.some.inj this)).1

theorem get_eq_none : m[k]? = none ↔ ∀ o, k ∉ own o := by
  refine ⟨fun hk o ho => ?_, fun hk => ?_⟩
  · rw [h.get_of_mem ho] at hk; cases hk
  · cases hm : m[k]? with
    | none => rfl
    | some e => exact (hk e.1 (h.mem_of_get hm)).elim

theorem count_of_get_none (hk : m[k]? = none) (o : O) : (own o).count k = 0 :=
  Multiset.count_eq_zero.mpr (h.get_eq_none.mp hk o)

theorem count_of_get_ne (hk : m[k]? = some (o, c)) (hne : o' ≠ o) : (own o').count k = 0 :=
  Multiset.count_eq_zero.mpr fun hmem => hne (h.owner_unique hmem (h.mem_of_get hk))

theorem congr (hown : ∀ o, own o = own' o) : Represents m own' := by
  rwa [← (funext hown : own = own')]

theorem unique [Std.LawfulEqOrd K] (h' : Represents m' own) : m = m' := by
  refine FinMap.ext_get fun k => Option.ext fun ⟨o, c⟩ => ?_
  exact (h k o c).trans (h' k o c).symm

omit h

theorem empty : Represents (∅ : OwnerIndex K O) fun _ => 0 := fun k o c => by
  rw [FinMap.get_empty, Multiset.count_zero]
  exact ⟨nofun, fun ⟨hpos, hc⟩ => absurd hc hpos.ne⟩

variable [DecidableEq O]

/-- Overwriting the entry of `k` by what `s` holds of it, when `o` is the only possible owner and the new
holdings of `o` differ from the old ones in `k` only. -/
theorem set_count {s : Multiset K} (h : Represents m own) (hfree : ∀ e, m[k]? = some e → e.1 = o)
    (hs : ∀ a, a ≠ k → s.count a = (own o).count a) (hm : ∀ a, a ≠ k → m'[a]? = m[a]?)
    (hk : ∀ o' c, m'[k]? = some (o', c) ↔ o' = o ∧ 0 < c ∧ s.count k = c) :
    Represents m' (Function.update own o s) := by
  intro a o' c
  by_cases ha : a = k
  · subst ha
    rw [hk]
    by_cases ho : o' = o
    · subst ho; simp
    · have hzero : (own o').count a = 0 := by
        cases hme : m[a]? with
        | none => exact h.count_of_get_none hme o'
        | some e => exact h.count_of_get_ne hme (hfree e hme ▸ ho)
      rw [Function.update_of_ne ho, hzero]
      exact ⟨fun hc => absurd hc.1 ho, fun hc => absurd hc.2 hc.1.ne⟩
  · rw [hm a ha, h a o' c]
    by_cases ho : o' = o
    · subst ho; rw [Function.update_self, hs a ha]
    · rw [Function.update_of_ne ho]

variable [Std.LawfulEqOrd K]

theorem acquire (h : Represents m own) (hfree : ∀ e, m[k]? = some e → e.1 = o) :
    Represents (acquire m k o) (Function.update own o (k ::ₘ own o)) := by
  refine h.set_count hfree (fun a ha => Multiset.count_cons_of_ne ha _)
    (fun a ha => FinMap.get_insert_ne m _ (Ne.symm ha)) fun o' c => ?_
  have hcount : (own o).count k + 1 = (match m[k]? with | some e => e.2 + 1 | none => 1) := by
    cases hm : m[k]? with
    | none => simp only [h.count_of_get_none hm o]
    | some e => obtain rfl := hfree e hm; simp only [((h k e.1 e.2).mp hm).2]
  rw [OwnerIndex.acquire, FinMap.get_insert_self, Multiset.count_cons_self, hcount]
  simp only [Option.some.injEq, Prod.mk.injEq]
  grind

theorem release (h : Represents m own) (hk : m[k]? = some (o, c)) :
    Represents (release m k o) (Function.update own o ((own o).erase k)) := by
  obtain ⟨hpos, hc⟩ := (h k o c).mp hk
  have hfree : ∀ e, m[k]? = some e → e.1 = o := fun e he => by rw [hk] at he; cases he; rfl
  have hrel : OwnerIndex.release m k o = if c = 1 then m.erase k else m.insert k (o, c - 1) := by
    rw [OwnerIndex.release, hk]
  refine h.set_count hfree (fun a ha => Multiset.count_erase_of_ne ha _) (fun a ha => ?_) fun o' d => ?_
  · rw [hrel]
    split
    · exact FinMap.get_erase_ne m (Ne.symm ha)
    · exact FinMap.get_insert_ne m _ (Ne.symm ha)
  · rw [hrel, Multiset.count_erase_self, hc]
    split
    · rw [FinMap.get_erase_self]
      exact ⟨nofun, fun hd => by omega⟩
    · rw [FinMap.get_insert_self]
      simp only [Option.some.injEq, Prod.mk.injEq]
      grind

end Represents

end OwnerIndex

end Lib
