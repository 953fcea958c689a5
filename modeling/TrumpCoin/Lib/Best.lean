import Mathlib.Algebra.Order.Ring.Int
import Mathlib.Data.List.Induction

/-!
# The best element of a list

`best lt as` is the result of one pass over `as` that keeps the best element so far and replaces it only by a
strictly better one. For a strict order it is a least element (`best_least`), and where the order separates the
elements it does not depend on their order in the list (`best_perm`). `highest f bound as` is such a pass for a score
above a bound: the first element with the highest one (`highest_eq_some`).
-/

namespace Lib

variable {α : Type} {lt : α → α → Bool} {as bs : List α} {a b : α}

def keepBetter (lt : α → α → Bool) : Option α → α → Option α
  | none, a => some a
  | some b, a => if lt a b then some a else some b

/-- The best element of a list, the first one among equals. -/
def best (lt : α → α → Bool) (as : List α) : Option α := as.foldl (keepBetter lt) none

theorem best_concat : best lt (as ++ [a]) = keepBetter lt (best lt as) a := by
  simp only [best, List.foldl_append, List.foldl_cons, List.foldl_nil]

theorem best_mem (h : best lt as = some b) : b ∈ as := by
  induction as using List.reverseRecOn generalizing b with
  | nil => cases h
  | append_singleton as a ih =>
    rw [best_concat] at h
    cases hbest : best lt as with
    | none => rw [hbest] at h; cases h; simp
    | some b' =>
      rw [hbest, keepBetter] at h
      split at h
      · cases h; simp
      · cases h; exact List.mem_append_left _ (ih hbest)

theorem best_eq_none : best lt as = none ↔ as = [] := by
  refine ⟨fun h => ?_, fun h => h ▸ rfl⟩
  induction as using List.reverseRecOn with
  | nil => rfl
  | append_singleton as a _ =>
    rw [best_concat] at h
    cases hbest : best lt as with
    | none => rw [hbest] at h; cases h
    | some b' => rw [hbest, keepBetter] at h; split at h <;> cases h

section

variable (hirrefl : ∀ a, lt a a = false) (htrans : ∀ a b c, lt a b = true → lt b c = true → lt a c = true)
include hirrefl htrans

theorem best_least (h : best lt as = some b) : ∀ a ∈ as, lt a b = false := by
  induction as using List.reverseRecOn generalizing b with
  | nil => cases h
  | append_singleton as d ih =>
    intro a ha
    rw [List.mem_append, List.mem_singleton] at ha
    rw [best_concat] at h
    cases hbest : best lt as with
    | none =>
      rw [hbest] at h
      cases h
      rw [best_eq_none.mp hbest] at ha
      rcases ha with ha | rfl
      · cases ha
      · exact hirrefl _
    | some b' =>
      rw [hbest, keepBetter] at h
      split_ifs at h with hlt
      · cases h
        rcases ha with ha | rfl
        · -- an older element better than `d` would be better than the previous best
          rw [Bool.eq_false_iff]
          intro had
          exact Bool.eq_false_iff.mp (ih hbest a ha) (htrans a d b' had hlt)
        · exact hirrefl _
      · cases h
        rcases ha with ha | rfl
        · exact ih hbest a ha
        · exact Bool.eq_false_iff.mpr hlt

/-- Where the order separates the elements of the list, the best one does not depend on their positions. -/
theorem best_perm (hsep : ∀ a ∈ as, ∀ b ∈ as, lt a b = false → lt b a = false → a = b) (hperm : as.Perm bs) :
    best lt as = best lt bs := by
  cases ha : best lt as with
  | none =>
    rw [best_eq_none.mp ha] at hperm
    rw [List.Perm.eq_nil hperm.symm]
    rfl
  | some a =>
    cases hb : best lt bs with
    | none =>
      rw [best_eq_none.mp hb] at hperm
      have hmem := best_mem ha
      rw [List.Perm.eq_nil hperm] at hmem
      cases hmem
    | some b =>
      have hma := best_mem ha
      have hmb := hperm.mem_iff.mpr (best_mem hb)
      rw [hsep a hma b hmb (best_least hirrefl htrans hb a (hperm.mem_iff.mp hma))
        (best_least hirrefl htrans ha b hmb)]

end

/-! ## The highest score -/

section Highest

variable {f : α → Int} {bound : Int}

def keepHigher (f : α → Int) (bound : Int) (best : Option α) (a : α) : Option α :=
  if best.elim bound f < f a then some a else best

/-- The first element with the highest score, if that is above the bound. -/
def highest (f : α → Int) (bound : Int) (as : List α) : Option α := as.foldl (keepHigher f bound) none

structure FirstHighest (f : α → Int) (bound : Int) (as : List α) (a : α) : Prop where
  above : bound < f a
  first : ∃ i : Nat, as[i]? = some a ∧ ∀ (j : Nat) b, as[j]? = some b → f b ≤ f a ∧ (j < i → f b < f a)

theorem FirstHighest.unique (ha : FirstHighest f bound as a) (hb : FirstHighest f bound as b) : a = b := by
  obtain ⟨i, hi, hfirst⟩ := ha.first
  obtain ⟨j, hj, hfirst'⟩ := hb.first
  have hij := hfirst j b hj
  have hji := hfirst' i a hi
  obtain rfl : i = j := by omega
  exact Option.some.inj (hi.symm.trans hj)

theorem highest_concat : highest f bound (as ++ [a]) = keepHigher f bound (highest f bound as) a := by
  simp only [highest, List.foldl_append, List.foldl_cons, List.foldl_nil]

/-- The pass keeps the highest score so far and the first element that has it. -/
theorem highest_spec (f : α → Int) (bound : Int) (as : List α) :
    (∀ b ∈ as, f b ≤ (highest f bound as).elim bound f) ∧ ∀ a, highest f bound as = some a → FirstHighest f bound as a := by
  induction as using List.reverseRecOn with
  | nil => exact ⟨nofun, nofun⟩
  | append_singleton as d ih =>
    obtain ⟨hle, hfirst⟩ := ih
    have hbound : bound ≤ (highest f bound as).elim bound f := by
      cases h : highest f bound as with
      | none => exact Int.le_refl _
      | some a => exact Int.le_of_lt (hfirst a h).above
    have hlast : ∀ (j : Nat) b, (as ++ [d])[j]? = some b → b ∈ as ∧ j < as.length ∨ b = d ∧ j = as.length := by
      intro j b hj
      rcases Nat.lt_trichotomy j as.length with hlt | rfl | hgt
      · rw [List.getElem?_append_left hlt] at hj
        exact .inl ⟨List.mem_of_getElem? hj, hlt⟩
      · rw [List.getElem?_concat_length] at hj
        exact .inr ⟨(Option.some.inj hj).symm, rfl⟩
      · rw [List.getElem?_eq_none (by simp; omega)] at hj
        cases hj
    rw [highest_concat, keepHigher, List.forall_mem_append, List.forall_mem_singleton]
    split_ifs with hlt
    · refine ⟨⟨fun b hb => (hle b hb).trans (Int.le_of_lt hlt), Int.le_refl _⟩, fun a ha => ?_⟩
      cases ha
      refine ⟨Int.lt_of_le_of_lt hbound hlt, as.length, List.getElem?_concat_length, fun j b hj => ?_⟩
      rcases hlast j b hj with ⟨hb, -⟩ | ⟨rfl, rfl⟩
      · have := Int.lt_of_le_of_lt (hle b hb) hlt
        omega
      · omega
    · refine ⟨⟨hle, Int.not_lt.mp hlt⟩, fun a ha => ?_⟩
      rw [ha] at hle hlt
      obtain ⟨habove, i, hi, hbefore⟩ := hfirst a ha
      have hlen : i < as.length := (List.getElem?_eq_some_iff.mp hi).1
      refine ⟨habove, i, by rwa [List.getElem?_append_left hlen], fun j b hj => ?_⟩
      rcases hlast j b hj with ⟨hb, hjlen⟩ | ⟨rfl, rfl⟩
      · rw [List.getElem?_append_left hjlen] at hj
        exact hbefore j b hj
      · exact ⟨Int.not_lt.mp hlt, fun h => by omega⟩

theorem highest_eq_none : highest f bound as = none ↔ ∀ a ∈ as, f a ≤ bound := by
  obtain ⟨hle, hfirst⟩ := highest_spec f bound as
  refine ⟨fun h => by rwa [h] at hle, fun h => ?_⟩
  cases hbest : highest f bound as with
  | none => rfl
  | some a =>
    obtain ⟨habove, i, hi, -⟩ := hfirst a hbest
    have := h a (List.mem_of_getElem? hi)
    omega

theorem highest_eq_some : highest f bound as = some a ↔ FirstHighest f bound as a := by
  refine ⟨(highest_spec f bound as).2 a, fun ha => ?_⟩
  cases hbest : highest f bound as with
  | none =>
    obtain ⟨i, hi, -⟩ := ha.first
    exact absurd (highest_eq_none.mp hbest a (List.mem_of_getElem? hi)) (Int.not_le.mpr ha.above)
  | some b => rw [((highest_spec f bound as).2 b hbest).unique ha]

end Highest

theorem exists_first {P : α → Prop} (h : ∃ a ∈ as, P a) :
    ∃ pre a post, as = pre ++ a :: post ∧ (∀ b ∈ pre, ¬P b) ∧ P a := by
  classical
  obtain ⟨a, ha⟩ := Option.isSome_iff_exists.mp (List.find?_isSome (p := fun a => decide (P a)).mpr (by simpa using h))
  obtain ⟨hP, pre, post, heq, hpre⟩ := List.find?_eq_some_iff_append.mp ha
  exact ⟨pre, a, post, heq, by simpa using hpre, by simpa using hP⟩

end Lib
