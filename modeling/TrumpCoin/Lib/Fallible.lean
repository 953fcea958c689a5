import Mathlib.Algebra.Order.Ring.Int
import Mathlib.Tactic.Common

/-!
# Fallible computations and their runs

Code that may stop with an error is an `Except`. `Outcome x P Q` says what is known of such a
computation on both exits: `P` of the value it returns, `Q` of the error it stops with. With
`Q = fun _ => False` it is total correctness (`Returns`), with `Q = fun _ => True` partial correctness.

* `Outcome.bind`: sequencing;
* `Outcome.foldlM`: a loop over a list, with an invariant that sees the part already processed;
* `foldlM_inv`, `foldlM_along`: the two partial-correctness readings used most.
-/

namespace Lib

variable {ε α β σ : Type}
variable {f : α → Except ε β} {a : α}

theorem bind_eq_ok {x : Except ε α} {b : β} : (x >>= f) = .ok b ↔ ∃ a, x = .ok a ∧ f a = .ok b := by
  cases x with
  | error e => exact ⟨nofun, nofun⟩
  | ok a => exact ⟨fun h => ⟨a, rfl, h⟩, fun ⟨_, h, h'⟩ => Except.ok.inj h ▸ h'⟩

@[simp] theorem ok_bind : (.ok a >>= f : Except ε β) = f a := rfl

@[simp] theorem error_bind {e : ε} : (.error e >>= f : Except ε β) = .error e := rfl

theorem pure_eq_ok {a b : α} : (pure a : Except ε α) = .ok b ↔ a = b :=
  ⟨Except.ok.inj, congrArg Except.ok⟩

/-- Stop with `e` unless `p` holds. -/
def require (e : ε) (p : Prop) [Decidable p] : Except ε Unit :=
  if p then .ok () else .error e

theorem require_pos {e : ε} {p : Prop} [Decidable p] (h : p) : require e p = .ok () := if_pos h

@[simp] theorem require_eq_ok {e : ε} {p : Prop} [Decidable p] {u : Unit} : require e p = .ok u ↔ p := by
  unfold require; split <;> simp_all

/-! ## Both exits of a computation -/

/-- A returned value satisfies `P`, a reported error satisfies `Q`. -/
def Outcome (x : Except ε α) (P : α → Prop) (Q : ε → Prop) : Prop :=
  match x with
  | .ok a => P a
  | .error e => Q e

/-- Total correctness. -/
abbrev Returns (x : Except ε α) (P : α → Prop) : Prop := Outcome x P fun _ => False

@[simp] theorem outcome_ok {P : α → Prop} {Q : ε → Prop} : Outcome (.ok a) P Q ↔ P a := Iff.rfl

@[simp] theorem outcome_pure {P : α → Prop} {Q : ε → Prop} :
    Outcome (pure a : Except ε α) P Q ↔ P a := Iff.rfl

instance {x : Except ε α} {P : α → Prop} {Q : ε → Prop} [DecidablePred P] [DecidablePred Q] :
    Decidable (Outcome x P Q) :=
  match x with
  | .ok a => inferInstanceAs (Decidable (P a))
  | .error e => inferInstanceAs (Decidable (Q e))

namespace Outcome

variable {x : Except ε α} {P P' : α → Prop} {Q Q' : ε → Prop}

theorem of_ok (h : Outcome x P Q) {a : α} (hx : x = .ok a) : P a := by subst hx; exact h

variable {e : ε}

theorem of_error (h : Outcome x P Q) (hx : x = .error e) : Q e := by subst hx; exact h

theorem of_forall (hok : ∀ a, x = .ok a → P a) (herr : ∀ e, x = .error e → Q e) : Outcome x P Q := by
  cases hx : x with
  | ok a => exact hok a hx
  | error e => exact herr e hx

theorem mono (h : Outcome x P Q) (hP : ∀ a, P a → P' a) (hQ : ∀ e, Q e → Q' e) : Outcome x P' Q' :=
  of_forall (fun a hx => hP a (h.of_ok hx)) (fun e hx => hQ e (h.of_error hx))

/-- Sequencing: the continuation may use both that the first part returned `a` and what is known of `a`. -/
theorem bind {f : α → Except ε β} {R : β → Prop} (hx : Outcome x P Q)
    (hf : ∀ a, x = .ok a → P a → Outcome (f a) R Q) : Outcome (x >>= f) R Q := by
  cases x with
  | ok a => exact hf a rfl hx
  | error e => exact hx

theorem require {p : Prop} [Decidable p] (h : ¬p → Q e) : Outcome (Lib.require e p) (fun _ => p) Q := by
  unfold Lib.require
  split
  · assumption
  · exact h ‹_›

theorem exists_ok (h : Returns x P) : ∃ a, x = .ok a ∧ P a := by
  cases x with
  | ok a => exact ⟨a, rfl, h⟩
  | error e => exact h.elim

theorem eq_error (h : Outcome x (fun _ => False) (· = e)) : x = .error e := by
  cases x with
  | ok a => exact h.elim
  | error e' => exact congrArg Except.error h

/-- The loop rule. The invariant `I` sees the part of the list already processed, so that a step may
use what came before it and what is still to come. -/
theorem foldlM {f : σ → α → Except ε σ} {I : List α → σ → Prop} {l : List α} {s : σ}
    (step : ∀ pre a post s, l = pre ++ a :: post → I pre s → Outcome (f s a) (I (pre ++ [a])) Q)
    (init : I [] s) : Outcome (l.foldlM f s) (I l) Q := by
  -- induction on the part still to process, for every split of the list
  suffices H : ∀ post pre s, l = pre ++ post → I pre s → Outcome (post.foldlM f s) (I l) Q from H l [] s rfl init
  intro post
  induction post with
  | nil =>
    intro pre s hl hI
    rw [List.append_nil] at hl
    subst hl
    exact hI
  | cons a post ih =>
    intro pre s hl hI
    rw [List.foldlM_cons]
    refine (step pre a post s hl hI).bind fun s' _ hs' => ?_
    exact ih (pre ++ [a]) s' (by rw [hl, List.append_assoc]; rfl) hs'

end Outcome

/-! ## Partial correctness of loops -/

section Loops

variable {f : σ → α → Except ε σ} {l : List α} {s s' : σ}

theorem foldlM_along {I : List α → σ → Prop}
    (step : ∀ pre a post s s', l = pre ++ a :: post → I pre s → f s a = .ok s' → I (pre ++ [a]) s')
    (init : I [] s) (h : l.foldlM f s = .ok s') : I l s' :=
  (Outcome.foldlM (Q := fun _ => True)
    (fun pre a post s hl hI => .of_forall (fun s' hs => step pre a post s s' hl hI hs) fun _ _ => trivial)
    init).of_ok h

variable {I : σ → Prop}

theorem foldlM_inv (step : ∀ a ∈ l, ∀ s s', I s → f s a = .ok s' → I s') (init : I s) (h : l.foldlM f s = .ok s') :
    I s' :=
  foldlM_along (I := fun _ s => I s)
    (fun pre a post s s' hl hI hs => step a (by rw [hl]; simp) s s' hI hs) init h

theorem foldlM_split {pre post : List α} {a : α} (h : (pre ++ a :: post).foldlM f s = .ok s') :
    ∃ t t', pre.foldlM f s = .ok t ∧ f t a = .ok t' ∧ post.foldlM f t' = .ok s' := by
  rw [List.foldlM_append, bind_eq_ok] at h
  obtain ⟨t, hpre, h⟩ := h
  rw [List.foldlM_cons, bind_eq_ok] at h
  obtain ⟨t', hstep, hpost⟩ := h
  exact ⟨t, t', hpre, hstep, hpost⟩

theorem forM_eq_ok {g : α → Except ε Unit} : ∀ {l : List α}, l.forM g = .ok () ↔ ∀ a ∈ l, g a = .ok ()
  | [] => ⟨fun _ => nofun, fun _ => rfl⟩
  | a :: l => by
    rw [List.forall_mem_cons, ← forM_eq_ok]
    exact bind_eq_ok.trans ⟨fun ⟨(), h⟩ => h, fun h => ⟨(), h⟩⟩

variable {κ ν : Type} (obs : σ → κ → ν) (key : α → κ) {upd : α → ν → ν}
  (step : ∀ a ∈ l, ∀ s s', I s → f s a = .ok s' →
    I s' ∧ obs s' (key a) = upd a (obs s (key a)) ∧ ∀ k, k ≠ key a → obs s' k = obs s k) (hnodup : (l.map key).Nodup)
include step hnodup

/-- A loop whose step for `a` changes only what is observed at `key a`, over distinct keys: every key is changed once,
by its own element. -/
theorem foldlM_update (hs : I s) (h : l.foldlM f s = .ok s') :
    I s' ∧ (∀ a ∈ l, obs s' (key a) = upd a (obs s (key a))) ∧ ∀ k, k ∉ l.map key → obs s' k = obs s k := by
  induction l generalizing s with
  | nil =>
    cases h
    exact ⟨hs, nofun, fun _ _ => rfl⟩
  | cons a l ih =>
    rw [List.foldlM_cons] at h
    obtain ⟨t, hstep, h⟩ := bind_eq_ok.mp h
    rw [List.map_cons, List.nodup_cons] at hnodup
    obtain ⟨ht, hself, hother⟩ := step a List.mem_cons_self s t hs hstep
    obtain ⟨hs', hmem, hrest⟩ := ih (fun b hb => step b (List.mem_cons_of_mem a hb)) hnodup.2 ht h
    refine ⟨hs', List.forall_mem_cons.mpr ⟨?_, fun b hb => ?_⟩, fun k hk => ?_⟩
    · rw [hrest _ hnodup.1, hself]
    · rw [hmem b hb, hother _ fun he => hnodup.1 (List.mem_map.mpr ⟨b, hb, he⟩)]
    · rw [List.map_cons, List.mem_cons, not_or] at hk
      rw [hrest k hk.2, hother k hk.1]

theorem foldlM_update_perm {l' : List α} {t : σ} (hperm : l.Perm l') (hs : I s) (h : l.foldlM f s = .ok s')
    (h' : l'.foldlM f s = .ok t) : I s' ∧ I t ∧ obs s' = obs t := by
  obtain ⟨hI, hmem, hrest⟩ := foldlM_update obs key step hnodup hs h
  obtain ⟨hI', hmem', hrest'⟩ := foldlM_update obs key (fun a ha => step a (hperm.mem_iff.mpr ha))
    ((hperm.map key).nodup_iff.mp hnodup) hs h'
  refine ⟨hI, hI', funext fun k => ?_⟩
  by_cases hk : k ∈ l.map key
  · obtain ⟨a, ha, rfl⟩ := List.mem_map.mp hk
    rw [hmem a ha, hmem' a (hperm.mem_iff.mp ha)]
  · rw [hrest k hk, hrest' k fun hk' => hk ((hperm.map key).mem_iff.mpr hk')]

end Loops

/-! ## Two computations that agree -/

/-- Both computations stop with the same error, or both return and `R` relates what they return. -/
inductive Agree (R : α → β → Prop) : Except ε α → Except ε β → Prop
  | error (e : ε) : Agree R (.error e) (.error e)
  | ok {a : α} {b : β} : R a b → Agree R (.ok a) (.ok b)

namespace Agree

variable {R : α → β → Prop} {x : Except ε α} {y : Except ε β}

theorem bind {α' β' : Type} {R' : α' → β' → Prop} {f : α → Except ε α'} {g : β → Except ε β'} (h : Agree R x y)
    (hfg : ∀ a b, R a b → Agree R' (f a) (g b)) : Agree R' (x >>= f) (y >>= g) := by
  cases h with
  | error e => exact .error e
  | ok hab => exact hfg _ _ hab

theorem mono {R' : α → β → Prop} (h : Agree R x y) (hR : ∀ a b, R a b → R' a b) : Agree R' x y := by
  cases h with
  | error e => exact .error e
  | ok hab => exact .ok (hR _ _ hab)

theorem of_ok {b : β} (h : Agree R x y) (hy : y = .ok b) : ∃ a, x = .ok a ∧ R a b := by
  subst hy
  cases h with
  | ok hab => exact ⟨_, rfl, hab⟩

theorem foldlM {γ : Type} {f : α → γ → Except ε α} {g : β → γ → Except ε β} : ∀ {l : List γ} {a : α} {b : β},
    (∀ c ∈ l, ∀ a b, R a b → Agree R (f a c) (g b c)) → R a b → Agree R (l.foldlM f a) (l.foldlM g b)
  | [], _, _, _, hab => .ok hab
  | c :: l, a, b, hstep, hab => by
    rw [List.foldlM_cons, List.foldlM_cons]
    exact (hstep c List.mem_cons_self a b hab).bind fun a' b' hab' =>
      foldlM (fun c' hc' => hstep c' (List.mem_cons_of_mem c hc')) hab'

end Agree

/-! ## Leaving out checks -/

/-- Whatever the first computation returns, the second returns too. -/
def Eased (x y : Except ε α) : Prop := ∀ a, x = .ok a → y = .ok a

namespace Eased

variable {x y z w : Except ε α} {g : α → Except ε β} {e e' : ε} {p q : Prop} [Decidable p] [Decidable q]

theorem refl (x : Except ε α) : Eased x x := fun _ h => h

theorem error : Eased (.error e) y := fun _ h => by cases h

theorem bind (hx : Eased x y) (hf : ∀ a, Eased (f a) (g a)) : Eased (x >>= f) (y >>= g) := by
  intro b h
  obtain ⟨a, ha, hb⟩ := bind_eq_ok.mp h
  exact bind_eq_ok.mpr ⟨a, hx a ha, hf a b hb⟩

theorem skip {z : Except ε β} (hf : ∀ a, Eased (f a) z) : Eased (x >>= f) z := by
  intro b h
  obtain ⟨a, -, hb⟩ := bind_eq_ok.mp h
  exact hf a b hb

theorem require (h : p → q) : Eased (Lib.require e p) (Lib.require e q) :=
  fun _ hp => require_pos (h (require_eq_ok.mp hp))

theorem ite (hx : Eased x y) (hz : Eased z w) : Eased (if p then x else z) (if p then y else w) := by
  split_ifs <;> assumption

theorem ite_error (h : p → q) (hx : Eased x y) : Eased (if q then .error e else x) (if p then .error e' else y) := by
  intro a ha
  split_ifs at ha with hq
  rw [if_neg (mt h hq)]
  exact hx a ha

end Eased

end Lib
