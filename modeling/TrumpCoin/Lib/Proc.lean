import TrumpCoin.Lib.Fallible

/-!
# Procedures with a state

A procedure changes a state and may stop with an error; the changes it made before stopping stay. `After x s P Q` says
what is known after `x` ran in the state `s`: `P` of the returned value and the new state, `Q` of the error and the
state it left.

* `after_bind`: sequencing;
* `after_ofExcept`: computations that do not touch the state;
* `Commutes`: procedures that neither see nor undo a change of the state.
-/

namespace Lib

def Proc (σ ε α : Type) : Type := σ → Except ε α × σ

namespace Proc

variable {σ ε α β : Type}

instance : Monad (Proc σ ε) where
  pure a := fun s => (.ok a, s)
  bind x f := fun s =>
    match x s with
    | (.ok a, t) => f a t
    | (.error e, t) => (.error e, t)

/-- A fallible computation that leaves the state alone. -/
def ofExcept (x : Except ε α) : Proc σ ε α := fun s => (x, s)

def read (f : σ → α) : Proc σ ε α := fun s => (.ok (f s), s)

def modify (f : σ → σ) : Proc σ ε Unit := fun s => (.ok (), f s)

def fail (e : ε) : Proc σ ε α := fun s => (.error e, s)

/-- Replace the error a procedure stops with. -/
def mapError (f : ε → ε) (x : Proc σ ε α) : Proc σ ε α := fun s =>
  match x s with
  | (.ok a, t) => (.ok a, t)
  | (.error e, t) => (.error (f e), t)

/-- What is known after a procedure ran. -/
def After (x : Proc σ ε α) (s : σ) (P : α → σ → Prop) (Q : ε → σ → Prop) : Prop :=
  match x s with
  | (.ok a, t) => P a t
  | (.error e, t) => Q e t

variable {x : Proc σ ε α} {s t : σ} {P P' : α → σ → Prop} {Q Q' : ε → σ → Prop}

instance [∀ a t, Decidable (P a t)] [∀ e t, Decidable (Q e t)] : Decidable (After x s P Q) :=
  match h : x s with
  | (.ok a, t) => decidable_of_iff (P a t) (by rw [After, h])
  | (.error e, t) => decidable_of_iff (Q e t) (by rw [After, h])

theorem After.of_ok (h : After x s P Q) {a : α} (hx : x s = (.ok a, t)) : P a t := by
  unfold After at h
  rw [hx] at h
  exact h

theorem After.of_error (h : After x s P Q) {e : ε} (hx : x s = (.error e, t)) : Q e t := by
  unfold After at h
  rw [hx] at h
  exact h

theorem After.mono (h : After x s P Q) (hP : ∀ a t, P a t → P' a t) (hQ : ∀ e t, Q e t → Q' e t) :
    After x s P' Q' := by
  unfold After at h ⊢
  split at h
  · exact hP _ _ h
  · exact hQ _ _ h

theorem After.and (h : After x s P Q) (h' : After x s P' Q') :
    After x s (fun a t => P a t ∧ P' a t) (fun e t => Q e t ∧ Q' e t) := by
  unfold After at h h' ⊢
  split at h
  · rename_i hx
    rw [hx] at h'
    exact ⟨h, h'⟩
  · rename_i hx
    rw [hx] at h'
    exact ⟨h, h'⟩

theorem After.exists_ok (h : After x s P (fun _ _ => False)) : ∃ a t, x s = (.ok a, t) ∧ P a t := by
  unfold After at h
  split at h
  · rename_i a t hx
    exact ⟨a, t, hx, h⟩
  · exact h.elim

@[simp] theorem after_pure {a : α} : After (pure a : Proc σ ε α) s P Q ↔ P a s := Iff.rfl

@[simp] theorem after_read {f : σ → α} : After (read f : Proc σ ε α) s P Q ↔ P (f s) s := Iff.rfl

@[simp] theorem after_modify {f : σ → σ} {P : Unit → σ → Prop} :
    After (modify f : Proc σ ε Unit) s P Q ↔ P () (f s) := Iff.rfl

theorem after_ofExcept {r : Except ε α} : After (ofExcept r : Proc σ ε α) s P Q ↔ Outcome r (P · s) (Q · s) := by
  cases r <;> exact Iff.rfl

theorem after_bind {f : α → Proc σ ε β} {P : β → σ → Prop} :
    After (x >>= f) s P Q ↔ After x s (fun a t => After (f a) t P Q) Q := by
  unfold After
  show (match (match x s with
    | (.ok a, t) => f a t
    | (.error e, t) => (.error e, t)) with
    | (.ok a, t) => P a t
    | (.error e, t) => Q e t) ↔ _
  cases hx : x s with
  | mk r t => cases r <;> exact Iff.rfl

theorem after_mapError {f : ε → ε} : After (mapError f x) s P Q ↔ After x s P (fun e t => Q (f e) t) := by
  unfold After mapError
  cases hx : x s with
  | mk r t => cases r <;> exact Iff.rfl

theorem bind_eq_ok {f : α → Proc σ ε β} {b : β} :
    (x >>= f) s = (.ok b, t) ↔ ∃ a u, x s = (.ok a, u) ∧ f a u = (.ok b, t) := by
  show (match x s with
    | (.ok a, t) => f a t
    | (.error e, t) => (.error e, t)) = _ ↔ _
  cases hx : x s with
  | mk r u => cases r <;> simp

/-! ## Changes that a procedure does not see -/

/-- Changing the state before the procedure or after it makes no difference, and the result is the same. -/
def Commutes (f : σ → σ) (x : Proc σ ε α) : Prop := ∀ s, x (f s) = ((x s).1, f (x s).2)

namespace Commutes

variable {f : σ → σ}

theorem pure (a : α) : Commutes f (pure a : Proc σ ε α) := fun _ => rfl

theorem fail (e : ε) : Commutes f (fail e : Proc σ ε α) := fun _ => rfl

theorem ofExcept (r : Except ε α) : Commutes f (ofExcept r : Proc σ ε α) := fun _ => rfl

theorem read {g : σ → α} (h : ∀ s, g (f s) = g s) : Commutes f (read g : Proc σ ε α) := by
  intro s
  simp only [Proc.read, h]

theorem modify {g : σ → σ} (h : ∀ s, g (f s) = f (g s)) : Commutes f (modify g : Proc σ ε Unit) := by
  intro s
  simp only [Proc.modify, h]

theorem bind {x : Proc σ ε α} {k : α → Proc σ ε β} (hx : Commutes f x) (hk : ∀ a, Commutes f (k a)) :
    Commutes f (x >>= k) := by
  intro s
  show (match x (f s) with
    | (.ok a, t) => k a t
    | (.error e, t) => (.error e, t)) = _
  rw [hx s]
  show _ = ((match x s with
    | (.ok a, t) => k a t
    | (.error e, t) => (.error e, t)).1, f (match x s with
    | (.ok a, t) => k a t
    | (.error e, t) => (.error e, t)).2)
  cases x s with
  | mk r t =>
    cases r with
    | ok a => exact hk a t
    | error e => rfl

theorem after_iff {x : Proc σ ε α} (h : Commutes f x) : After x (f s) P Q ↔
    After x s (fun a t => P a (f t)) (fun e t => Q e (f t)) := by
  unfold After
  rw [h s]
  cases x s with
  | mk r t => cases r <;> exact Iff.rfl

end Commutes

end Proc

end Lib
