import Mathlib.Logic.Basic

/-!
# Stateful computations that can fail

Inversion and specification rules for `StateT σ (Except ε)`. `Spec P x Q E` says that
from a state with `P` the computation `x` either returns, in a state and with a result
that `Q` relates, or fails for a reason in `E`. With `E` always true this is partial
correctness; with a smaller `E` the other reasons are excluded.
-/

set_option autoImplicit false

namespace StateExcept

variable {σ ε α β : Type}

/-! ## Inversion -/

theorem bind_run (x : StateT σ (Except ε) α) (k : α → StateT σ (Except ε) β) (s : σ) :
    (x >>= k) s = (x s).bind fun p => k p.1 p.2 := rfl

/-- A computation that returns decomposes into two that return. -/
theorem bind_ok {x : StateT σ (Except ε) α} {k : α → StateT σ (Except ε) β} {s : σ}
    {r : β × σ} (h : (x >>= k) s = .ok r) :
    ∃ a s₁, x s = .ok (a, s₁) ∧ k a s₁ = .ok r := by
  rw [bind_run] at h
  cases hx : x s with
  | error e =>
      rw [hx] at h
      exact absurd h nofun
  | ok p =>
      rw [hx] at h
      exact ⟨p.1, p.2, rfl, h⟩

/-- A computation goes on from where its first part returns. -/
theorem bind_of_ok {x : StateT σ (Except ε) α} {k : α → StateT σ (Except ε) β} {s s₁ : σ} {a : α}
    (h : x s = .ok (a, s₁)) : (x >>= k) s = k a s₁ := by
  rw [bind_run, h]
  rfl

theorem pure_ok {a b : α} {s s' : σ} (h : (pure a : StateT σ (Except ε) α) s = .ok (b, s')) :
    b = a ∧ s' = s := by
  obtain ⟨rfl, rfl⟩ := Prod.mk.inj (Except.ok.inj h)
  exact ⟨rfl, rfl⟩

/-! ## Specifications -/

/-- From `P`, the computation returns with `Q` or fails with `E`. -/
def Spec (P : σ → Prop) (x : StateT σ (Except ε) α) (Q : α → σ → Prop) (E : ε → Prop) : Prop :=
  ∀ s, P s → (∀ a s', x s = .ok (a, s') → Q a s') ∧ ∀ e, x s = .error e → E e

section Rules

variable {P P' : σ → Prop} {E : ε → Prop}

/-- Returning a value changes nothing. -/
theorem Spec.ret {a : α} {Q : α → σ → Prop} (hQ : ∀ s, P s → Q a s) :
    Spec P (pure a : StateT σ (Except ε) α) Q E := by
  intro s hP
  refine ⟨fun b s' h => ?_, nofun⟩
  obtain ⟨rfl, rfl⟩ := pure_ok h
  exact hQ _ hP

/-- The intermediate assertion of two computations is about the value and the state. -/
theorem Spec.bind {x : StateT σ (Except ε) α} {k : α → StateT σ (Except ε) β}
    {Q : α → σ → Prop} {R : β → σ → Prop} (hx : Spec P x Q E) (hk : ∀ a, Spec (Q a) (k a) R E) :
    Spec P (x >>= k) R E := by
  intro s hP
  obtain ⟨hok, herr⟩ := hx s hP
  refine ⟨fun b s' h => ?_, fun e h => ?_⟩
  · obtain ⟨a, s₁, hxs, hks⟩ := bind_ok h
    exact (hk a s₁ (hok a s₁ hxs)).1 b s' hks
  · rw [bind_run] at h
    cases hxs : x s with
    | error e' =>
        rw [hxs] at h
        obtain rfl : e' = e := Except.error.inj h
        exact herr e' hxs
    | ok p =>
        rw [hxs] at h
        exact (hk p.1 p.2 (hok p.1 p.2 hxs)).2 e h

/-- The rule of consequence. -/
theorem Spec.conseq {x : StateT σ (Except ε) α} {Q Q' : α → σ → Prop} (hx : Spec P' x Q' E)
    (hP : ∀ s, P s → P' s) (hQ : ∀ a s, Q' a s → Q a s) : Spec P x Q E :=
  fun s hp => ⟨fun a s' h => hQ a s' ((hx s (hP s hp)).1 a s' h), (hx s (hP s hp)).2⟩

/-- A choice does what its branch does. -/
theorem Spec.ite {c : Prop} [Decidable c] {x y : StateT σ (Except ε) α} {Q : α → σ → Prop}
    (hx : c → Spec P x Q E) (hy : ¬ c → Spec P y Q E) : Spec P (if c then x else y) Q E := by
  split
  · rename_i hc
    exact hx hc
  · rename_i hc
    exact hy hc

/-- More errors may be allowed. -/
theorem Spec.mono {E' : ε → Prop} {x : StateT σ (Except ε) α} {Q : α → σ → Prop}
    (hx : Spec P x Q E') (hE : ∀ e, E' e → E e) : Spec P x Q E :=
  fun s hP => ⟨(hx s hP).1, fun e h => hE e ((hx s hP).2 e h)⟩

/-- What the precondition says apart from the state may be assumed. -/
theorem Spec.of_fact {c : Prop} {x : StateT σ (Except ε) α} {Q : α → σ → Prop}
    (hx : c → Spec P x Q E) : Spec (fun s => P s ∧ c) x Q E :=
  fun s hP => hx hP.2 s hP.1

/-- Two specifications hold together. -/
theorem Spec.and {x : StateT σ (Except ε) α} {Q Q' : α → σ → Prop} (hx : Spec P x Q E)
    (hx' : Spec P' x Q' E) : Spec (fun s => P s ∧ P' s) x (fun a s => Q a s ∧ Q' a s) E :=
  fun s hP => ⟨fun a s' h => ⟨(hx s hP.1).1 a s' h, (hx' s hP.2).1 a s' h⟩, (hx s hP.1).2⟩

/-- A failure satisfies every postcondition, if the error is allowed. -/
theorem Spec.fail {e : ε} {Q : α → σ → Prop} (he : E e) :
    Spec P (fun _ => .error e : StateT σ (Except ε) α) Q E := by
  intro s _
  refine ⟨fun a s' h => (nomatch h), fun e' h => ?_⟩
  obtain rfl : e = e' := Except.error.inj h
  exact he

end Rules

/-! ## Approximation -/

/-- `y` behaves as `x` wherever `x` does not fail with `e`. -/
def Approx (e : ε) (x y : StateT σ (Except ε) α) : Prop :=
  ∀ s, x s = .error e ∨ y s = x s

section Approx

variable {e : ε}

theorem Approx.refl (x : StateT σ (Except ε) α) : Approx e x x := fun _ => .inr rfl

/-- Approximation is a congruence. -/
theorem Approx.bind {x y : StateT σ (Except ε) α} {k l : α → StateT σ (Except ε) β}
    (hx : Approx e x y) (hk : ∀ a, Approx e (k a) (l a)) : Approx e (x >>= k) (y >>= l) := by
  intro s
  rw [bind_run, bind_run]
  rcases hx s with h | h
  · left
    rw [h]
    rfl
  · rw [h]
    cases x s with
    | error e' => exact .inr rfl
    | ok p => exact hk p.1 p.2

/-- A choice approximates branch by branch. -/
theorem Approx.ite {c : Prop} [Decidable c] {x y x' y' : StateT σ (Except ε) α}
    (hx : Approx e x y) (hx' : Approx e x' y') :
    Approx e (if c then x else x') (if c then y else y') := by
  split
  · exact hx
  · exact hx'

/-- The error approximates everything. -/
theorem Approx.fail (y : StateT σ (Except ε) α) : Approx e (fun _ => .error e) y :=
  fun _ => .inl rfl

end Approx

end StateExcept
