import Mathlib.Logic.Relation

/-!
# Runs between checkpoints

A system whose steps leave a choice, and a set `Q` of states that every run comes back
to. `Returns step P Q m` says that from `m` on, whatever is chosen, the system does not
get stuck and arrives in `Q`, through states with `P` only. Where that holds after each
step from `Q`, it holds in all states that are reached from `Q`, so a property of the
checkpoints becomes one of whole runs.
-/

set_option autoImplicit false

namespace Checkpoints

universe u v

variable {M : Type u} {N : Type v}

/-- Every run from the state arrives in `Q`, through states with `P`. -/
inductive Returns (step : M → M → Prop) (P Q : M → Prop) : M → Prop
  | here {m : M} : Q m → Returns step P Q m
  | step {m : M} : P m → (∃ m', step m m') → (∀ m', step m m' → Returns step P Q m') →
      Returns step P Q m

section

variable {step : M → M → Prop} {P P' Q Q' : M → Prop} {m m' : M}

theorem Returns.mono (h : Returns step P Q m) (hP : ∀ m, P m → P' m) (hQ : ∀ m, Q m → Q' m) :
    Returns step P' Q' m := by
  induction h with
  | here hq => exact .here (hQ _ hq)
  | step hp hnext _ ih => exact .step (hP _ hp) hnext ih

/-- A run that arrives goes on from where it arrives. -/
theorem Returns.trans (h : Returns step P Q m) (hnext : ∀ m, Q m → Returns step P Q' m) :
    Returns step P Q' m := by
  induction h with
  | here hq => exact hnext _ hq
  | step hp hstep _ ih => exact .step hp hstep ih

/-- There is a next state, and every run goes on to arrive in `Q`. -/
structure Departs (step : M → M → Prop) (P Q : M → Prop) (m : M) : Prop where
  inside : P m
  next : ∃ m', step m m'
  returns : ∀ m', step m m' → Returns step P Q m'

theorem Departs.arrives (h : Departs step P Q m) : Returns step P Q m :=
  .step h.inside h.next h.returns

/-- The only step there is. -/
theorem Departs.only (hp : P m) (hstep : step m m') (honly : ∀ m'', step m m'' → m'' = m')
    (h : Returns step P Q m') : Departs step P Q m := by
  refine ⟨hp, ⟨m', hstep⟩, fun m'' hm'' => ?_⟩
  rw [honly m'' hm'']
  exact h

/-- Outside `P` a run has arrived. -/
theorem Returns.arrived (h : Returns step P Q m) (hp : ¬ P m) : Q m := by
  cases h with
  | here hq => exact hq
  | step hp' => exact absurd hp' hp

/-- Where all runs from `Q` are finite, those that arrive there are. -/
theorem Returns.acc (h : Returns step P Q m) (hQ : ∀ m, Q m → Acc (fun m' m => step m m') m) :
    Acc (fun m' m => step m m') m := by
  induction h with
  | here hq => exact hQ _ hq
  | step _ _ _ ih => exact Acc.intro _ ih

/-- No state on the way is stuck. -/
theorem Returns.progress (h : Returns step P Q m) : Q m ∨ ∃ m', step m m' := by
  cases h with
  | here hq => exact .inl hq
  | step _ hnext => exact .inr hnext

/-- Steps that lead from checkpoints back to checkpoints do so in every state that is reached. -/
theorem Returns.run {m₀ : M} (hQ : ∀ m m', Q m → step m m' → Returns step P Q m')
    (h₀ : Returns step P Q m₀) (hrun : Relation.ReflTransGen step m₀ m) : Returns step P Q m := by
  induction hrun with
  | refl => exact h₀
  | tail _ hstep ih =>
      cases ih with
      | here hq => exact hQ _ _ hq hstep
      | step _ _ hall => exact hall _ hstep

end

/-! ## Machines without choices -/

section Functions

variable {f : N → Option N} {Q : N → Prop} {n n' : N}

/-- The run of a machine from the state arrives in `Q`. -/
def Arrives (f : N → Option N) (Q : N → Prop) (n : N) : Prop :=
  ∃ n', Relation.ReflTransGen (fun n n' => f n = some n') n n' ∧ Q n'

theorem Arrives.here (h : Q n) : Arrives f Q n := ⟨n, .refl, h⟩

theorem Arrives.steps (hrun : Relation.ReflTransGen (fun n n' => f n = some n') n n')
    (h : Arrives f Q n') : Arrives f Q n := by
  obtain ⟨n'', hrest, hq⟩ := h
  exact ⟨n'', hrun.trans hrest, hq⟩

theorem Arrives.mono {Q' : N → Prop} (h : Arrives f Q n) (hQ : ∀ n, Q n → Q' n) :
    Arrives f Q' n := by
  obtain ⟨n', hrun, hq⟩ := h
  exact ⟨n', hrun, hQ _ hq⟩

/-- A machine without choices within a system: where the machine steps, the system does
the same and nothing else. -/
theorem Arrives.departs {step : M → M → Prop} {P Q' : M → Prop} (φ : N → M)
    (hP : ∀ n, P (φ n))
    (hstep : ∀ n n', f n = some n' → step (φ n) (φ n') ∧ ∀ m, step (φ n) m → m = φ n')
    (h : Arrives f Q n) (hQ : ∀ n, Q n → Departs step P Q' (φ n)) : Departs step P Q' (φ n) := by
  obtain ⟨n', hrun, hq⟩ := h
  induction hrun using Relation.ReflTransGen.head_induction_on with
  | refl => exact hQ _ hq
  | head hfirst _ ih =>
      obtain ⟨hsame, honly⟩ := hstep _ _ hfirst
      exact .only (hP _) hsame honly ih.arrives

end Functions

end Checkpoints
