import RiaJit.Lib.EmitLogic

/-!
# Code with forward jumps

A machine whose instructions may jump forward over some of those that follow. A run goes
through the code once, so it always ends. A piece of code that runs to its end runs in the
same way in front of other code, since a jump is relative.

Such code is often written in one pass: a jump goes out as a dummy and is written again in
its place when the code behind it is known. `Patched` is that discipline, with positions
counted from the first instruction of the piece.
-/

set_option autoImplicit false

namespace ForwardJumps

open EmitLogic

/-! ## Runs -/

section Machine

variable {σ ι S α β : Type} (step : ι → S → Option (S × Nat))

/-- Runs code of which the first instructions, as many as the number says, are jumped over.
An instruction gives the number for those behind it. -/
def runFrom : Nat → List ι → S → Option S
  | 0, [], h => some h
  | _ + 1, [], _ => none
  | 0, i :: is, h => (step i h).bind fun p => runFrom p.2 is p.1
  | k + 1, _ :: is, h => runFrom k is h

/-- A piece that runs to its end is followed by what comes behind it. -/
theorem runFrom_append {k : Nat} {is js : List ι} {h h' : S}
    (hrun : runFrom step k is h = some h') :
    runFrom step k (is ++ js) h = runFrom step 0 js h' := by
  induction is generalizing k h with
  | nil =>
      cases k with
      | zero =>
          obtain rfl := Option.some.inj hrun
          rfl
      | succ k => exact absurd hrun nofun
  | cons i is ih =>
      cases k with
      | zero =>
          obtain ⟨p, hstep, hrest⟩ := Option.bind_eq_some_iff.1 hrun
          show (step i h).bind _ = _
          rw [hstep]
          exact ih hrest
      | succ k => exact ih (k := k) hrun

/-- A piece that is jumped over is left out. -/
theorem runFrom_skip (is js : List ι) (h : S) :
    runFrom step is.length (is ++ js) h = runFrom step 0 js h := by
  induction is with
  | nil => rfl
  | cons i is ih => exact ih

/-- A jump to the end. -/
theorem runFrom_length (is : List ι) (h : S) : runFrom step is.length is h = some h := by
  have hskip := runFrom_skip step is [] h
  rw [List.append_nil] at hskip
  exact hskip

variable {step}

/-- The generator returns `a` and the state `s'`, and its code takes `h` to `h'`. -/
def Runs (step : ι → S → Option (S × Nat)) (g : Gen σ ι α) (s : σ) (h : S) (a : α) (s' : σ)
    (h' : S) : Prop :=
  ∃ code, g s = (a, code, s') ∧ runFrom step 0 code h = some h'

section Rules

variable {g : Gen σ ι α} {s s₁ s' : σ} {h h₁ h' : S} {a : α} {b : β}

theorem Runs.ret (a : α) (s : σ) (h : S) : Runs step (pure a : Gen σ ι α) s h a s h :=
  ⟨[], rfl, rfl⟩

theorem Runs.bind {k : α → Gen σ ι β} (hg : Runs step g s h a s₁ h₁)
    (hk : Runs step (k a) s₁ h₁ b s' h') : Runs step (g >>= k) s h b s' h' := by
  obtain ⟨code, hgs, hrun⟩ := hg
  obtain ⟨code', hks, hrun'⟩ := hk
  refine ⟨code ++ code', ?_, ?_⟩
  · show ((k (g s).1 (g s).2.2).1, (g s).2.1 ++ _, _) = _
    rw [hgs, hks]
  · rw [runFrom_append step hrun]
    exact hrun'

theorem Runs.emit {i : ι} (s : σ) (hstep : step i h = some (h', 0)) :
    Runs step (Gen.emit i) s h () s h' := by
  refine ⟨[i], rfl, ?_⟩
  show (step i h).bind _ = _
  rw [hstep]
  rfl

theorem Runs.modify (f : σ → σ) (s : σ) (h : S) :
    Runs step (Gen.modify f : Gen σ ι Unit) s h () (f s) h :=
  ⟨[], rfl, rfl⟩

/-- Neither the generator nor its code has a choice. -/
theorem Runs.unique {s₂ : σ} {h₂ : S} {c : α} (hg : Runs step g s h a s₁ h₁)
    (hg' : Runs step g s h c s₂ h₂) : a = c ∧ s₁ = s₂ ∧ h₁ = h₂ := by
  obtain ⟨code, hgs, hrun⟩ := hg
  obtain ⟨code', hgs', hrun'⟩ := hg'
  obtain ⟨rfl, hrest⟩ := Prod.mk.inj (hgs.symm.trans hgs')
  obtain ⟨rfl, rfl⟩ := Prod.mk.inj hrest
  exact ⟨rfl, rfl, Option.some.inj (hrun.symm.trans hrun')⟩

end Rules

end Machine

/-! ## Guarded machines -/

section Guarded

variable {σ ι S α : Type} {step : ι → S → Option (S × Nat)} (P : S → Prop) [DecidablePred P]

/-- The machine that gets stuck in states without `P`. -/
def guarded (step : ι → S → Option (S × Nat)) : ι → S → Option (S × Nat) := fun i h =>
  if P h then step i h else none

variable {P} {g : Gen σ ι α} {s s' : σ} {h h' : S} {a : α}

/-- Code whose instructions keep `P` runs in the same way on the guarded machine. -/
theorem runFrom_guarded {is : List ι} {k : Nat}
    (hkeeps : ∀ i ∈ is, ∀ h p, step i h = some p → P h → P p.1) (hP : P h)
    (hrun : runFrom step k is h = some h') : runFrom (guarded P step) k is h = some h' ∧ P h' := by
  induction is generalizing k h with
  | nil =>
      cases k with
      | zero =>
          obtain rfl := Option.some.inj hrun
          exact ⟨rfl, hP⟩
      | succ k => exact absurd hrun nofun
  | cons i is ih =>
      have hrest : ∀ j ∈ is, ∀ h p, step j h = some p → P h → P p.1 := fun j hj =>
        hkeeps j (List.mem_cons_of_mem i hj)
      cases k with
      | zero =>
          obtain ⟨p, hstep, hrun'⟩ := Option.bind_eq_some_iff.1 hrun
          obtain ⟨hguarded, hP'⟩ := ih hrest (hkeeps i List.mem_cons_self h p hstep hP) hrun'
          refine ⟨?_, hP'⟩
          show (guarded P step i h).bind _ = _
          unfold guarded
          rw [if_pos hP, hstep]
          exact hguarded
      | succ k => exact ih hrest hP (k := k) hrun

/-- A generator whose instructions keep `P` does not notice the guard. -/
theorem Runs.guarded {p : ι → Prop}
    (hkeeps : ∀ i, p i → ∀ h p', step i h = some p' → P h → P p'.1)
    (hemits : Emits (fun _ => True) p g fun _ _ => True) (hP : P h)
    (hg : Runs step g s h a s' h') : Runs (guarded P step) g s h a s' h' := by
  obtain ⟨code, hgs, hrun⟩ := hg
  have hcode := (hemits s trivial).1
  rw [hgs] at hcode
  exact ⟨code, hgs, (runFrom_guarded (fun i hi => hkeeps i (hcode i hi)) hP hrun).1⟩

/-- The guard only takes runs away. -/
theorem runFrom_of_guarded {is : List ι} {k : Nat}
    (hrun : runFrom (guarded P step) k is h = some h') : runFrom step k is h = some h' := by
  induction is generalizing k h with
  | nil =>
      cases k with
      | zero => exact hrun
      | succ k => exact absurd hrun nofun
  | cons i is ih =>
      cases k with
      | zero =>
          obtain ⟨p, hstep, hrun'⟩ := Option.bind_eq_some_iff.1 hrun
          unfold guarded at hstep
          split at hstep
          · show (step i h).bind _ = _
            rw [hstep]
            exact ih hrun'
          · exact absurd hstep nofun
      | succ k => exact ih (k := k) hrun

theorem Runs.of_guarded (hg : Runs (ForwardJumps.guarded P step) g s h a s' h') :
    Runs step g s h a s' h' := by
  obtain ⟨code, hgs, hrun⟩ := hg
  exact ⟨code, hgs, runFrom_of_guarded hrun⟩

end Guarded

/-! ## Code in one piece -/

/-- A generator that emits a piece of code. -/
def emitCode {σ ι : Type} (is : List ι) : Gen σ ι Unit := fun s => ((), is, s)

theorem runs_emitCode {σ ι S : Type} {step : ι → S → Option (S × Nat)} {is : List ι} (s : σ)
    {h h' : S} (hrun : runFrom step 0 is h = some h') : Runs step (emitCode is) s h () s h' :=
  ⟨is, rfl, hrun⟩

/-! ## Straight code of another machine -/

section Embedding

variable {σ τ ι κ S T α : Type}

/-- The code of a generator for another machine, whose state is a part of this one's. -/
def embed (into : ι → κ) (get : τ → σ) (set : τ → σ → τ) (g : Gen σ ι α) : Gen τ κ α := fun t =>
  ((g (get t)).1, (g (get t)).2.1.map into, set t (g (get t)).2.2)

variable (step : κ → T → Option (T × Nat)) (exec : ι → S → Option S) (into : ι → κ)
  (get : τ → σ) (set : τ → σ → τ) (part : T → S) (p : ι → Prop)

/-- Straight code keeps its meaning, up to what the relation leaves open, if each of its
instructions does. -/
theorem runs_embed (R : T → T → Prop) (hrefl : ∀ h, R h h)
    (htrans : ∀ h h' h'', R h h' → R h' h'' → R h h'')
    (hstep : ∀ i h k, p i → exec i (part h) = some k →
      ∃ h', step (into i) h = some (h', 0) ∧ part h' = k ∧ R h h')
    {g : Gen σ ι α} {t : τ} {h : T} {a : α} {s' : σ} {k : S}
    (hp : ∀ i ∈ (g (get t)).2.1, p i) (hg : EmitLogic.Runs exec g (get t) (part h) a s' k) :
    ∃ h', Runs step (embed into get set g) t h a (set t s') h' ∧ part h' = k ∧ R h h' := by
  obtain ⟨code, hgs, hrun⟩ := hg
  rw [hgs] at hp
  have hcode : ∃ h', runFrom step 0 (code.map into) h = some h' ∧ part h' = k ∧ R h h' := by
    clear hgs
    induction code generalizing h with
    | nil => exact ⟨h, rfl, Option.some.inj hrun, hrefl h⟩
    | cons i is ih =>
        obtain ⟨k₁, hexec, hrest⟩ := Option.bind_eq_some_iff.1 hrun
        obtain ⟨h₁, hstep₁, rfl, hR⟩ := hstep i h k₁ (hp i List.mem_cons_self) hexec
        obtain ⟨h', hrun', hpart, hR'⟩ := ih (fun j hj => hp j (List.mem_cons_of_mem i hj)) hrest
        refine ⟨h', ?_, hpart, htrans _ _ _ hR hR'⟩
        show (step (into i) h).bind _ = _
        rw [hstep₁]
        exact hrun'
  obtain ⟨h', hrun', hpart, hR⟩ := hcode
  refine ⟨h', ⟨code.map into, ?_, hrun'⟩, hpart, hR⟩
  unfold embed
  rw [hgs]

end Embedding

/-! ## Jumps that are patched -/

/-- A piece of code in the making. -/
def Patched (ι α : Type) : Type := List ι → α × List ι

namespace Patched

variable {ι α β : Type}

instance : Monad (Patched ι) where
  pure a := fun is => (a, is)
  bind p k := fun is => k (p is).1 (p is).2

/-- Writes one instruction. -/
def put (i : ι) : Patched ι Unit := fun is => ((), is ++ [i])

/-- Writes some instructions. -/
def putAll (is : List ι) : Patched ι Unit := fun js => ((), js ++ is)

/-- The position of the next instruction. -/
def here : Patched ι Nat := fun is => (is.length, is)

/-- Writes a jump over the code up to here into the position of a dummy. -/
def patch (pos : Nat) (jump : Nat → ι) : Patched ι Unit := fun is =>
  ((), is.set pos (jump (is.length - (pos + 1))))

/-- The finished piece. -/
def code (p : Patched ι Unit) : List ι := (p []).2

end Patched

/-- A generator that emits a finished piece. -/
def emitPatched {σ ι : Type} (p : Patched ι Unit) : Gen σ ι Unit := emitCode p.code

end ForwardJumps
