import Mathlib.Logic.Basic

/-!
# A logic for code generators

A code generator changes a state of its own while it runs and emits instructions
that run later. Its correctness relates the two times: `Triple P g Q` says that, if
the generator starts in a state and the emitted code later starts on a machine that
`P` relates, then the code runs to its end and `Q` relates the generator's last
state with the machine's. The rules below compose such triples along `bind`.

The instructions, the machine and the generator's state are parameters. An
instruction that the machine cannot run in sequence has no successor state.
-/

set_option autoImplicit false

namespace EmitLogic

/-- A generator: it returns a value, the instructions it emits and its new state. -/
def Gen (σ ι α : Type) : Type := σ → α × List ι × σ

section Generators

variable {σ ι α β : Type}

namespace Gen

/-- Emits nothing. -/
def ret (a : α) : Gen σ ι α := fun s => (a, [], s)

/-- The second generator's code follows the first one's. -/
def andThen (g : Gen σ ι α) (k : α → Gen σ ι β) : Gen σ ι β := fun s =>
  ((k (g s).1 (g s).2.2).1, (g s).2.1 ++ (k (g s).1 (g s).2.2).2.1, (k (g s).1 (g s).2.2).2.2)

instance : Monad (Gen σ ι) where
  pure := ret
  bind := andThen

/-- Emits one instruction. -/
def emit (i : ι) : Gen σ ι Unit := fun s => ((), [i], s)

/-- Reads the generator's state. -/
def get : Gen σ ι σ := fun s => (s, [], s)

/-- Changes the generator's state. -/
def modify (f : σ → σ) : Gen σ ι Unit := fun s => ((), [], f s)

/-- The instructions emitted from the state `s`. -/
def code (g : Gen σ ι α) (s : σ) : List ι := (g s).2.1

end Gen

end Generators

section Code

variable {σ ι α β : Type} {P P' : σ → Prop} {p : ι → Prop}

/-- From `P` the generator emits instructions with `p` only and returns with `Q`. -/
def Emits (P : σ → Prop) (p : ι → Prop) (g : Gen σ ι α) (Q : α → σ → Prop) : Prop :=
  ∀ s, P s → (∀ i ∈ (g s).2.1, p i) ∧ Q (g s).1 (g s).2.2

theorem Emits.ret {Q : α → σ → Prop} (a : α) (hQ : ∀ s, P s → Q a s) :
    Emits P p (pure a : Gen σ ι α) Q :=
  fun s hP => ⟨fun _ h => absurd h List.not_mem_nil, hQ s hP⟩

/-- What a step leaves is what the next one begins with, and all that is emitted satisfies `p`. -/
theorem Emits.bind {g : Gen σ ι α} {k : α → Gen σ ι β} {Q : α → σ → Prop}
    {R : β → σ → Prop} (hg : Emits P p g Q) (hk : ∀ a, Emits (Q a) p (k a) R) :
    Emits P p (g >>= k) R := by
  intro s hP
  obtain ⟨hcode, hQ⟩ := hg s hP
  obtain ⟨hcode', hR⟩ := hk (g s).1 (g s).2.2 hQ
  refine ⟨fun i hi => ?_, hR⟩
  rcases List.mem_append.1 hi with hi | hi
  · exact hcode i hi
  · exact hcode' i hi

/-- The rule of consequence. -/
theorem Emits.conseq {g : Gen σ ι α} {Q Q' : α → σ → Prop} (hg : Emits P' p g Q')
    (hP : ∀ s, P s → P' s) (hQ : ∀ a s, Q' a s → Q a s) : Emits P p g Q :=
  fun s hp => ⟨(hg s (hP s hp)).1, hQ _ _ (hg s (hP s hp)).2⟩

/-- An emission satisfies `p`, if the instruction does. -/
theorem Emits.emit {Q : Unit → σ → Prop} {i : ι} (hi : p i) (hQ : ∀ s, P s → Q () s) :
    Emits P p (Gen.emit i) Q := by
  intro s hP
  refine ⟨fun j hj => ?_, hQ s hP⟩
  rw [List.mem_singleton.1 hj]
  exact hi

theorem Emits.get {Q : σ → σ → Prop} (hQ : ∀ s, P s → Q s s) :
    Emits P p (Gen.get : Gen σ ι σ) Q :=
  fun s hP => ⟨fun _ h => absurd h List.not_mem_nil, hQ s hP⟩

theorem Emits.modify {Q : Unit → σ → Prop} (f : σ → σ) (hQ : ∀ s, P s → Q () (f s)) :
    Emits P p (Gen.modify f : Gen σ ι Unit) Q :=
  fun s hP => ⟨fun _ h => absurd h List.not_mem_nil, hQ s hP⟩

/-- A choice emits what its branch emits. -/
theorem Emits.ite {c : Prop} [Decidable c] {g g' : Gen σ ι α} {Q : α → σ → Prop}
    (ht : c → Emits P p g Q) (hf : ¬ c → Emits P p g' Q) :
    Emits P p (if c then g else g') Q := by
  split
  · rename_i hc
    exact ht hc
  · rename_i hc
    exact hf hc

end Code

section Length

variable {σ ι α β : Type} {n m : Nat}

/-- The generator emits at most `n` instructions. -/
def Bounded (n : Nat) (g : Gen σ ι α) : Prop := ∀ s, (g s).2.1.length ≤ n

/-- The bound may be raised. -/
theorem Bounded.mono {g : Gen σ ι α} (hg : Bounded n g) (hnm : n ≤ m) : Bounded m g :=
  fun s => Nat.le_trans (hg s) hnm

theorem Bounded.ret (a : α) : Bounded 0 (pure a : Gen σ ι α) := fun _ => Nat.le_refl 0

/-- The bounds of two steps add up. -/
theorem Bounded.bind {g : Gen σ ι α} {k : α → Gen σ ι β} (hg : Bounded n g)
    (hk : ∀ a, Bounded m (k a)) : Bounded (n + m) (g >>= k) := by
  intro s
  show ((g s).2.1 ++ (k (g s).1 (g s).2.2).2.1).length ≤ n + m
  rw [List.length_append]
  exact Nat.add_le_add (hg s) (hk _ _)

/-- An emission is one instruction. -/
theorem Bounded.emit (i : ι) : Bounded 1 (Gen.emit i : Gen σ ι Unit) := fun _ => Nat.le_refl 1

theorem Bounded.get : Bounded 0 (Gen.get : Gen σ ι σ) := fun _ => Nat.le_refl 0

theorem Bounded.modify (f : σ → σ) : Bounded 0 (Gen.modify f : Gen σ ι Unit) :=
  fun _ => Nat.le_refl 0

/-- A choice is bounded, if both branches are. -/
theorem Bounded.ite {c : Prop} [Decidable c] {g g' : Gen σ ι α} (hg : Bounded n g)
    (hg' : Bounded n g') : Bounded n (if c then g else g') := by
  split
  · exact hg
  · exact hg'

/-- The generator emits at most `n` instructions, and what it starts with in `I` ends in `I`. -/
structure Takes (I : σ → Prop) (n : Nat) (g : Gen σ ι α) : Prop where
  bounded : Bounded n g
  keeps : ∀ s, I s → I (g s).2.2

section

variable {I : σ → Prop}

/-- The bound may be raised. -/
theorem Takes.mono {g : Gen σ ι α} (hg : Takes I n g) (hnm : n ≤ m) : Takes I m g :=
  ⟨hg.bounded.mono hnm, hg.keeps⟩

theorem Takes.ret (a : α) : Takes I 0 (pure a : Gen σ ι α) := ⟨.ret a, fun _ h => h⟩

/-- The bounds of two steps add up, and what both keep is kept. -/
theorem Takes.bind {g : Gen σ ι α} {k : α → Gen σ ι β} (hg : Takes I n g)
    (hk : ∀ a, Takes I m (k a)) : Takes I (n + m) (g >>= k) :=
  ⟨hg.bounded.bind fun a => (hk a).bounded, fun s h => (hk _).keeps _ (hg.keeps s h)⟩

/-- A choice takes what its branch takes. -/
theorem Takes.ite {c : Prop} [Decidable c] {g g' : Gen σ ι α} (hg : c → Takes I n g)
    (hg' : ¬ c → Takes I n g') : Takes I n (if c then g else g') := by
  split
  · rename_i hc
    exact hg hc
  · rename_i hc
    exact hg' hc

end

end Length

section Machine

variable {σ ι S α β : Type} (exec : ι → S → Option S)

/-- Runs instructions in sequence. -/
def runCode : List ι → S → Option S
  | [], h => some h
  | i :: is, h => (exec i h).bind (runCode is)

/-- Code runs piece by piece. -/
theorem runCode_append (is js : List ι) (h : S) :
    runCode exec (is ++ js) h = (runCode exec is h).bind (runCode exec js) := by
  induction is generalizing h with
  | nil => rfl
  | cons i is ih =>
      show (exec i h).bind (runCode exec (is ++ js)) = ((exec i h).bind _).bind _
      cases exec i h with
      | none => rfl
      | some h' => exact ih h'

/-- The code that `g` emits takes machine states related by `P` to states related
by `Q`. -/
def Triple (P : σ → S → Prop) (g : Gen σ ι α) (Q : α → σ → S → Prop) : Prop :=
  ∀ s h, P s h → ∃ h', runCode exec (g s).2.1 h = some h' ∧ Q (g s).1 (g s).2.2 h'

variable {exec} {P P' : σ → S → Prop}

theorem Triple.ret {Q : α → σ → S → Prop} (a : α) (hQ : ∀ s h, P s h → Q a s h) :
    Triple exec P (pure a : Gen σ ι α) Q :=
  fun s h hP => ⟨h, rfl, hQ s h hP⟩

/-- The intermediate assertion of two steps is about the generator and the machine. -/
theorem Triple.bind {g : Gen σ ι α} {k : α → Gen σ ι β} {Q : α → σ → S → Prop}
    {R : β → σ → S → Prop} (hg : Triple exec P g Q) (hk : ∀ a, Triple exec (Q a) (k a) R) :
    Triple exec P (g >>= k) R := by
  intro s h hP
  obtain ⟨h₁, hrun₁, hQ⟩ := hg s h hP
  obtain ⟨h₂, hrun₂, hR⟩ := hk (g s).1 (g s).2.2 h₁ hQ
  refine ⟨h₂, ?_, hR⟩
  show runCode exec ((g s).2.1 ++ _) h = some h₂
  rw [runCode_append, hrun₁]
  exact hrun₂

/-- The rule of consequence. -/
theorem Triple.conseq {g : Gen σ ι α} {Q Q' : α → σ → S → Prop} (hg : Triple exec P' g Q')
    (hP : ∀ s h, P s h → P' s h) (hQ : ∀ a s h, Q' a s h → Q a s h) : Triple exec P g Q := by
  intro s h hp
  obtain ⟨h', hrun, hq⟩ := hg s h (hP s h hp)
  exact ⟨h', hrun, hQ _ _ _ hq⟩

/-- An emission runs, if the machine executes the instruction. -/
theorem Triple.emit {Q : Unit → σ → S → Prop} (i : ι)
    (hQ : ∀ s h, P s h → ∃ h', exec i h = some h' ∧ Q () s h') :
    Triple exec P (Gen.emit i) Q := by
  intro s h hP
  obtain ⟨h', hexec, hq⟩ := hQ s h hP
  refine ⟨h', ?_, hq⟩
  show (exec i h).bind _ = _
  rw [hexec]
  rfl

theorem Triple.get {Q : σ → σ → S → Prop} (hQ : ∀ s h, P s h → Q s s h) :
    Triple exec P (Gen.get : Gen σ ι σ) Q :=
  fun s h hP => ⟨h, rfl, hQ s h hP⟩

theorem Triple.modify {Q : Unit → σ → S → Prop} (f : σ → σ)
    (hQ : ∀ s h, P s h → Q () (f s) h) : Triple exec P (Gen.modify f : Gen σ ι Unit) Q :=
  fun s h hP => ⟨h, rfl, hQ s h hP⟩

/-- A choice runs as its branch does. -/
theorem Triple.ite {c : Prop} [Decidable c] {g g' : Gen σ ι α} {Q : α → σ → S → Prop}
    (ht : c → Triple exec P g Q) (hf : ¬ c → Triple exec P g' Q) :
    Triple exec P (if c then g else g') Q := by
  by_cases hc : c
  · rw [if_pos hc]
    exact ht hc
  · rw [if_neg hc]
    exact hf hc

/-- Code for a list of inputs, each handled by a generator that keeps the relation
when the machine's meaning of the input is applied. -/
theorem Triple.forM {τ γ : Type} {I : γ → σ → S → Prop} {g : τ → Gen σ ι Unit}
    {f : τ → γ → γ} (xs : List τ)
    (hg : ∀ x ∈ xs, ∀ c, Triple exec (I c) (g x) (fun _ => I (f x c))) (c : γ) :
    Triple exec (I c) (xs.forM g) (fun _ => I (xs.foldl (fun c x => f x c) c)) := by
  induction xs generalizing c with
  | nil => exact Triple.ret () fun _ _ hP => hP
  | cons x xs ih =>
      exact Triple.bind (hg x (List.mem_cons_self ..) c)
        fun _ => ih (fun y hy => hg y (List.mem_cons_of_mem _ hy)) (f x c)

/-- The generator returns `a` and the state `s'`, and its code takes `h` to `h'`. -/
def Runs (exec : ι → S → Option S) (g : Gen σ ι α) (s : σ) (h : S) (a : α) (s' : σ) (h' : S) :
    Prop :=
  ∃ code, g s = (a, code, s') ∧ runCode exec code h = some h'

theorem Runs.ret (a : α) (s : σ) (h : S) : Runs exec (pure a : Gen σ ι α) s h a s h :=
  ⟨[], rfl, rfl⟩

/-- Runs of two steps compose. -/
theorem Runs.bind {g : Gen σ ι α} {k : α → Gen σ ι β} {s s₁ s' : σ} {h h₁ h' : S} {a : α} {b : β}
    (hg : Runs exec g s h a s₁ h₁) (hk : Runs exec (k a) s₁ h₁ b s' h') :
    Runs exec (g >>= k) s h b s' h' := by
  obtain ⟨code, hgs, hrun⟩ := hg
  obtain ⟨code', hks, hrun'⟩ := hk
  refine ⟨code ++ code', ?_, ?_⟩
  · show ((k (g s).1 (g s).2.2).1, (g s).2.1 ++ _, _) = _
    rw [hgs, hks]
  · rw [runCode_append, hrun]
    exact hrun'

/-- An emission runs as the machine executes it. -/
theorem Runs.emit {i : ι} {h h' : S} (s : σ) (hexec : exec i h = some h') :
    Runs exec (Gen.emit i) s h () s h' := by
  refine ⟨[i], rfl, ?_⟩
  show (exec i h).bind _ = _
  rw [hexec]
  rfl

theorem Runs.get (s : σ) (h : S) : Runs exec (Gen.get : Gen σ ι σ) s h s s h := ⟨[], rfl, rfl⟩

theorem Runs.modify (f : σ → σ) (s : σ) (h : S) :
    Runs exec (Gen.modify f : Gen σ ι Unit) s h () (f s) h :=
  ⟨[], rfl, rfl⟩

theorem Runs.ite_pos {c : Prop} [Decidable c] {g g' : Gen σ ι α} {s s' : σ} {h h' : S} {a : α}
    (hc : c) (hg : Runs exec g s h a s' h') : Runs exec (if c then g else g') s h a s' h' := by
  rw [if_pos hc]
  exact hg

theorem Runs.ite_neg {c : Prop} [Decidable c] {g g' : Gen σ ι α} {s s' : σ} {h h' : S} {a : α}
    (hc : ¬ c) (hg : Runs exec g' s h a s' h') : Runs exec (if c then g else g') s h a s' h' := by
  rw [if_neg hc]
  exact hg

/-- Neither the generator nor its code has a choice. -/
theorem Runs.unique {g : Gen σ ι α} {s s₁ s₂ : σ} {h h₁ h₂ : S} {a b : α}
    (hg : Runs exec g s h a s₁ h₁) (hg' : Runs exec g s h b s₂ h₂) :
    a = b ∧ s₁ = s₂ ∧ h₁ = h₂ := by
  obtain ⟨code, hgs, hrun⟩ := hg
  obtain ⟨code', hgs', hrun'⟩ := hg'
  obtain ⟨rfl, hrest⟩ := Prod.mk.inj (hgs.symm.trans hgs')
  obtain ⟨rfl, rfl⟩ := Prod.mk.inj hrest
  exact ⟨rfl, rfl, Option.some.inj (hrun.symm.trans hrun')⟩

/-- A triple says that the code runs. -/
theorem triple_iff_runs {g : Gen σ ι α} {Q : α → σ → S → Prop} :
    Triple exec P g Q ↔
      ∀ s h, P s h → ∃ a s' h', Runs exec g s h a s' h' ∧ Q a s' h' := by
  constructor
  · intro hg s h hP
    obtain ⟨h', hrun, hQ⟩ := hg s h hP
    exact ⟨_, _, h', ⟨_, rfl, hrun⟩, hQ⟩
  · intro hg s h hP
    obtain ⟨a, s', h', ⟨code, hgs, hrun⟩, hQ⟩ := hg s h hP
    refine ⟨h', ?_, ?_⟩
    · rw [hgs]
      exact hrun
    · rw [hgs]
      exact hQ

end Machine

end EmitLogic
