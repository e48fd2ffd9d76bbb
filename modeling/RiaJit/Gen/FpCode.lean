import RiaJit.Gen.FpRouting
import RiaJit.Gen.Operands
import RiaJit.X86.FpMachine

/-!
# Emission of floating-point code

The generators for the machine with flags, in which the helpers of `util.h` are used as they
are, and what a piece of code on registers leaves alone.
-/

set_option autoImplicit false

namespace RiaJit.Translate

open EmitLogic ForwardJumps X86

/-! ## The generator -/

/-- A step of the translator that emits code for the machine with flags. -/
abbrev FpCode := EmitLogic.Gen FpGenState FpInstr

instance : MonadLift FpGen FpCode where
  monadLift g := embed .sse id (fun _ s => s) g

instance : MonadLift Gen FpCode where
  monadLift g := embed (fun i => .sse (.gp i)) FpGenState.gen (fun s gen => { s with gen := gen }) g

/-- A step taken only under a condition. -/
def codeIf (c : Prop) [Decidable c] (g : FpCode Unit) : FpCode Unit := if c then g else pure ()

/-- Code that runs on the machine with flags. -/
abbrev FpRuns {α : Type} (u : FpUnit) (g : FpCode α) (s : FpGenState) (h : FpState) (a : α)
    (s' : FpGenState) (h' : FpState) : Prop :=
  ForwardJumps.Runs (FpInstr.step u) g s h a s' h'

/-! ## The helpers -/

/-- Instructions that raise no exception and use neither `MXCSR` nor the words for it. -/
def exceptionless : SseInstr → Bool
  | .arithrr .. | .sqrtrr .. | .stmxcsrm .. | .ldmxcsrm .. | .mov32mr .. | .and16mi ..
  | .or16mr .. | .movsdmr (.fctrl _) _ | .inc64m (.fctrl _) => false
  | _ => true

/-- No instruction of a generator raises an exception. -/
def Exceptionless {α : Type} (g : FpGen α) : Prop :=
  Emits (fun _ => True) (fun i => exceptionless i = true) g fun _ _ => True

section Lift

variable {u : FpUnit} {α : Type} {a : α}

theorem raise_zero (h : FpState) : h.raise 0#6 = h := by
  unfold FpState.raise
  rw [BitVec.setWidth_zero, BitVec.or_zero]

theorem step_sse {i : SseInstr} {h : FpState} {k : SseState} (hcalm : exceptionless i = true)
    (hexec : i.exec u.ops h.sse = some k) :
    ∃ h', FpInstr.step u (.sse i) h = some (h', 0) ∧ h'.sse = k := by
  have hraised : FpInstr.raised u h (.sse i) = 0#6 := by
    cases i with
    | arithrr op form dst src => exact absurd hcalm Bool.false_ne_true
    | sqrtrr form dst src => exact absurd hcalm Bool.false_ne_true
    | _ => rfl
  refine ⟨⟨k, if i.keepsFlags then h.flags else FpFlags.ofHost k.host.flags⟩, ?_, rfl⟩
  unfold FpInstr.step
  rw [hraised]
  show ((i.exec u.ops h.sse).map _).map _ = _
  rw [hexec]
  exact congrArg (fun h => some (h, 0)) (raise_zero _)

/-- A helper of the integer part changes only the integer part. -/
theorem runs_liftGp {g : Gen α} {s : FpGenState} {s' : GenState} {h : FpState} {k : HostState}
    (hg : RunsOn g s.gen h.sse.host a s' k) :
    ∃ h', FpRuns u (liftM g) s h a { s with gen := s' } h' ∧ h'.sse = { h.sse with host := k } := by
  obtain ⟨h', hrun, hpart, hkept⟩ := runs_embed (FpInstr.step u) FeInstr.exec
    (fun i => .sse (.gp i)) FpGenState.gen (fun s gen => { s with gen := gen })
    (fun h => h.sse.host) (fun _ => True)
    (fun h h' => h'.sse = { h.sse with host := h'.sse.host }) (fun _ => rfl)
    (fun h h' h'' h₁ h₂ => by rw [h₂, h₁])
    (fun i h k _ hexec => by
      have hsse : (SseInstr.gp i).exec u.ops h.sse = some { h.sse with host := k } := by
        show (i.exec h.sse.host).map _ = _
        rw [hexec]
        rfl
      obtain ⟨h', hstep, hh'⟩ := step_sse (u := u) rfl hsse
      exact ⟨h', hstep, by rw [hh'], by rw [hh']⟩)
    (fun _ _ => trivial) hg
  exact ⟨h', hrun, by rw [hkept, hpart]⟩

/-- The words for `MXCSR` are kept. -/
theorem exceptionless_fctrl {ops : SseArithmetic} {i : SseInstr} {h k : SseState}
    (hi : exceptionless i = true) (hexec : i.exec ops h = some k) (c : Nat) :
    k.cell (.fctrl c) = h.cell (.fctrl c) := by
  cases i with
  | gp i =>
      obtain ⟨host, -, rfl⟩ := Option.map_eq_some_iff.1 hexec
      rfl
  | movsdmr dst src =>
      obtain rfl := Option.some.inj hexec
      have hne : SseCell.fctrl c ≠ dst := by
        rintro rfl
        exact absurd hi Bool.false_ne_true
      exact Function.update_of_ne hne _ h.cell
  | inc64m dst =>
      obtain rfl := Option.some.inj hexec
      have hne : SseCell.fctrl c ≠ dst := by
        rintro rfl
        exact absurd hi Bool.false_ne_true
      exact Function.update_of_ne hne _ h.cell
  | movrr | movsdrm | xorrr | mov32rm | and16ri | or16ri =>
      obtain rfl := Option.some.inj hexec
      rfl
  | _ => exact absurd hi Bool.false_ne_true

/-- A helper of the floating-point part. -/
theorem runs_liftSse {g : FpGen α} {s s' : FpGenState} {h : FpState} {k : SseState}
    (hcalm : Exceptionless g) (hg : EmitLogic.Runs (SseInstr.exec u.ops) g s h.sse a s' k) :
    ∃ h', FpRuns u (liftM g) s h a s' h' ∧ h'.sse = k ∧
      ∀ c, h'.sse.cell (.fctrl c) = h.sse.cell (.fctrl c) := by
  obtain ⟨h', hrun, hpart, hkept⟩ := runs_embed (FpInstr.step u) (SseInstr.exec u.ops) .sse id
    (fun _ s => s) FpState.sse (fun i => exceptionless i = true)
    (fun h h' => ∀ c, h'.sse.cell (.fctrl c) = h.sse.cell (.fctrl c)) (fun _ _ => rfl)
    (fun _ _ _ h₁ h₂ c => (h₂ c).trans (h₁ c))
    (fun i h k hi hexec => by
      obtain ⟨h', hstep, hh'⟩ := step_sse (u := u) hi hexec
      refine ⟨h', hstep, hh', fun c => ?_⟩
      rw [hh']
      exact exceptionless_fctrl hi hexec c)
    (hcalm s trivial).1 hg
  exact ⟨h', hrun, hpart, hkept⟩

end Lift

section Exceptionless

variable (flags : Flags) (m : FpMapping)

theorem recordFpProfiler_exceptionless (reg : Nat) :
    Exceptionless (recordFpProfiler flags reg) := by
  unfold recordFpProfiler ifNeeded
  exact .ite (fun _ => .emit rfl fun _ _ => trivial) (fun _ => .ret () fun _ _ => trivial)

theorem getFpReg_exceptionless (reg : Nat) (replacement : XmmReg) :
    Exceptionless (getFpReg flags m reg replacement) := by
  refine .bind (recordFpProfiler_exceptionless flags reg) fun _ => ?_
  cases m.fpMap reg with
  | none =>
      exact .bind (.emit (Q := fun _ _ => True) rfl fun _ _ => trivial)
        fun _ => .ret _ fun _ _ => trivial
  | some r => exact .ret r fun _ _ => trivial

theorem getFpRegNoLoad_exceptionless (reg : Nat) (replacement : XmmReg) :
    Exceptionless (getFpRegNoLoad flags m reg replacement) :=
  .bind (recordFpProfiler_exceptionless flags reg) fun _ => .ret _ fun _ _ => trivial

theorem setFpReg_exceptionless (reg : Nat) (d : XmmReg) :
    Exceptionless (setFpReg flags m reg d) := by
  refine .bind (recordFpProfiler_exceptionless flags reg) fun _ => ?_
  unfold ifNeeded
  exact .ite (fun _ => .emit rfl fun _ _ => trivial) (fun _ => .ret () fun _ _ => trivial)

end Exceptionless

/-! ## Code on registers -/

/-- The integer register that an instruction writes. -/
def writesReg : FpInstr → Option FeReg
  | .sse (.gp (.alurr _ _ dst _)) | .sse (.gp (.movrr _ dst _)) | .sse (.gp (.mov64ri dst _))
  | .sse (.gp (.movsxr64r32 dst _)) | .sse (.gp (.shiftri _ _ dst _)) | .sse (.gp (.not64r dst))
  | .cvt2si _ _ _ dst _ | .movToReg _ dst _ | .not32r dst | .ror64ri dst _ | .btr64ri dst _
  | .btc64ri dst _ | .mov32ri dst _ | .and32ri dst _ | .and64rr dst _ | .shlri _ dst _
  | .dec8r dst | .and8ri dst _ | .shr8rr dst _ | .shl8rr dst _ | .shl16rr dst _ | .set8r _ dst
  | .cmovnz64rr dst _ => some dst
  | _ => none

/-- The SSE register that an instruction writes. -/
def writesXmm : FpInstr → Option XmmReg
  | .sse (.movrr _ dst _) | .sse (.xorrr _ dst _) | .sse (.arithrr _ _ dst _)
  | .sse (.sqrtrr _ dst _) | .minrr _ dst _ | .maxrr _ dst _ | .cvtsi2 _ _ dst _
  | .cvtsd2ssrr dst _ | .pxorrr dst _ | .movToXmm _ dst _ => some dst
  | _ => none

/-- Instructions that work on registers and flags only. -/
def onRegisters : FpInstr → Bool
  | .sse (.gp i) =>
      match i with
      | .alurr .. | .movrr .. | .mov64ri .. | .movsxr64r32 .. | .shiftri .. | .not64r ..
      | .test32rr .. | .test64rr .. | .cmp64rr .. => true
      | _ => false
  | .sse (.movrr ..) | .sse (.xorrr ..) | .sse (.arithrr ..) | .sse (.sqrtrr ..) => true
  | .sse _ => false
  | _ => true

/-- At most the registers with `R` and `X`, the flags and the exceptions in `MXCSR` change. -/
structure Touches (R : FeReg → Prop) (X : XmmReg → Prop) (h h' : FpState) : Prop where
  reg : ∀ q, ¬ R q → h'.reg q = h.reg q
  xmm : ∀ q, ¬ X q → h'.xmm q = h.xmm q
  hostCell : h'.sse.host.cell = h.sse.host.cell
  mem : h'.sse.host.mem = h.sse.host.mem
  stack : h'.sse.host.stack = h.sse.host.stack
  cell : h'.sse.cell = h.sse.cell
  mxcsr : ∃ flags : BitVec 6, h'.sse.mxcsr = h.sse.mxcsr ||| flags.setWidth 32

section Touches

variable {u : FpUnit} {R : FeReg → Prop} {X : XmmReg → Prop} {h h₁ h' : FpState}

theorem Touches.refl (h : FpState) : Touches R X h h :=
  ⟨fun _ _ => rfl, fun _ _ => rfl, rfl, rfl, rfl, rfl, 0#6, by simp⟩

theorem Touches.trans (h₁₂ : Touches R X h h₁) (h₂₃ : Touches R X h₁ h') : Touches R X h h' := by
  refine ⟨fun q hq => (h₂₃.reg q hq).trans (h₁₂.reg q hq),
    fun q hq => (h₂₃.xmm q hq).trans (h₁₂.xmm q hq), h₂₃.hostCell.trans h₁₂.hostCell,
    h₂₃.mem.trans h₁₂.mem, h₂₃.stack.trans h₁₂.stack, h₂₃.cell.trans h₁₂.cell, ?_⟩
  obtain ⟨flags, hflags⟩ := h₁₂.mxcsr
  obtain ⟨flags', hflags'⟩ := h₂₃.mxcsr
  refine ⟨flags ||| flags', ?_⟩
  rw [hflags', hflags, BitVec.setWidth_or, BitVec.or_assoc]

theorem Touches.mono {R' : FeReg → Prop} {X' : XmmReg → Prop} (ht : Touches R X h h')
    (hR : ∀ q, R q → R' q) (hX : ∀ q, X q → X' q) : Touches R' X' h h' :=
  ⟨fun q hq => ht.reg q fun hq' => hq (hR q hq'), fun q hq => ht.xmm q fun hq' => hq (hX q hq'),
    ht.hostCell, ht.mem, ht.stack, ht.cell, ht.mxcsr⟩

theorem touches_raise (h : FpState) (flags : BitVec 6) : Touches R X h (h.raise flags) :=
  ⟨fun _ _ => rfl, fun _ _ => rfl, rfl, rfl, rfl, rfl, flags, rfl⟩

theorem touches_setReg (h : FpState) {r : FeReg} (hr : R r) (v : BitVec 64) :
    Touches R X h (h.setReg r v) :=
  ⟨fun q hq => Function.update_of_ne (fun heq => hq (by rwa [heq])) _ _, fun _ _ => rfl, rfl, rfl,
    rfl, rfl, 0#6, by simp [FpState.setReg, SseState.setReg]⟩

theorem touches_setXmm (h : FpState) {r : XmmReg} (hr : X r) (v : BitVec 64) :
    Touches R X h (h.setXmm r v) :=
  ⟨fun _ _ => rfl, fun q hq => Function.update_of_ne (fun heq => hq (by rwa [heq])) _ _, rfl, rfl,
    rfl, rfl, 0#6, by simp [FpState.setXmm, SseState.setXmm]⟩

theorem touches_setFlags (h : FpState) (flags : FpFlags) : Touches R X h (h.setFlags flags) :=
  ⟨fun _ _ => rfl, fun _ _ => rfl, rfl, rfl, rfl, rfl, 0#6,
    by simp [FpState.setFlags, SseState.clobberFlags]⟩

/-- What an integer instruction does to the registers, with any flags. -/
theorem touches_host (h : FpState) (r : FeReg) (hr : R r) (v : BitVec 64)
    (hostFlags : Option X86Flags) (flags : FpFlags) :
    Touches R X h ⟨{ h.sse with host := { h.sse.host.setReg r v with flags := hostFlags } },
      flags⟩ :=
  ⟨fun q hq => Function.update_of_ne (fun heq => hq (by rwa [heq])) _ _, fun _ _ => rfl, rfl, rfl,
    rfl, rfl, 0#6, by simp⟩

theorem touches_compare (h : FpState) (hostFlags : Option X86Flags) (flags : FpFlags) :
    Touches R X h ⟨{ h.sse with host := { h.sse.host with flags := hostFlags } }, flags⟩ :=
  ⟨fun _ _ => rfl, fun _ _ => rfl, rfl, rfl, rfl, rfl, 0#6, by simp⟩

theorem exec_onRegisters {i : FpInstr} {k : Nat} (hi : onRegisters i = true)
    (hR : ∀ q, writesReg i = some q → R q) (hX : ∀ q, writesXmm i = some q → X q)
    (hexec : i.exec u h = some (h', k)) : Touches R X h h' := by
  have hreg : ∀ q v, R q → Touches R X h (h.setReg q v) := fun q v hq => touches_setReg h hq v
  have hregFlags : ∀ q v flags, R q → Touches R X h ((h.setReg q v).setFlags flags) :=
    fun q v flags hq => (touches_setReg h hq v).trans (touches_setFlags _ flags)
  have hxmm : ∀ q v, X q → Touches R X h (h.setXmm q v) := fun q v hq => touches_setXmm h hq v
  -- one case per constructor; the registers that it writes are those of `writesReg` and `writesXmm`
  cases i with
  | sse i =>
      cases i with
      | gp i =>
          cases i with
          | alurr op size dst src =>
              obtain ⟨rfl, rfl⟩ := Prod.mk.inj (Option.some.inj hexec)
              exact touches_host h dst (hR dst rfl) _ none _
          | movrr size dst src =>
              obtain ⟨rfl, rfl⟩ := Prod.mk.inj (Option.some.inj hexec)
              exact touches_host h dst (hR dst rfl) _ _ _
          | mov64ri dst imm =>
              obtain ⟨rfl, rfl⟩ := Prod.mk.inj (Option.some.inj hexec)
              exact touches_host h dst (hR dst rfl) _ _ _
          | movsxr64r32 dst src =>
              obtain ⟨rfl, rfl⟩ := Prod.mk.inj (Option.some.inj hexec)
              exact touches_host h dst (hR dst rfl) _ _ _
          | shiftri op size dst imm =>
              obtain ⟨rfl, rfl⟩ := Prod.mk.inj (Option.some.inj hexec)
              exact touches_host h dst (hR dst rfl) _ none _
          | not64r dst =>
              obtain ⟨rfl, rfl⟩ := Prod.mk.inj (Option.some.inj hexec)
              exact touches_host h dst (hR dst rfl) _ _ _
          | test32rr a b =>
              obtain ⟨rfl, rfl⟩ := Prod.mk.inj (Option.some.inj hexec)
              exact touches_compare h _ _
          | test64rr a b =>
              obtain ⟨rfl, rfl⟩ := Prod.mk.inj (Option.some.inj hexec)
              exact touches_compare h _ _
          | cmp64rr a b =>
              obtain ⟨rfl, rfl⟩ := Prod.mk.inj (Option.some.inj hexec)
              exact touches_compare h _ _
          | _ => exact absurd hi Bool.false_ne_true
      | movrr form dst src =>
          obtain ⟨rfl, rfl⟩ := Prod.mk.inj (Option.some.inj hexec)
          exact hxmm dst _ (hX dst rfl)
      | xorrr form dst src =>
          obtain ⟨rfl, rfl⟩ := Prod.mk.inj (Option.some.inj hexec)
          exact hxmm dst _ (hX dst rfl)
      | arithrr op form dst src =>
          obtain ⟨rfl, rfl⟩ := Prod.mk.inj (Option.some.inj hexec)
          exact hxmm dst _ (hX dst rfl)
      | sqrtrr form dst src =>
          obtain ⟨rfl, rfl⟩ := Prod.mk.inj (Option.some.inj hexec)
          exact hxmm dst _ (hX dst rfl)
      | _ => exact absurd hi Bool.false_ne_true
  | comisrr quiet form a b =>
      obtain ⟨rfl, rfl⟩ := Prod.mk.inj (Option.some.inj hexec)
      exact touches_setFlags h _
  | cmp32ri a imm =>
      obtain ⟨rfl, rfl⟩ := Prod.mk.inj (Option.some.inj hexec)
      exact touches_setFlags h _
  | minrr form dst src =>
      obtain ⟨rfl, rfl⟩ := Prod.mk.inj (Option.some.inj hexec)
      split
      · exact .refl h
      · exact hxmm dst _ (hX dst rfl)
  | maxrr form dst src =>
      obtain ⟨rfl, rfl⟩ := Prod.mk.inj (Option.some.inj hexec)
      split
      · exact .refl h
      · exact hxmm dst _ (hX dst rfl)
  | cvtsi2 form size dst src =>
      obtain ⟨rfl, rfl⟩ := Prod.mk.inj (Option.some.inj hexec)
      exact hxmm dst _ (hX dst rfl)
  | cvtsd2ssrr dst src =>
      obtain ⟨rfl, rfl⟩ := Prod.mk.inj (Option.some.inj hexec)
      exact hxmm dst _ (hX dst rfl)
  | pxorrr dst src =>
      obtain ⟨rfl, rfl⟩ := Prod.mk.inj (Option.some.inj hexec)
      exact hxmm dst _ (hX dst rfl)
  | movToXmm form dst src =>
      obtain ⟨rfl, rfl⟩ := Prod.mk.inj (Option.some.inj hexec)
      exact hxmm dst _ (hX dst rfl)
  | cvt2si truncate form size dst src | movToReg form dst src | not32r dst | mov32ri dst imm =>
      obtain ⟨rfl, rfl⟩ := Prod.mk.inj (Option.some.inj hexec)
      exact hreg dst _ (hR dst rfl)
  | ror64ri dst imm | btr64ri dst imm | btc64ri dst imm | and32ri dst imm | and64rr dst src
  | dec8r dst | and8ri dst imm | shr8rr dst src | shl8rr dst src | shl16rr dst src =>
      obtain ⟨rfl, rfl⟩ := Prod.mk.inj (Option.some.inj hexec)
      exact hregFlags dst _ _ (hR dst rfl)
  | shlri size dst imm =>
      cases size with
      | s32 =>
          obtain ⟨rfl, rfl⟩ := Prod.mk.inj (Option.some.inj hexec)
          exact hregFlags dst _ _ (hR dst rfl)
      | s64 =>
          obtain ⟨rfl, rfl⟩ := Prod.mk.inj (Option.some.inj hexec)
          exact hregFlags dst _ _ (hR dst rfl)
  | set8r cond dst =>
      obtain ⟨c, -, heq⟩ := Option.map_eq_some_iff.1 hexec
      obtain ⟨rfl, rfl⟩ := Prod.mk.inj heq
      exact hreg dst _ (hR dst rfl)
  | cmovnz64rr dst src =>
      obtain ⟨c, -, heq⟩ := Option.map_eq_some_iff.1 hexec
      obtain ⟨rfl, rfl⟩ := Prod.mk.inj heq
      split
      · exact hreg dst _ (hR dst rfl)
      · exact .refl h
  | jump cond skip =>
      cases cond with
      | none =>
          obtain ⟨n, -, heq⟩ := Option.map_eq_some_iff.1 hexec
          obtain ⟨rfl, rfl⟩ := Prod.mk.inj heq
          exact .refl h
      | some cond =>
          obtain ⟨n, -, hrest⟩ := Option.bind_eq_some_iff.1 hexec
          obtain ⟨c, -, heq⟩ := Option.map_eq_some_iff.1 hrest
          obtain ⟨rfl, rfl⟩ := Prod.mk.inj heq
          exact .refl h

theorem step_onRegisters {i : FpInstr} {k : Nat} (hi : onRegisters i = true)
    (hR : ∀ q, writesReg i = some q → R q) (hX : ∀ q, writesXmm i = some q → X q)
    (hstep : i.step u h = some (h', k)) : Touches R X h h' := by
  obtain ⟨p, hexec, heq⟩ := Option.map_eq_some_iff.1 hstep
  obtain ⟨rfl, rfl⟩ := Prod.mk.inj heq
  exact (exec_onRegisters hi hR hX hexec).trans (touches_raise _ _)

/-- One instruction that does not jump. -/
theorem runFrom_single {i : FpInstr} {k : FpState} (hexec : i.exec u h = some (k, 0)) :
    runFrom (FpInstr.step u) 0 [i] h = some (k.raise (i.raised u h)) := by
  show (FpInstr.step u i h).bind _ = _
  unfold FpInstr.step
  rw [hexec]
  rfl

/-- A jump that is taken. -/
theorem runFrom_taken {cond : FpCond} (hc : cond.holds h.flags = some true) (n : Nat)
    (is : List FpInstr) :
    runFrom (FpInstr.step u) 0 (.jump (some cond) (some n) :: is) h =
      runFrom (FpInstr.step u) n is h := by
  have hstep : FpInstr.step u (.jump (some cond) (some n)) h = some (h, n) := by
    simp [-FpCond.holds, FpInstr.step, FpInstr.raised, hc]
  show (FpInstr.step u _ h).bind _ = _
  rw [hstep]
  rfl

/-- A jump that is not taken. -/
theorem runFrom_untaken {cond : FpCond} (hc : cond.holds h.flags = some false) (n : Nat)
    (is : List FpInstr) :
    runFrom (FpInstr.step u) 0 (.jump (some cond) (some n) :: is) h =
      runFrom (FpInstr.step u) 0 is h := by
  have hstep : FpInstr.step u (.jump (some cond) (some n)) h = some (h, 0) := by
    simp [-FpCond.holds, FpInstr.step, FpInstr.raised, hc]
  show (FpInstr.step u _ h).bind _ = _
  rw [hstep]
  rfl

/-- A jump without a condition. -/
theorem runFrom_jump (n : Nat) (is : List FpInstr) :
    runFrom (FpInstr.step u) 0 (.jump none (some n) :: is) h =
      runFrom (FpInstr.step u) n is h := by
  have hstep : FpInstr.step u (.jump none (some n)) h = some (h, n) := by
    simp [FpInstr.step, FpInstr.raised]
  show (FpInstr.step u _ h).bind _ = _
  rw [hstep]
  rfl

/-- Whether code works on registers only, and writes those with `R` and `X`. -/
def Confined (R : FeReg → Prop) (X : XmmReg → Prop) (is : List FpInstr) : Prop :=
  ∀ i ∈ is, onRegisters i = true ∧ (∀ q, writesReg i = some q → R q) ∧
    ∀ q, writesXmm i = some q → X q

theorem confined_cons {i : FpInstr} {is : List FpInstr} :
    Confined R X (i :: is) ↔ (onRegisters i = true ∧ (∀ q, writesReg i = some q → R q) ∧
      ∀ q, writesXmm i = some q → X q) ∧ Confined R X is := List.forall_mem_cons

theorem confined_nil : Confined R X [] := fun _ hi => absurd hi List.not_mem_nil

theorem Confined.mono {R' : FeReg → Prop} {X' : XmmReg → Prop} {is : List FpInstr}
    (his : Confined R X is) (hR : ∀ q, R q → R' q) (hX : ∀ q, X q → X' q) : Confined R' X' is :=
  fun i hi => ⟨(his i hi).1, fun q hq => hR q ((his i hi).2.1 q hq),
    fun q hq => hX q ((his i hi).2.2 q hq)⟩

/-- A run of confined code, whichever way it takes. -/
theorem runFrom_touches {is : List FpInstr} {k : Nat} (his : Confined R X is)
    (hrun : runFrom (FpInstr.step u) k is h = some h') : Touches R X h h' := by
  induction is generalizing k h with
  | nil =>
      cases k with
      | zero =>
          obtain rfl := Option.some.inj hrun
          exact .refl h
      | succ k => exact absurd hrun nofun
  | cons i is ih =>
      have hrest : Confined R X is := fun j hj => his j (List.mem_cons_of_mem i hj)
      cases k with
      | zero =>
          obtain ⟨⟨h₁, n⟩, hstep, hrun'⟩ := Option.bind_eq_some_iff.1 hrun
          obtain ⟨hi, hR, hX⟩ := his i List.mem_cons_self
          exact (step_onRegisters hi hR hX hstep).trans (ih hrest hrun')
      | succ k => exact ih hrest (k := k) hrun

end Touches

/-- A move that is left out where the value is in its place. -/
theorem codeIf_movrr_runs {u : FpUnit} {c : Prop} [Decidable c] {p d : XmmReg} (form : FpForm)
    (s : FpGenState) (h : FpState) (hc : ¬ c → p = d) :
    ∃ h', FpRuns u (codeIf c (Gen.emit (.sse (.movrr form d p)))) s h () s h' ∧
      Touches (fun _ => False) (fun X => X = d) h h' ∧
      form.get (h'.xmm d) = form.get (h.xmm p) := by
  unfold codeIf
  by_cases hmove : c
  · rw [if_pos hmove]
    have hrun : runFrom (FpInstr.step u) 0 [.sse (.movrr form d p)] h = some _ := rfl
    refine ⟨_, runs_emitCode s hrun, runFrom_touches (by simp [confined_cons, confined_nil,
      onRegisters, writesReg, writesXmm]) hrun, ?_⟩
    simp [FpForm.get_put, FpInstr.raised]
  · rw [if_neg hmove]
    exact ⟨h, .ret () s h, .refl h, by rw [hc hmove]⟩

/-! ## Guest states -/

/-- The host represents the guest, its floating-point registers included. -/
structure Agrees (m : FpMapping) (d : Nat) (g : GuestState) (f : Nat → BitVec 64)
    (r : RegisterInfo) (h : FpState) : Prop where
  rep : Represents d g r h.sse.host
  fp : ∀ x, fpValue m h.sse x = f x

/-- What code leaves alone besides the registers of the guest and its memory. -/
structure Elsewhere (h h' : FpState) : Prop where
  outside : Outside h.sse.host h'.sse.host
  mxcsr : ∃ flags : BitVec 6, h'.sse.mxcsr = h.sse.mxcsr ||| flags.setWidth 32
  fctrl : ∀ c, h'.sse.cell (.fctrl c) = h.sse.cell (.fctrl c)

section Guest

variable {u : FpUnit} {m : FpMapping} {g : GuestState} {f : Nat → BitVec 64}
  {r r' : RegisterInfo} {h h₁ h' : FpState} {d : Nat} {e : Bool} {a : Option Abort}
  {R : FeReg → Prop} {X : XmmReg → Prop}

theorem Elsewhere.refl (h : FpState) : Elsewhere h h :=
  ⟨.refl _, ⟨0#6, by simp⟩, fun _ => rfl⟩

theorem Elsewhere.trans (h₁₂ : Elsewhere h h₁) (h₂₃ : Elsewhere h₁ h') : Elsewhere h h' := by
  obtain ⟨flags, hflags⟩ := h₁₂.mxcsr
  obtain ⟨flags', hflags'⟩ := h₂₃.mxcsr
  refine ⟨h₁₂.outside.trans h₂₃.outside, ⟨flags ||| flags', ?_⟩,
    fun c => (h₂₃.fctrl c).trans (h₁₂.fctrl c)⟩
  rw [hflags', hflags, BitVec.setWidth_or, BitVec.or_assoc]

/-- A step of the integer part. -/
theorem Elsewhere.of_host {k : HostState} (hk : h'.sse = { h.sse with host := k })
    (hout : Outside h.sse.host k) : Elsewhere h h' := by
  refine ⟨by rw [hk]; exact hout, ⟨0#6, ?_⟩, fun c => by rw [hk]⟩
  rw [hk]
  simp

theorem Elsewhere.of_calm (hc : Calm h.sse h'.sse)
    (hfctrl : ∀ c, h'.sse.cell (.fctrl c) = h.sse.cell (.fctrl c)) : Elsewhere h h' := by
  refine ⟨⟨hc.stack, by rw [hc.reg], fun c _ => by rw [hc.cell]⟩, ⟨0#6, ?_⟩, hfctrl⟩
  rw [hc.mxcsr]
  simp

theorem Touches.elsewhere (ht : Touches R X h h') (hsp : ¬ R .sp) : Elsewhere h h' :=
  ⟨⟨ht.stack, ht.reg .sp hsp, fun c _ => by rw [ht.hostCell]⟩, ht.mxcsr,
    fun c => by rw [ht.cell]⟩

theorem Touches.scratches (ht : Touches R X h h') : Scratches h.sse.host h'.sse.host R :=
  ⟨ht.reg, ht.hostCell, ht.mem, ht.stack⟩

/-- A floating-point register is kept if its own SSE register, if any, is. -/
theorem Touches.fpValue (ht : Touches R X h h') {x : Nat}
    (hx : ∀ q, m.fpMap x = some q → ¬ X q) : fpValue m h'.sse x = fpValue m h.sse x := by
  unfold Translate.fpValue
  cases hmap : m.fpMap x with
  | none => exact congrFun ht.cell _
  | some q => exact ht.xmm q (hx q hmap)

/-- The two replacements are not mapped. -/
theorem scratch_unmapped (hX : ∀ q, X q → q = firstFpReg ∨ q = secondFpReg) (x : Nat) (q : XmmReg)
    (hmap : m.fpMap x = some q) : ¬ X q := by
  intro hq
  rcases hX q hq with rfl | rfl
  · exact m.first x hmap
  · exact m.second x hmap

theorem Represents.of_calm {h h' : SseState} (hrep : Represents d g r h.host) (hc : Calm h h') :
    Represents d g r h'.host := by
  refine ⟨hrep.wf, fun y hy hyd hlt => ?_, hc.mem.trans hrep.mem⟩
  rw [← hrep.regs y hy hyd hlt]
  unfold regValue
  rw [hc.reg, hc.cell]

/-- The value that code leaves where `rd` lies is the one that `rd` has then. -/
theorem Agrees.deliver (ha : Agrees m d g f r h) {Q : FeReg} (hloc : Located r Q d) (hd : d < 32)
    (ht : Touches R X h h')
    (hheld : ∀ i, R (getRegForIndex i) →
      r.replacementContent i = invalidReg ∨ r.replacementContent i = d)
    (hmapped : ∀ y mapped, gpMap y = some mapped → R mapped → y = d)
    (hX : ∀ q, X q → q = firstFpReg ∨ q = secondFpReg) :
    Agrees m x0 (g.write d (h'.reg Q)) f r h' :=
  ⟨ha.rep.scratch hloc hd ht.scratches hheld hmapped,
    fun x => (ht.fpValue (scratch_unmapped hX x)).trans (ha.fp x)⟩

/-! ## The helpers on guest states -/

variable (flags : Flags)

/-- `getFpReg` puts an operand into a register, and changes nothing else but the replacement. -/
theorem getFpReg_agrees (ha : Agrees m d g f r h) (x : Nat) (replacement : XmmReg)
    (hrepl : replacement = firstFpReg ∨ replacement = secondFpReg) (s : FpGenState) :
    ∃ q h', FpRuns u (liftM (getFpReg flags m x replacement)) s h q s h' ∧
      Agrees m d g f r h' ∧ Elsewhere h h' ∧ h'.xmm q = f x ∧ FpOperand m x replacement q ∧
      ∀ p, p ≠ replacement → h'.xmm p = h.xmm p := by
  obtain ⟨q, k, hrun, hch, hval, hop⟩ := getFpReg_runs u.ops flags m s h.sse x replacement
  obtain ⟨h', hrun', rfl, hfctrl⟩ :=
    runs_liftSse (getFpReg_exceptionless flags m x replacement) hrun
  refine ⟨q, h', hrun', ⟨ha.rep.of_calm hch.calm, fun y => ?_⟩, .of_calm hch.calm hfctrl,
    hval.trans (ha.fp x), hop, hch.xmm⟩
  rw [← ha.fp y]
  have hw : Working firstFpReg h.sse h'.sse :=
    (Working.refl firstFpReg h.sse).step hch (hrepl.elim .inl fun hs => .inr (.inl hs))
  exact hw.value_of_first y

/-- `getFpRegNoLoad` emits at most the count of the profile. -/
theorem getFpRegNoLoad_agrees (ha : Agrees m d g f r h) (x : Nat) (replacement : XmmReg)
    (s : FpGenState) :
    ∃ h', FpRuns u (liftM (getFpRegNoLoad flags m x replacement)) s h
        ((m.fpMap x).getD replacement) s h' ∧ Agrees m d g f r h' ∧ Elsewhere h h' ∧
      (∀ p, h'.xmm p = h.xmm p) ∧ h'.sse.host.reg = h.sse.host.reg := by
  obtain ⟨k, hrun, hch, hxmm⟩ :=
    getFpRegNoLoad_runs u.ops flags m s h.sse x replacement firstFpReg
  obtain ⟨h', hrun', rfl, hfctrl⟩ :=
    runs_liftSse (getFpRegNoLoad_exceptionless flags m x replacement) hrun
  refine ⟨h', hrun', ⟨ha.rep.of_calm hch.calm, fun y => ?_⟩, .of_calm hch.calm hfctrl,
    congrFun hxmm, hch.calm.reg⟩
  rw [← ha.fp y]
  exact ((Working.refl firstFpReg h.sse).step hch (.inl rfl)).value_of_first y

/-- `setFpReg` stores a result. -/
theorem setFpReg_agrees (hrep : Represents d g r h.sse.host) {x : Nat} {q replacement : XmmReg}
    (ht : FpTarget m x replacement q)
    (hr : replacement = firstFpReg ∨ replacement = secondFpReg)
    (hothers : ∀ y, y ≠ x → fpValue m h.sse y = f y) (s : FpGenState) :
    ∃ h', FpRuns u (liftM (setFpReg flags m x q)) s h () s h' ∧
      Agrees m d g (Function.update f x (h.xmm q)) r h' ∧ Elsewhere h h' := by
  obtain ⟨k, hrun, hdelivers⟩ :=
    setFpReg_runs u.ops flags s h.sse ht hr (Working.refl q h.sse)
  obtain ⟨h', hrun', rfl, hfctrl⟩ := runs_liftSse (setFpReg_exceptionless flags m x q) hrun
  refine ⟨h', hrun', ⟨hrep.of_calm hdelivers.calm, fun y => ?_⟩, .of_calm hdelivers.calm hfctrl⟩
  by_cases hy : y = x
  · subst hy
    rw [Function.update_self]
    exact hdelivers.value
  · rw [Function.update_of_ne hy, hdelivers.others y hy, hothers y hy]

/-- A result that code on empty registers has left in the SSE register of the destination. -/
theorem Agrees.deliverFp (ha : Agrees m x0 g f r h) {x : Nat} {q replacement : XmmReg}
    (ht : FpTarget m x replacement q)
    (hr : replacement = firstFpReg ∨ replacement = secondFpReg) (htouches : Touches R X h h')
    (hX : ∀ p, X p → p = firstFpReg ∨ p = secondFpReg ∨ p = q)
    (hheld : ∀ i, R (getRegForIndex i) → r.replacementContent i = invalidReg)
    (hmapped : ∀ y mapped, gpMap y = some mapped → ¬ R mapped) (s : FpGenState) :
    ∃ h'', FpRuns u (liftM (setFpReg flags m x q)) s h' () s h'' ∧
      Agrees m x0 g (Function.update f x (h'.xmm q)) r h'' ∧ Elsewhere h' h'' := by
  refine setFpReg_agrees flags (ha.rep.overwrite htouches.scratches hheld hmapped) ht hr
    (fun y hy => ?_) s
  rw [← ha.fp y]
  refine htouches.fpValue fun p hp hXp => ?_
  rcases hX p hXp with rfl | rfl | rfl
  · exact m.first y hp
  · exact m.second y hp
  · exact ht.unshared hr hy hp

/-- Code on empty registers and on the SSE register of the destination, and the store behind it. -/
theorem Agrees.deliverCode (ha : Agrees m x0 g f r h) {x : Nat} {q : XmmReg}
    (ht : FpTarget m x firstFpReg q) {is : List FpInstr}
    (hrun : runFrom (FpInstr.step u) 0 is h = some h')
    (his : Confined R (fun X => X = firstFpReg ∨ X = q) is)
    (hempty : ∀ Q, R Q → ∃ i, Q = getRegForIndex i ∧ r.replacementContent i = invalidReg)
    (s : FpGenState) :
    ∃ h'', FpRuns u (emitCode is >>= fun _ => liftM (setFpReg flags m x q)) s h () s h'' ∧
      Agrees m x0 g (Function.update f x (h'.xmm q)) r h'' ∧ Elsewhere h h'' := by
  have htouches := runFrom_touches his hrun
  obtain ⟨h'', hset, ha'', he''⟩ := ha.deliverFp (u := u) flags ht (.inl rfl) htouches
    (fun p hp => hp.elim .inl fun hp => .inr (.inr hp))
    (fun i hi => by
      obtain ⟨j, heq, hj⟩ := hempty _ hi
      rw [getRegForIndex_injective heq]
      exact hj)
    (fun y mapped hmap hR => by
      obtain ⟨j, heq, -⟩ := hempty _ hR
      exact gpMap_ne_replacement hmap j heq) s
  refine ⟨h'', .bind (runs_emitCode s hrun) hset, ha'', (htouches.elsewhere ?_).trans he''⟩
  intro hsp
  obtain ⟨j, heq, -⟩ := hempty _ hsp
  exact getRegForIndex_ne_sp j heq.symm

/-- Two operands in different registers. -/
theorem fetchPair_agrees (ha : Agrees m d g f r h) (x y : Nat) (s : FpGenState) :
    ∃ p q h₁ h', FpRuns u (liftM (getFpReg flags m x firstFpReg)) s h p s h₁ ∧
      FpRuns u (liftM (getFpReg flags m y secondFpReg)) s h₁ q s h' ∧
      Agrees m d g f r h' ∧ Elsewhere h h' ∧ h'.xmm p = f x ∧ h'.xmm q = f y ∧
      FpOperand m x firstFpReg p ∧ FpOperand m y secondFpReg q := by
  obtain ⟨p, h₁, hrun₁, ha₁, he₁, hval₁, hop₁, -⟩ :=
    getFpReg_agrees (u := u) flags ha x firstFpReg (.inl rfl) s
  obtain ⟨q, h₂, hrun₂, ha₂, he₂, hval₂, hop₂, hxmm₂⟩ :=
    getFpReg_agrees (u := u) flags ha₁ y secondFpReg (.inr rfl) s
  refine ⟨p, q, h₁, h₂, hrun₁, hrun₂, ha₂, he₁.trans he₂, ?_, hval₂, hop₁, hop₂⟩
  rw [hxmm₂ p hop₁.ne_second, hval₁]

/-- `getRs1` as a step of the whole machine. -/
theorem getRs1_agrees (ha : Agrees m x0 g f r h) {instr : RiscInstr} (hx : instr.regSrc1 < 32) :
    ∃ R r' h', FpRuns u (liftM (getRs1 flags instr)) ⟨⟨r, e⟩, a⟩ h R ⟨⟨r', e⟩, a⟩ h' ∧
      Agrees m x0 g f r' h' ∧ Elsewhere h h' ∧ (∀ p, h'.xmm p = h.xmm p) ∧
      h'.reg R = g.read instr.regSrc1 ∧ Pinned r' R instr.regSrc1 0 := by
  obtain ⟨R, r', k, hrun, hf, hpinned, hvalue⟩ := getSrc_runs (e := e) flags ha.rep hx
  obtain ⟨h', hrun', hk⟩ := runs_liftGp (u := u) (s := ⟨⟨r, e⟩, a⟩) hrun
  refine ⟨R, r', h', hrun', ⟨?_, fun x => ?_⟩, .of_host hk hf.outside, fun p => ?_, ?_, hpinned⟩
  · rw [hk]
    exact hf.rep
  · rw [hk, ← ha.fp x]
    rfl
  · unfold FpState.xmm
    rw [hk]
  · unfold FpState.reg
    rw [hk]
    exact hvalue

/-- `getRd` as a step of the whole machine. -/
theorem getRd_agrees (ha : Agrees m x0 g f r h) {instr : RiscInstr} (hd : instr.regDest < 32) :
    ∃ Q r' h', FpRuns u (liftM (getRd flags instr)) ⟨⟨r, e⟩, a⟩ h Q ⟨⟨r', e⟩, a⟩ h' ∧
      Agrees m instr.regDest g f r' h' ∧ Elsewhere h h' ∧ (∀ p, h'.xmm p = h.xmm p) ∧
      Located r' Q instr.regDest ∧ Pinned r' Q instr.regDest 0 := by
  obtain ⟨Q, r', k, hrun, hf, hloc, hpinned⟩ := getRd_pinned (e := e) flags ha.rep hd
  obtain ⟨h', hrun', hk⟩ := runs_liftGp (u := u) (s := ⟨⟨r, e⟩, a⟩) hrun
  refine ⟨Q, r', h', hrun', ⟨?_, fun x => ?_⟩, .of_host hk hf.outside, fun p => ?_, hloc, hpinned⟩
  · rw [hk]
    exact hf.rep
  · rw [hk, ← ha.fp x]
    rfl
  · unfold FpState.xmm
    rw [hk]

/-- `getRdHinted` as a step of the whole machine. -/
theorem getRdHinted_agrees (ha : Agrees m x0 g f r h) {instr : RiscInstr}
    (hd : instr.regDest < 32) (hint : Fin 3) :
    ∃ Q r' h', FpRuns u (liftM (getRdHinted flags instr hint)) ⟨⟨r, e⟩, a⟩ h Q ⟨⟨r', e⟩, a⟩ h' ∧
      Agrees m instr.regDest g f r' h' ∧ Elsewhere h h' ∧ (∀ p, h'.xmm p = h.xmm p) ∧
      Located r' Q instr.regDest ∧ ∀ i, Q = getRegForIndex i → i = hint := by
  obtain ⟨h₁, hrun₁, hc⟩ := recordGpProfiler_runs (h := h.sse.host) flags instr.regDest ⟨r, e⟩
  have hrep := hc.represents ha.rep
  obtain ⟨Q, r', k, hrun, hrep', hout, hloc, hhint⟩ : ∃ Q r' k,
      RunsOn (getRdHinted flags instr hint) ⟨r, e⟩ h.sse.host Q ⟨r', e⟩ k ∧
        Represents instr.regDest g r' k ∧ Outside h.sse.host k ∧ Located r' Q instr.regDest ∧
        ∀ i, Q = getRegForIndex i → i = hint := by
    cases hmap : gpMap instr.regDest with
    | some mapped =>
        refine ⟨mapped, r, h₁, .bind hrun₁ ?_, (hc.fetched ha.rep (.inl rfl)).rep,
          hc.frame.outside, .inl hmap, fun i hi => absurd hi (gpMap_ne_replacement hmap i)⟩
        rw [hmap]
        exact Runs.ret _ _ _
    | none =>
        obtain ⟨r', h', hrun, hp⟩ :=
          -- the register is not mapped, so the replacement that was asked for is taken
          loadIntoSpecific_runs (h := h₁) (e := e) hrep.wf hmap hd hint false
        refine ⟨getRegForIndex hint, r', h', .bind hrun₁ ?_, ⟨hp.wf, fun y hy hyd hlt => ?_,
          hp.frame.mem.trans hrep.mem⟩, hc.frame.outside.trans hp.frame.outside,
          .inr ⟨hmap, hint, rfl, hp.content⟩, fun i hi => (getRegForIndex_injective hi).symm⟩
        · rw [hmap]
          exact hrun
        · rw [hp.values y hy hyd hlt]
          exact hrep.regs y hy hy hlt
  obtain ⟨h', hrun', hk⟩ := runs_liftGp (u := u) (s := ⟨⟨r, e⟩, a⟩) hrun
  refine ⟨Q, r', h', hrun', ⟨?_, fun x => ?_⟩, .of_host hk hout, fun p => ?_, hloc, hhint⟩
  · rw [hk]
    exact hrep'
  · rw [hk, ← ha.fp x]
    rfl
  · unfold FpState.xmm
    rw [hk]

/-- `invalidateOldest` as a step of the whole machine: a scratch register that holds nothing. -/
theorem invalidateOldest_agrees (ha : Agrees m d g f r h) :
    ∃ r' h', FpRuns u (liftM invalidateOldest) ⟨⟨r, e⟩, a⟩ h (getRegForIndex r.oldest)
        ⟨⟨r', e⟩, a⟩ h' ∧
      Agrees m d g f r' h' ∧ Elsewhere h h' ∧ (∀ p, h'.xmm p = h.xmm p) ∧
      r'.replacementContent r.oldest = invalidReg ∧
      (∀ i, i ≠ r.oldest → r'.replacementContent i = r.replacementContent i) ∧
      h'.sse.mxcsr = h.sse.mxcsr ∧ h'.sse.host.reg = h.sse.host.reg := by
  obtain ⟨r', k, hrun, hrep, hframe, hreg, hscratch, hothers⟩ :=
    invalidateOldest_represents (e := e) ha.rep
  obtain ⟨h', hrun', hk⟩ := runs_liftGp (u := u) (s := ⟨⟨r, e⟩, a⟩) hrun
  refine ⟨r', h', hrun', ⟨?_, fun x => ?_⟩, .of_host hk hframe.outside, fun p => ?_, hscratch,
    hothers, by rw [hk], by rw [hk]; exact hreg⟩
  · rw [hk]
    exact hrep
  · rw [hk, ← ha.fp x]
    rfl
  · unfold FpState.xmm
    rw [hk]

/-- `invalidateReplacement` as a step of the whole machine. -/
theorem invalidateReplacement_agrees (ha : Agrees m d g f r h) (i : Fin 3) :
    ∃ h', FpRuns u (liftM (invalidateReplacement i)) ⟨⟨r, e⟩, a⟩ h ()
        ⟨⟨r.note i invalidReg 0, e⟩, a⟩ h' ∧
      Agrees m d g f (r.note i invalidReg 0) h' ∧ Elsewhere h h' ∧
      (∀ p, h'.xmm p = h.xmm p) ∧ h'.sse.host.reg = h.sse.host.reg := by
  have hrun := invalidateReplacement_runs r h.sse.host e i
  obtain ⟨h', hrun', hk⟩ := runs_liftGp (u := u) (s := ⟨⟨r, e⟩, a⟩) hrun
  refine ⟨h', hrun', ⟨?_, fun x => ?_⟩,
    .of_host hk (frame_writtenBack ha.rep.wf i).outside, fun p => ?_, ?_⟩
  · rw [hk]
    exact ha.rep.invalidate i
  · rw [hk, ← ha.fp x]
    rfl
  · unfold FpState.xmm
    rw [hk]
  · rw [hk]
    exact writtenBack_reg i

end Guest

/-! ## Samples -/

/-- A unit whose arithmetic is that of the sample and which raises nothing. -/
def sampleUnit : FpUnit := ⟨sampleArithmetic, fun _ v => v.setWidth 32, fun _ _ _ _ => 0#6⟩

/-- A machine all of whose floating-point registers hold one value. -/
def filledFp (v : BitVec 64) : FpState := ⟨filledState v, .unknown⟩

theorem start_wellFormed : FpGenState.start.gen.rInfo.WellFormed :=
  ⟨fun _ => .inr rfl, fun _ _ _ _ hvalid => absurd rfl hvalid,
    fun _ => ⟨fun _ => rfl, fun _ => rfl⟩,
    fun _ _ _ hold => absurd rfl hold, fun _ => Nat.zero_le _⟩

/-- The guest on that machine. -/
def filledGuest (v : BitVec 64) : GuestState :=
  ⟨regValue FpGenState.start.gen.rInfo (filledState v).host, fun _ => 0#8⟩

theorem filled_agrees (m : FpMapping) (v : BitVec 64) :
    Agrees m x0 (filledGuest v) (fun _ => v) FpGenState.start.gen.rInfo (filledFp v) := by
  refine ⟨⟨start_wellFormed, fun _ _ _ _ => rfl, rfl⟩, fun x => ?_⟩
  unfold fpValue
  cases m.fpMap x with
  | none => rfl
  | some q => rfl

/-- A machine whose floating-point registers hold the values of a file. -/
def valuedFp (v : BitVec 64) (f : Nat → BitVec 64) : FpState := ⟨valuedState v f, .unknown⟩

/-- The guest on that machine. -/
def valuedGuest (v : BitVec 64) : GuestState :=
  ⟨regValue FpGenState.start.gen.rInfo (valuedState v fun _ => 0#64).host, fun _ => 0#8⟩

theorem valued_agrees (v : BitVec 64) (f : Nat → BitVec 64) :
    Agrees .static x0 (valuedGuest v) f FpGenState.start.gen.rInfo (valuedFp v f) :=
  ⟨⟨start_wellFormed, fun _ _ _ _ => rfl, rfl⟩, fpValue_valuedState v f⟩

/-- `f1` holds the single one, `f2` minus two, and the others one. -/
def singles (x : Nat) : BitVec 64 := if x = 2 then 0xc0000000#64 else 0x3f800000#64

end RiaJit.Translate
