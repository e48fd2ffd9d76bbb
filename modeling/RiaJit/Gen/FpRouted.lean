import RiaJit.Gen.FpRound

/-!
# What the arithmetic leaves alone

The instructions that the arithmetic emitters put between the two helpers for the rounding mode
write the two replacements, the register or the slot of `rd`, and the profile, and nothing else.
Whatever they compute and whichever exceptions they raise, such code runs to its end, and all
registers of the guest but `rd` are kept.
-/

set_option autoImplicit false

namespace RiaJit.Translate

open EmitLogic ForwardJumps X86

/-! ## Instructions -/

/-- The SSE registers that an instruction may use as it likes: the replacements and that of
`rd`. -/
def Reachable (m : FpMapping) (d : Nat) (q : XmmReg) : Prop :=
  q = firstFpReg ∨ q = secondFpReg ∨ m.fpMap d = some q

/-- The instructions of the arithmetic. -/
def Routes (m : FpMapping) (d : Nat) : SseInstr → Prop
  | .movrr _ dst _ | .arithrr _ _ dst _ | .sqrtrr _ dst _ | .xorrr _ dst _
  | .movsdrm dst (.fp _) => Reachable m d dst
  | .movsdmr (.fp reg) _ => reg = d
  | .inc64m (.fpUsage _) => True
  | _ => False

/-- At most those registers, the slot of `rd`, the profile, the flags and the exceptions in `MXCSR`
change. -/
structure Routed (m : FpMapping) (d : Nat) (h h' : FpState) : Prop where
  reg : h'.sse.host.reg = h.sse.host.reg
  hostCell : h'.sse.host.cell = h.sse.host.cell
  mem : h'.sse.host.mem = h.sse.host.mem
  stack : h'.sse.host.stack = h.sse.host.stack
  xmm : ∀ q, ¬ Reachable m d q → h'.xmm q = h.xmm q
  fp : ∀ reg, reg ≠ d → h'.sse.cell (.fp reg) = h.sse.cell (.fp reg)
  fctrl : ∀ c, h'.sse.cell (.fctrl c) = h.sse.cell (.fctrl c)
  mxcsr : ∃ raised : BitVec 6, h'.sse.mxcsr = h.sse.mxcsr ||| raised.setWidth 32

section Routed

variable {u : FpUnit} {m : FpMapping} {d : Nat} {h h₁ h' : FpState} {g : GuestState}
  {f : Nat → BitVec 64} {r : RegisterInfo}

theorem Routed.refl (h : FpState) : Routed m d h h :=
  ⟨rfl, rfl, rfl, rfl, fun _ _ => rfl, fun _ _ => rfl, fun _ => rfl, 0#6, by simp⟩

/-- What two pieces of code leave alone, both together leave alone. -/
theorem Routed.trans (h₁₂ : Routed m d h h₁) (h₂₃ : Routed m d h₁ h') : Routed m d h h' := by
  obtain ⟨raised, hraised⟩ := h₁₂.mxcsr
  obtain ⟨raised', hraised'⟩ := h₂₃.mxcsr
  refine ⟨h₂₃.reg.trans h₁₂.reg, h₂₃.hostCell.trans h₁₂.hostCell, h₂₃.mem.trans h₁₂.mem,
    h₂₃.stack.trans h₁₂.stack, fun q hq => (h₂₃.xmm q hq).trans (h₁₂.xmm q hq),
    fun x hx => (h₂₃.fp x hx).trans (h₁₂.fp x hx), fun c => (h₂₃.fctrl c).trans (h₁₂.fctrl c),
    raised ||| raised', ?_⟩
  rw [hraised', hraised, BitVec.setWidth_or, BitVec.or_assoc]

/-- Exceptions are no register. -/
theorem routed_raise (h : FpState) (raised : BitVec 6) : Routed m d h (h.raise raised) :=
  ⟨rfl, rfl, rfl, rfl, fun _ _ => rfl, fun _ _ => rfl, fun _ => rfl, raised, rfl⟩

/-- Code may write the register of the destination and the two that are never mapped. -/
theorem routed_setXmm {q : XmmReg} (hq : Reachable m d q) (v : BitVec 64) (flags : FpFlags) :
    Routed m d h ⟨h.sse.setXmm q v, flags⟩ := by
  refine ⟨rfl, rfl, rfl, rfl, fun p hp => Function.update_of_ne ?_ _ _, fun _ _ => rfl,
    fun _ => rfl, 0#6, by simp⟩
  rintro rfl
  exact hp hq

/-- Code may write the slot of the destination and the counts of the profile. -/
theorem routed_setCell {c : SseCell} (hfp : ∀ reg, reg ≠ d → c ≠ .fp reg)
    (hfctrl : ∀ i, c ≠ .fctrl i) (v : BitVec 64) (flags : FpFlags) :
    Routed m d h ⟨h.sse.setCell c v, flags⟩ :=
  ⟨rfl, rfl, rfl, rfl, fun _ _ => rfl, fun x hx => Function.update_of_ne (hfp x hx).symm _ _,
    fun i => Function.update_of_ne (hfctrl i).symm _ _, 0#6, by simp [SseState.setCell]⟩

theorem routed_clobber (flags : FpFlags) : Routed m d h ⟨h.sse.clobberFlags, flags⟩ :=
  ⟨rfl, rfl, rfl, rfl, fun _ _ => rfl, fun _ _ => rfl, fun _ => rfl, 0#6,
    by simp [SseState.clobberFlags]⟩

/-- No such instruction gets stuck. -/
theorem routes_step {i : SseInstr} (hi : Routes m d i) (h : FpState) :
    ∃ h', FpInstr.step u (.sse i) h = some (h', 0) ∧ Routed m d h h' := by
  obtain ⟨k, flags, hexec, hk⟩ : ∃ k flags, FpInstr.exec u (.sse i) h = some (⟨k, flags⟩, 0) ∧
      Routed m d h ⟨k, flags⟩ := by
    -- what is written is the target, a scratch register, the target's slot or a counter
    cases i with
    | movrr form dst src => exact ⟨_, _, rfl, routed_setXmm hi _ _⟩
    | arithrr op form dst src => exact ⟨_, _, rfl, routed_setXmm hi _ _⟩
    | sqrtrr form dst src => exact ⟨_, _, rfl, routed_setXmm hi _ _⟩
    | xorrr form dst src => exact ⟨_, _, rfl, routed_setXmm hi _ _⟩
    | movsdrm dst src =>
        cases src with
        | fp reg => exact ⟨_, _, rfl, routed_setXmm hi _ _⟩
        | fpUsage reg => exact hi.elim
        | fctrl index => exact hi.elim
    | movsdmr dst src =>
        cases dst with
        | fp reg =>
            obtain rfl : reg = d := hi
            exact ⟨_, _, rfl, routed_setCell (fun x hx heq => hx (SseCell.fp.inj heq).symm)
              (fun _ => SseCell.noConfusion) _ _⟩
        | fpUsage reg => exact hi.elim
        | fctrl index => exact hi.elim
    | inc64m dst =>
        cases dst with
        | fpUsage reg =>
            refine ⟨_, _, rfl, ?_⟩
            exact (routed_setCell (fun _ _ => SseCell.noConfusion)
              (fun _ => SseCell.noConfusion) _ h.flags).trans (routed_clobber _)
        | fp reg => exact hi.elim
        | fctrl index => exact hi.elim
    | _ => exact hi.elim
  refine ⟨_, ?_, hk.trans (routed_raise _ (FpInstr.raised u h (.sse i)))⟩
  unfold FpInstr.step
  rw [hexec]
  rfl

/-- A run of such code. -/
theorem routes_run {is : List SseInstr} (his : ∀ i ∈ is, Routes m d i) (h : FpState) :
    ∃ h', runFrom (FpInstr.step u) 0 (is.map .sse) h = some h' ∧ Routed m d h h' := by
  induction is generalizing h with
  | nil => exact ⟨h, rfl, .refl h⟩
  | cons i is ih =>
      obtain ⟨h₁, hstep, hrouted₁⟩ := routes_step (u := u) (his i List.mem_cons_self) h
      obtain ⟨h', hrun, hrouted'⟩ := ih (fun j hj => his j (List.mem_cons_of_mem i hj)) h₁
      refine ⟨h', ?_, hrouted₁.trans hrouted'⟩
      show (FpInstr.step u (.sse i) h).bind _ = _
      rw [hstep]
      exact hrun

/-- Such code touches neither the integer part nor the rounding mode. -/
theorem Routed.elsewhere (hrouted : Routed m d h h') : Elsewhere h h' :=
  ⟨⟨hrouted.stack, by rw [hrouted.reg], fun c _ => by rw [hrouted.hostCell]⟩, hrouted.mxcsr,
    hrouted.fctrl⟩

/-- Only `rd` may have another value. -/
theorem Routed.fpValue (hrouted : Routed m d h h') {x : Nat} (hx : x ≠ d) :
    fpValue m h'.sse x = fpValue m h.sse x := by
  unfold Translate.fpValue
  cases hmap : m.fpMap x with
  | none => exact hrouted.fp x hx
  | some q =>
      refine hrouted.xmm q fun hreach => ?_
      rcases hreach with rfl | rfl | hd
      · exact m.first x hmap
      · exact m.second x hmap
      · exact hx (m.injective x d q hmap hd)

/-- The guest differs in the destination at most. -/
theorem Routed.agrees (hrouted : Routed m d h h') (ha : Agrees m x0 g f r h) :
    Agrees m x0 g (Function.update f d (Translate.fpValue m h'.sse d)) r h' := by
  refine ⟨⟨ha.rep.wf, fun y hy hyd hlt => ?_, hrouted.mem.trans ha.rep.mem⟩, fun x => ?_⟩
  · rw [← ha.rep.regs y hy hyd hlt]
    unfold regValue
    rw [hrouted.reg, hrouted.hostCell]
  · by_cases hx : x = d
    · rw [hx, Function.update_self]
    · rw [Function.update_of_ne hx, hrouted.fpValue hx, ha.fp x]

end Routed

/-! ## Emitters -/

section Emitters

variable {m : FpMapping} {d : Nat} {s : FpGenState} (flags : Flags) (form : FpForm)

/-- From this state of the translator, which it leaves as it is, a generator emits such
instructions only. -/
def EmitsRoutes {α : Type} (m : FpMapping) (d : Nat) (s : FpGenState) (g : FpGen α)
    (A : α → Prop) : Prop :=
  Emits (fun s' => s' = s) (Routes m d) g fun a s' => s' = s ∧ A a

/-- Two steps that keep to the registers do so together. -/
theorem EmitsRoutes.bind {α β : Type} {g : FpGen α} {k : α → FpGen β} {A : α → Prop}
    {B : β → Prop} (hg : EmitsRoutes m d s g A) (hk : ∀ a, A a → EmitsRoutes m d s (k a) B) :
    EmitsRoutes m d s (g >>= k) B :=
  Emits.bind hg fun a s' hs' => hk a hs'.2 s' hs'.1

theorem EmitsRoutes.ret {α : Type} {A : α → Prop} {a : α} (ha : A a) :
    EmitsRoutes m d s (pure a) A :=
  Emits.ret a fun _ hs => ⟨hs, ha⟩

/-- An instruction that keeps to the registers may be emitted. -/
theorem EmitsRoutes.emit {i : SseInstr} (hi : Routes m d i) :
    EmitsRoutes m d s (Gen.emit i) fun _ => True :=
  Emits.emit hi fun _ hs => ⟨hs, trivial⟩

theorem EmitsRoutes.ifNeeded {c : Prop} [Decidable c] {g : FpGen Unit}
    (hg : EmitsRoutes m d s g fun _ => True) : EmitsRoutes m d s (ifNeeded c g) fun _ => True := by
  unfold Translate.ifNeeded
  split
  · exact hg
  · exact .ret trivial

/-- Either way through a generator. -/
theorem EmitsRoutes.ite {α : Type} {c : Prop} [Decidable c] {g g' : FpGen α} {A : α → Prop}
    (ht : c → EmitsRoutes m d s g A) (hf : ¬ c → EmitsRoutes m d s g' A) :
    EmitsRoutes m d s (if c then g else g') A := by
  split
  · rename_i hc
    exact ht hc
  · rename_i hc
    exact hf hc

/-- The first replacement is never mapped. -/
theorem reachable_first : Reachable m d firstFpReg := .inl rfl

/-- Neither is the second. -/
theorem reachable_second : Reachable m d secondFpReg := .inr (.inl rfl)

/-- Where the result is put together. -/
theorem reachable_getD {q : XmmReg} (hq : Reachable m d q) :
    Reachable m d ((m.fpMap d).getD q) := by
  cases hmap : m.fpMap d with
  | none => exact hq
  | some p => exact .inr (.inr hmap)

theorem recordFpProfiler_routes (reg : Nat) :
    EmitsRoutes m d s (recordFpProfiler flags reg) fun _ => True :=
  .ifNeeded (.emit trivial)

/-- A source is loaded into a replacement, or is where it is mapped to. -/
theorem getFpReg_routes (reg : Nat) {q : XmmReg} (hq : Reachable m d q) :
    EmitsRoutes m d s (getFpReg flags m reg q) fun _ => True := by
  refine .bind (recordFpProfiler_routes flags reg) fun _ _ => ?_
  cases m.fpMap reg with
  | none => exact .bind (.emit hq) fun _ _ => .ret trivial
  | some p => exact .ret trivial

/-- The destination is where it is mapped to, or a replacement. -/
theorem getFpRegNoLoad_routes {q : XmmReg} (hq : Reachable m d q) :
    EmitsRoutes m d s (getFpRegNoLoad flags m d q) (Reachable m d) :=
  .bind (recordFpProfiler_routes flags d) fun _ _ => .ret (reachable_getD hq)

/-- The destination is stored to its slot, if it is not mapped. -/
theorem setFpReg_routes (q : XmmReg) : EmitsRoutes m d s (setFpReg flags m d q) fun _ => True :=
  .bind (recordFpProfiler_routes flags d) fun _ _ => .ifNeeded (.emit rfl)

/-- An operand that would be overwritten is saved in a replacement. -/
theorem saveIf_routes (c : Prop) [Decidable c] {into : XmmReg} (hinto : Reachable m d into)
    (operand : XmmReg) : EmitsRoutes m d s (saveIf c form into operand) fun _ => True :=
  .ite (fun _ => .bind (.emit hinto) fun _ _ => .ret trivial) fun _ => .ret trivial

/-- A commutative operation works on its destination. -/
theorem doFpArithmCommutative_routes (p q : XmmReg) {dst : XmmReg} (hdst : Reachable m d dst)
    (op : SseOp) :
    EmitsRoutes m d s (doFpArithmCommutative p q dst op form) fun _ => True := by
  refine .ite (fun heq => .emit ?_) fun _ => .ite (fun heq => .emit ?_) fun _ => ?_
  · show Reachable m d p
    rw [← heq]
    exact hdst
  · show Reachable m d q
    rw [← heq]
    exact hdst
  · exact .bind (.emit hdst) fun _ _ => .emit hdst

variable {instr : RiscInstr}

/-- The product of a fused operation stays in a replacement. -/
theorem fusedProduct_routes {hint : XmmReg} (hhint : Reachable m instr.regDest hint) :
    EmitsRoutes m instr.regDest s (fusedProduct form flags m instr hint) fun p =>
      Reachable m instr.regDest p.2 := by
  refine .bind (getFpReg_routes flags _ reachable_second) fun regSrc1 _ => ?_
  refine .bind (getFpReg_routes flags _ reachable_first) fun regSrc2 _ => ?_
  refine .bind (getFpRegNoLoad_routes flags hhint) fun regDest hdest => ?_
  refine .bind (.ifNeeded (.emit reachable_second)) fun _ _ => ?_
  exact .bind (.emit reachable_second) fun _ _ => .ret hdest

/-- An operation whose order matters works on its destination. -/
theorem doFpArithmOrdered_routes (op : SseOp) {dst : XmmReg}
    (hdst : Reachable m instr.regDest dst) :
    EmitsRoutes m instr.regDest s (doFpArithmOrdered form flags m instr op dst) fun _ => True := by
  refine .bind (getFpReg_routes flags _ reachable_second) fun regSrc2 _ => ?_
  refine .bind (saveIf_routes form _ reachable_second regSrc2) fun _ _ => ?_
  refine .bind (getFpReg_routes flags _ hdst) fun regSrc1 _ => ?_
  exact .bind (.ifNeeded (.emit hdst)) fun _ _ => .emit hdst

/-- An emitter consists of such code in the frame for the rounding mode. -/
def RoutedInside (flags : Flags) (m : FpMapping) (instr : RiscInstr) (g : FpGen Unit) : Prop :=
  ∃ body, g = withRound flags instr body ∧
    ∀ s, EmitsRoutes m instr.regDest s body fun _ => True

/-- `FMADD` keeps to its destination. -/
theorem translateFMADD_routes : RoutedInside flags m instr (translateFMADD form flags m instr) := by
  refine ⟨_, rfl, fun s => ?_⟩
  refine .bind (fusedProduct_routes flags form reachable_first) fun p hdest => ?_
  refine .bind (getFpReg_routes flags _ hdest) fun regSrc3 _ => ?_
  refine .bind (.ifNeeded (.emit hdest)) fun _ _ => ?_
  exact .bind (.emit hdest) fun _ _ => setFpReg_routes flags _

theorem translateFMSUB_routes : RoutedInside flags m instr (translateFMSUB form flags m instr) := by
  refine ⟨_, rfl, fun s => ?_⟩
  refine .bind (fusedProduct_routes flags form reachable_second) fun p hdest => ?_
  refine .bind (getFpReg_routes flags _ reachable_first) fun regSrc3 _ => ?_
  refine .bind (saveIf_routes form _ reachable_first regSrc3) fun _ _ => ?_
  refine .bind (.ifNeeded (.emit hdest)) fun _ _ => ?_
  exact .bind (.emit hdest) fun _ _ => setFpReg_routes flags _

theorem translateFNMSUB_routes :
    RoutedInside flags m instr (translateFNMSUB form flags m instr) := by
  refine ⟨_, rfl, fun s => ?_⟩
  refine .bind (fusedProduct_routes flags form reachable_first) fun p hdest => ?_
  refine .bind (getFpReg_routes flags _ reachable_first) fun regSrc3 _ => ?_
  refine .bind (.ifNeeded (.emit hdest)) fun _ _ => ?_
  exact .bind (.emit hdest) fun _ _ => setFpReg_routes flags _

/-- `FNMADD` keeps to its destination. -/
theorem translateFNMADD_routes :
    RoutedInside flags m instr (translateFNMADD form flags m instr) := by
  refine ⟨_, rfl, fun s => ?_⟩
  refine .bind (fusedProduct_routes flags form reachable_first) fun p hdest => ?_
  refine .bind (.emit reachable_first) fun _ _ => ?_
  refine .bind (.emit reachable_first) fun _ _ => ?_
  refine .bind (getFpReg_routes flags _ reachable_second) fun regSrc3 _ => ?_
  refine .bind (saveIf_routes form _ reachable_second regSrc3) fun _ _ => ?_
  refine .bind (.ifNeeded (.emit hdest)) fun _ _ => ?_
  exact .bind (.emit hdest) fun _ _ => setFpReg_routes flags _

/-- Sums and products keep to their destination. -/
theorem translateFpCommutative_routes (op : SseOp) :
    RoutedInside flags m instr (translateFpCommutative form flags m instr op) := by
  refine ⟨_, rfl, fun s => ?_⟩
  refine .bind (getFpReg_routes flags _ reachable_first) fun regSrc1 _ => ?_
  refine .bind (getFpReg_routes flags _ reachable_second) fun regSrc2 _ => ?_
  refine .bind (getFpRegNoLoad_routes flags reachable_first) fun regDest hdest => ?_
  exact .bind (doFpArithmCommutative_routes form _ _ hdest op) fun _ _ => setFpReg_routes flags _

/-- A difference keeps to its destination, also of a register and itself. -/
theorem translateFSUB_routes : RoutedInside flags m instr (translateFSUB form flags m instr) := by
  refine ⟨_, rfl, fun s => ?_⟩
  refine .bind (getFpRegNoLoad_routes flags reachable_first) fun regDest hdest => ?_
  refine .bind (.ite (fun _ => .emit hdest) fun _ => ?_) fun _ _ => setFpReg_routes flags _
  exact doFpArithmOrdered_routes flags form .sub hdest

theorem translateFDIV_routes : RoutedInside flags m instr (translateFDIV form flags m instr) := by
  refine ⟨_, rfl, fun s => ?_⟩
  refine .bind (getFpRegNoLoad_routes flags reachable_first) fun regDest hdest => ?_
  exact .bind (doFpArithmOrdered_routes flags form .div hdest) fun _ _ => setFpReg_routes flags _

/-- A square root keeps to its destination. -/
theorem translateFSQRT_routes : RoutedInside flags m instr (translateFSQRT form flags m instr) := by
  refine ⟨_, rfl, fun s => ?_⟩
  refine .bind (getFpReg_routes flags _ reachable_first) fun regSrc1 _ => ?_
  refine .bind (getFpRegNoLoad_routes flags reachable_first) fun regDest hdest => ?_
  exact .bind (.emit hdest) fun _ _ => setFpReg_routes flags _

/-- All emitters of the arithmetic. -/
theorem fpEmitter_routes (m : FpMapping) (instr : RiscInstr)
    {emitter : Flags → FpMapping → RiscInstr → FpGen Unit} {mnem : RiscMnem}
    (hemitter : fpEmitter mnem = some emitter) :
    RoutedInside flags m instr (emitter flags m instr) := by
  cases mnem with
  | fmadds | fmaddd =>
      obtain rfl := Option.some.inj hemitter
      exact translateFMADD_routes flags _
  | fmsubs | fmsubd =>
      obtain rfl := Option.some.inj hemitter
      exact translateFMSUB_routes flags _
  | fnmsubs | fnmsubd =>
      obtain rfl := Option.some.inj hemitter
      exact translateFNMSUB_routes flags _
  | fnmadds | fnmaddd =>
      obtain rfl := Option.some.inj hemitter
      exact translateFNMADD_routes flags _
  | fadds | faddd | fmuls | fmuld =>
      obtain rfl := Option.some.inj hemitter
      exact translateFpCommutative_routes flags _ _
  | fsubs | fsubd =>
      obtain rfl := Option.some.inj hemitter
      exact translateFSUB_routes flags _
  | fdivs | fdivd =>
      obtain rfl := Option.some.inj hemitter
      exact translateFDIV_routes flags _
  | fsqrts | fsqrtd =>
      obtain rfl := Option.some.inj hemitter
      exact translateFSQRT_routes flags _
  | _ => exact absurd hemitter nofun

end Emitters

end RiaJit.Translate
