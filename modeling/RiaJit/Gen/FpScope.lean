import RiaJit.Gen.FpOfInt
import RiaJit.Gen.FpRouted
import RiaJit.Gen.FpToInt

/-!
# The scope of a static rounding mode

Between `saveAndSetRound` and `restoreFpRound` an instruction runs in a rounding mode of its own.
The registers that the helpers take hold no register of the guest, and what is left of the
instruction in `MXCSR` are the exceptions it raised, so that the mode of the guest outlives any
sequence of such instructions.
-/

set_option autoImplicit false

namespace RiaJit.Translate

open EmitLogic ForwardJumps X86 Ieee RiaJit.Runtime

/-! ## The rounding control -/

/-- Whether an instruction leaves the rounding control alone. -/
def keepsControl : FpInstr → Bool
  | .sse (.ldmxcsrm _) => false
  | _ => true

/-- The machine that is stuck as soon as it rounds in another mode. -/
def stepIn (u : FpUnit) (mode : Mode) : FpInstr → FpState → Option (FpState × Nat) :=
  guarded (fun h => roundingControl h.sse.mxcsr = mode) (FpInstr.step u)

/-- A generator that only emits such instructions. -/
def KeepsControl {α : Type} (g : FpCode α) : Prop :=
  Emits (fun _ => True) (fun i => keepsControl i = true) g fun _ _ => True

section Control

variable {u : FpUnit} {α β : Type}

theorem exec_mxcsr {ops : SseArithmetic} {i : SseInstr} {h k : SseState}
    (hi : keepsControl (.sse i) = true) (hexec : i.exec ops h = some k) : k.mxcsr = h.mxcsr := by
  cases i with
  | ldmxcsrm src => exact absurd hi Bool.false_ne_true
  | gp i =>
      obtain ⟨host, -, rfl⟩ := Option.map_eq_some_iff.1 hexec
      rfl
  | _ =>
      obtain rfl := Option.some.inj hexec
      rfl

theorem step_control {i : FpInstr} {h : FpState} {p : FpState × Nat} (hi : keepsControl i = true)
    (hstep : FpInstr.step u i h = some p) :
    roundingControl p.1.sse.mxcsr = roundingControl h.sse.mxcsr := by
  obtain ⟨h', k⟩ := p
  cases i with
  | sse i =>
      obtain ⟨q, hexec, heq⟩ := Option.map_eq_some_iff.1 hstep
      obtain ⟨sse, hsse, rfl⟩ := Option.map_eq_some_iff.1 hexec
      obtain ⟨rfl, rfl⟩ := Prod.mk.inj heq
      show roundingControl (sse.mxcsr ||| _) = _
      rw [roundingControl_raised, exec_mxcsr hi hsse]
  | _ =>
      -- all others work on registers
      exact (step_onRegisters (R := fun _ => True) (X := fun _ => True) rfl (fun _ _ => trivial)
        (fun _ _ => trivial) hstep).mode

/-- Such code runs in the mode that it begins in. -/
theorem runs_stepIn {g : FpCode α} {s s' : FpGenState} {h h' : FpState} {a : α} {mode : Mode}
    (hkeeps : KeepsControl g) (hmode : roundingControl h.sse.mxcsr = mode)
    (hrun : FpRuns u g s h a s' h') : ForwardJumps.Runs (stepIn u mode) g s h a s' h' := by
  refine hrun.guarded (fun i hi h p hstep hh => ?_) hkeeps hmode
  exact (step_control hi hstep).trans hh

theorem KeepsControl.bind {g : FpCode α} {k : α → FpCode β} (hg : KeepsControl g)
    (hk : ∀ a, KeepsControl (k a)) : KeepsControl (g >>= k) :=
  Emits.bind hg hk

theorem keepsControl_emit {i : FpInstr} (hi : keepsControl i = true) : KeepsControl (Gen.emit i) :=
  Emits.emit hi fun _ _ => trivial

theorem keepsControl_emitCode {is : List FpInstr} (his : ∀ i ∈ is, keepsControl i = true) :
    KeepsControl (emitCode is) :=
  fun _ _ => ⟨his, trivial⟩

/-- Helpers of the integer part. -/
theorem keepsControl_liftGp (g : Gen α) : KeepsControl (liftM g) := by
  intro s _
  refine ⟨fun i hi => ?_, trivial⟩
  obtain ⟨j, -, rfl⟩ := List.mem_map.1 hi
  rfl

/-- Helpers of the floating-point part. -/
theorem keepsControl_liftSse {P : FpGenState → Prop} {p : SseInstr → Prop} {g : FpGen α}
    {Q : α → FpGenState → Prop} (hP : ∀ s, P s) (hp : ∀ i, p i → keepsControl (.sse i) = true)
    (hg : Emits P p g Q) : KeepsControl (liftM g) := by
  intro s _
  refine ⟨fun i hi => ?_, trivial⟩
  obtain ⟨j, hj, rfl⟩ := List.mem_map.1 hi
  exact hp j ((hg s (hP s)).1 j hj)

theorem exceptionless_control (i : SseInstr) (hi : exceptionless i = true) :
    keepsControl (.sse i) = true := by
  cases i with
  | ldmxcsrm src => exact absurd hi Bool.false_ne_true
  | _ => rfl

theorem Exceptionless.keepsControl {g : FpGen α} (hg : Exceptionless g) : KeepsControl (liftM g) :=
  keepsControl_liftSse (fun _ => trivial) exceptionless_control hg

theorem Confined.keepsControl {R : FeReg → Prop} {X : XmmReg → Prop} {is : List FpInstr}
    (his : Confined R X is) : KeepsControl (emitCode is) := by
  refine keepsControl_emitCode fun i hi => ?_
  have hregisters := (his i hi).1
  cases i with
  | sse i =>
      cases i with
      | ldmxcsrm src => exact absurd hregisters Bool.false_ne_true
      | _ => rfl
  | _ => rfl

end Control

/-! ## The register that is taken next -/

/-- The register that is taken next does not hold this register of the guest. -/
def Spared (r : RegisterInfo) (x : Nat) : Prop :=
  ∀ R, Located r R x → R ≠ getRegForIndex r.oldest

section Spared

variable {r : RegisterInfo} {x : Nat}

/-- The last register that was requested. -/
theorem Pinned.spared {R : FeReg} (hp : Pinned r R x 1) (hwf : r.WellFormed) (hx : x < 32) :
    Spared r x := by
  intro Q hloc
  rcases hloc with hmap | ⟨hnone, i, rfl, hi⟩
  · exact gpMap_ne_replacement hmap _
  · rcases hp with hmap | ⟨j, rfl, hj, hyoung⟩
    · exact absurd (hnone.symm.trans hmap) nofun
    · have hvalid : r.replacementContent i ≠ invalidReg := by
        rw [hi]
        unfold invalidReg
        omega
      obtain rfl := hwf.distinct i j (hi.trans hj.symm) (by rwa [hi]) hvalid
      exact Pinned.ne_oldest hwf hx (.inr ⟨i, rfl, hi, hyoung⟩)

/-- If a replacement is empty, an empty one is taken. -/
theorem spared_of_empty (hwf : r.WellFormed) {i : Fin 3}
    (hempty : r.replacementContent i = invalidReg) (hx : x < 32) : Spared r x := by
  have hrecency := (hwf.empty i).2 hempty
  have holdest : r.replacementContent r.oldest = invalidReg := by
    refine (hwf.empty r.oldest).1 ?_
    have hle := r.oldest_le i
    omega
  intro Q hloc
  rcases hloc with hmap | ⟨-, j, rfl, hj⟩
  · exact gpMap_ne_replacement hmap _
  · intro heq
    rw [getRegForIndex_injective heq, holdest] at hj
    unfold invalidReg at hj
    omega

end Spared

/-! ## What generators return -/

/-- The value and the state that a generator returns. -/
def Returns {α : Type} (g : FpCode α) (s : FpGenState) (a : α) (s' : FpGenState) : Prop :=
  (g s).1 = a ∧ (g s).2.2 = s'

section Returns

variable {u : FpUnit} {α β : Type} {g : FpCode α} {s s₁ s' : FpGenState} {h h' : FpState} {a : α}

theorem returns_of_runs (hrun : FpRuns u g s h a s' h') : Returns g s a s' := by
  obtain ⟨code, hgs, -⟩ := hrun
  unfold Returns
  rw [hgs]
  exact ⟨rfl, rfl⟩

theorem Returns.bind {k : α → FpCode β} {b : β} (hg : Returns g s a s₁)
    (hk : Returns (k a) s₁ b s') : Returns (g >>= k) s b s' := by
  obtain ⟨rfl, rfl⟩ := hg
  exact hk

theorem returns_emit (i : FpInstr) (s : FpGenState) : Returns (Gen.emit i) s () s := ⟨rfl, rfl⟩

theorem returns_emitCode (is : List FpInstr) (s : FpGenState) : Returns (emitCode is) s () s :=
  ⟨rfl, rfl⟩

/-- The state does not depend on how the code runs. -/
theorem Returns.unique {b : α} (hg : Returns g s a s₁) (hrun : FpRuns u g s h b s' h') :
    s₁ = s' := by
  obtain ⟨code, hgs, -⟩ := hrun
  obtain ⟨-, rfl⟩ := hg
  rw [hgs]

end Returns

/-! ## The code between the helpers -/

/-- Code that the helpers may enclose: it keeps the rounding control, the words for `MXCSR` and the
registers of the guest but `rd`, and the register that is taken behind it is not that of `x`. -/
structure Enclosed (u : FpUnit) (m : FpMapping) (instr : RiscInstr) (x : Option Nat)
    (body : FpCode Unit) : Prop where
  control : KeepsControl body
  runs : ∀ g f r h e a, Agrees m x0 g f r h → ∃ g' f' r' h',
    FpRuns u body ⟨⟨r, e⟩, a⟩ h () ⟨⟨r', e⟩, a⟩ h' ∧ Agrees m x0 g' f' r' h' ∧ Elsewhere h h' ∧
      (∀ y, y ≠ instr.regDest → g'.reg y = g.reg y) ∧ g'.mem = g.mem ∧ ∀ y ∈ x, Spared r' y

section Bodies

variable {u : FpUnit} {m : FpMapping} {instr : RiscInstr} {g : GuestState}
  {f : Nat → BitVec 64} {r : RegisterInfo} {h : FpState} {e : Bool} {a : Option Abort}
  (form : FpForm) (flags : Flags)

/-- The arithmetic. -/
theorem enclosed_routes {body : FpGen Unit}
    (hbody : ∀ s, EmitsRoutes m instr.regDest s body fun _ => True) :
    Enclosed u m instr none (liftM body) := by
  constructor
  · intro s _
    refine ⟨fun i hi => ?_, trivial⟩
    obtain ⟨j, hj, rfl⟩ := List.mem_map.1 hi
    have hroutes := (hbody s s rfl).1 j hj
    cases j with
    | ldmxcsrm src => exact hroutes.elim
    | _ => rfl
  · intro g f r h e a ha
    obtain ⟨hroutes, hstate, -⟩ := hbody ⟨⟨r, e⟩, a⟩ ⟨⟨r, e⟩, a⟩ rfl
    obtain ⟨h', hrun, hrouted⟩ := routes_run (u := u) hroutes h
    refine ⟨g, _, r, h', ⟨_, ?_, hrun⟩, hrouted.agrees ha, hrouted.elsewhere, fun _ _ => rfl, rfl,
      fun y hy => absurd hy (Option.not_mem_none y)⟩
    show (_, _, (body ⟨⟨r, e⟩, a⟩).2.2) = _
    rw [hstate]
    rfl

theorem keepsControl_getFpReg (x : Nat) (q : XmmReg) :
    KeepsControl (liftM (getFpReg flags m x q)) :=
  (getFpReg_exceptionless flags m x q).keepsControl

theorem keepsControl_getFpRegNoLoad (x : Nat) (q : XmmReg) :
    KeepsControl (liftM (getFpRegNoLoad flags m x q)) :=
  (getFpRegNoLoad_exceptionless flags m x q).keepsControl

theorem keepsControl_setFpReg (x : Nat) (q : XmmReg) :
    KeepsControl (liftM (setFpReg flags m x q)) :=
  (setFpReg_exceptionless flags m x q).keepsControl

theorem toIntBody_control (t : IntType) (truncate : Bool) :
    KeepsControl (toIntBody form flags m instr t truncate) := by
  cases t with
  | w =>
      refine (keepsControl_getFpReg flags _ _).bind fun p => ?_
      refine (keepsControl_liftGp _).bind fun Q => ?_
      exact (keepsControl_emit rfl).bind fun _ => keepsControl_emit rfl
  | l =>
      refine (keepsControl_getFpReg flags _ _).bind fun p => ?_
      exact (keepsControl_liftGp _).bind fun Q => keepsControl_emit rfl
  | wu =>
      refine (keepsControl_getFpReg flags _ _).bind fun p => ?_
      refine (keepsControl_liftGp _).bind fun Q => ?_
      exact (toUnsignedWord_confined truncate form Q p).keepsControl
  | lu =>
      refine (keepsControl_getFpReg flags _ _).bind fun p => ?_
      refine (keepsControl_liftGp _).bind fun Q => ?_
      refine (keepsControl_liftGp _).bind fun S => ?_
      exact (toUnsignedLong_confined truncate form Q S p).keepsControl

/-- The register that is taken behind a conversion to an integer is not that of `rd`. -/
theorem toIntBody_spares (ha : Agrees m x0 g f r h) (hrd : instr.regDest < 32) (t : IntType)
    (truncate : Bool) :
    ∃ r', Returns (toIntBody form flags m instr t truncate) ⟨⟨r, e⟩, a⟩ () ⟨⟨r', e⟩, a⟩ ∧
      Spared r' instr.regDest := by
  obtain ⟨p, Q, h₀, r₁, h₁, hrun₀, hrun₁, hreq, hpinned⟩ :=
    requested (u := truncatingUnit) (e := e) (a := a) flags ha hrd
  have hspared := (hpinned.mono (Nat.zero_le 1)).spared hreq.agrees.rep.wf hrd
  have hreturns₀ := returns_of_runs hrun₀
  have hreturns₁ := returns_of_runs hrun₁
  cases t with
  | w =>
      exact ⟨r₁, hreturns₀.bind (hreturns₁.bind ((returns_emit _ _).bind (returns_emit _ _))),
        hspared⟩
  | l => exact ⟨r₁, hreturns₀.bind (hreturns₁.bind (returns_emit _ _)), hspared⟩
  | wu => exact ⟨r₁, hreturns₀.bind (hreturns₁.bind (returns_emitCode _ _)), hspared⟩
  | lu =>
      -- a replacement was emptied for the bias
      obtain ⟨r₂, h₂, hrun₂, hreq₂, hempty⟩ :=
        hreq.invalidateOldest (u := truncatingUnit) (e := e) (a := a) hrd hpinned
      exact ⟨r₂, hreturns₀.bind (hreturns₁.bind
        ((returns_of_runs hrun₂).bind (returns_emitCode _ _))),
        spared_of_empty hreq₂.agrees.rep.wf hempty hrd⟩

theorem enclosed_toInt (hrd : instr.regDest < 32) (t : IntType) (truncate : Bool) :
    Enclosed u m instr (some instr.regDest) (toIntBody form flags m instr t truncate) := by
  refine ⟨toIntBody_control form flags t truncate, fun g f r h e a ha => ?_⟩
  obtain ⟨v, f', r', h', hrun, hagrees, helse⟩ : ∃ v f' r' h',
      FpRuns u (toIntBody form flags m instr t truncate) ⟨⟨r, e⟩, a⟩ h () ⟨⟨r', e⟩, a⟩ h' ∧
        Agrees m x0 (g.write instr.regDest v) f' r' h' ∧ Elsewhere h h' := by
    by_cases ht : t = .lu
    · subst ht
      obtain ⟨v, f', hdelivers, -⟩ :=
        unsignedLongBody_delivers (u := u) (e := e) (a := a) form flags truncate ha hrd
      exact ⟨v, f', hdelivers⟩
    · exact ⟨_, f, toIntBody_delivers form flags truncate ha hrd ht⟩
  obtain ⟨r'', hreturns, hspared⟩ :=
    toIntBody_spares (e := e) (a := a) form flags ha hrd t truncate
  obtain rfl : r'' = r' := congrArg (fun s => s.gen.rInfo) (hreturns.unique hrun)
  refine ⟨_, f', r'', h', hrun, hagrees, helse, fun y hy => GuestState.write_reg_of_ne g hy v,
    GuestState.write_mem g _ v, fun y hy => ?_⟩
  rw [← Option.mem_some_iff.1 hy]
  exact hspared

theorem copyTwice_control (R : FeReg) : KeepsControl (copyTwice R) := by
  have hmove : ∀ i Q Q', KeepsControl (liftM (invalidateReplacement i) >>= fun _ =>
      Gen.emit (.sse (.gp (.movrr .s64 Q Q')))) := fun i Q Q' =>
    (keepsControl_liftGp _).bind fun _ => keepsControl_emit rfl
  unfold copyTwice
  split
  · refine (keepsControl_liftGp _).bind fun _ => (keepsControl_emit rfl).bind fun _ => ?_
    exact hmove 0 _ _
  · split
    · refine (keepsControl_liftGp _).bind fun _ => (keepsControl_emit rfl).bind fun _ => ?_
      exact hmove 1 _ _
    · refine (keepsControl_liftGp _).bind fun _ => (keepsControl_liftGp _).bind fun _ => ?_
      exact (keepsControl_emit rfl).bind fun _ => keepsControl_emit rfl

theorem ofIntBody_control (t : IntType) : KeepsControl (ofIntBody form flags m instr t) := by
  cases t with
  | w | l =>
      refine (keepsControl_liftGp _).bind fun R => ?_
      refine (keepsControl_getFpRegNoLoad flags _ _).bind fun d => ?_
      refine (keepsControl_emit rfl).bind fun _ => (keepsControl_emit rfl).bind fun _ => ?_
      exact keepsControl_setFpReg flags _ _
  | wu =>
      refine (keepsControl_liftGp _).bind fun R => (keepsControl_liftGp _).bind fun S => ?_
      refine (keepsControl_getFpRegNoLoad flags _ _).bind fun d => ?_
      refine (keepsControl_emit rfl).bind fun _ => (keepsControl_emit rfl).bind fun _ => ?_
      exact (keepsControl_emit rfl).bind fun _ => keepsControl_setFpReg flags _ _
  | lu =>
      refine (keepsControl_liftGp _).bind fun R => (copyTwice_control R).bind fun _ => ?_
      refine (keepsControl_getFpRegNoLoad flags _ _).bind fun d => ?_
      refine (ofUnsignedLong_confined form d _).keepsControl.bind fun _ => ?_
      exact keepsControl_setFpReg flags _ _

/-- A helper of the floating-point part leaves the state of the translator as it is. -/
theorem returns_getFpRegNoLoad (x : Nat) (q : XmmReg) (s : FpGenState) :
    Returns (liftM (getFpRegNoLoad flags m x q)) s ((m.fpMap x).getD q) s := by
  unfold getFpRegNoLoad recordFpProfiler ifNeeded
  split
  · exact ⟨rfl, rfl⟩
  · exact ⟨rfl, rfl⟩

theorem returns_setFpReg (x : Nat) (q : XmmReg) (s : FpGenState) :
    Returns (liftM (setFpReg flags m x q)) s () s := by
  unfold setFpReg recordFpProfiler ifNeeded
  split
  · split
    · exact ⟨rfl, rfl⟩
    · exact ⟨rfl, rfl⟩
  · split
    · exact ⟨rfl, rfl⟩
    · exact ⟨rfl, rfl⟩

/-- The register that is taken behind a conversion of an integer is not that of `rs1`. -/
theorem ofIntBody_spares (ha : Agrees m x0 g f r h) (hrs1 : instr.regSrc1 < 32) (t : IntType) :
    ∃ r', Returns (ofIntBody form flags m instr t) ⟨⟨r, e⟩, a⟩ () ⟨⟨r', e⟩, a⟩ ∧
      Spared r' instr.regSrc1 := by
  obtain ⟨R, r₁, h₁, hrun₁, ha₁, -, -, -, hpinned⟩ :=
    getRs1_agrees (u := truncatingUnit) (e := e) (a := a) flags ha hrs1
  have hreturns₁ := returns_of_runs hrun₁
  cases t with
  | w | l =>
      exact ⟨r₁, hreturns₁.bind ((returns_getFpRegNoLoad flags _ _ _).bind
        ((returns_emit _ _).bind ((returns_emit _ _).bind (returns_setFpReg flags _ _ _)))),
        (hpinned.mono (Nat.zero_le 1)).spared ha₁.rep.wf hrs1⟩
  | wu =>
      obtain ⟨r₂, h₂, hrun₂, ha₂, -, -, hempty, -⟩ :=
        invalidateOldest_agrees (u := truncatingUnit) (e := e) (a := a) ha₁
      exact ⟨r₂, hreturns₁.bind ((returns_of_runs hrun₂).bind
        ((returns_getFpRegNoLoad flags _ _ _).bind ((returns_emit _ _).bind
        ((returns_emit _ _).bind ((returns_emit _ _).bind (returns_setFpReg flags _ _ _)))))),
        spared_of_empty ha₂.rep.wf hempty hrs1⟩
  | lu =>
      obtain ⟨r₂, h₂, hrun₂, ha₂, -, hempty, -⟩ :=
        copyTwice_agrees (u := truncatingUnit) (e := e) (a := a) ha₁ R
      exact ⟨r₂, hreturns₁.bind ((returns_of_runs hrun₂).bind
        ((returns_getFpRegNoLoad flags _ _ _).bind ((returns_emitCode _ _).bind
        (returns_setFpReg flags _ _ _)))), spared_of_empty ha₂.rep.wf hempty hrs1⟩

/-- Conversions of integers. -/
theorem enclosed_ofInt (hrs1 : instr.regSrc1 < 32) (t : IntType) :
    Enclosed u m instr (some instr.regSrc1) (ofIntBody form flags m instr t) := by
  refine ⟨ofIntBody_control form flags t, fun g f r h e a ha => ?_⟩
  obtain ⟨x, v, r', h', hrun, hagrees, helse, -⟩ :
      ∃ x, DeliversFp u m instr g f r h e a (ofIntBody form flags m instr t) form x := by
    cases t with
    | w => exact ⟨_, ofSignedBody_delivers form flags ha hrs1 .s32⟩
    | l => exact ⟨_, ofSignedBody_delivers form flags ha hrs1 .s64⟩
    | wu => exact ⟨_, ofUnsignedWordBody_delivers form flags ha hrs1⟩
    | lu =>
        obtain ⟨x, hdelivers, -⟩ :=
          ofUnsignedLongBody_delivers (u := u) (e := e) (a := a) form flags ha hrs1
        exact ⟨x, hdelivers⟩
  obtain ⟨r'', hreturns, hspared⟩ := ofIntBody_spares (e := e) (a := a) form flags ha hrs1 t
  obtain rfl : r'' = r' := congrArg (fun s => s.gen.rInfo) (hreturns.unique hrun)
  refine ⟨g, _, r'', h', hrun, hagrees, helse, fun _ _ => rfl, rfl, fun y hy => ?_⟩
  rw [← Option.mem_some_iff.1 hy]
  exact hspared

/-- `FCVT.S.D`. -/
theorem enclosed_narrow : Enclosed u m instr none (narrowBody flags m instr) := by
  constructor
  · refine (keepsControl_getFpReg flags _ _).bind fun p => ?_
    refine (keepsControl_getFpRegNoLoad flags _ _).bind fun d => ?_
    exact (keepsControl_emit rfl).bind fun _ => keepsControl_setFpReg flags _ _
  · intro g f r h e a ha
    obtain ⟨p, h₁, hrun₁, ha₁, he₁, -⟩ :=
      getFpReg_agrees (u := u) flags ha instr.regSrc1 firstFpReg (.inl rfl) ⟨⟨r, e⟩, a⟩
    obtain ⟨h₂, hrun₂, ha₂, he₂, -⟩ :=
      getFpRegNoLoad_agrees (u := u) flags ha₁ instr.regDest firstFpReg ⟨⟨r, e⟩, a⟩
    have hcode : runFrom (FpInstr.step u) 0
      [.cvtsd2ssrr ((m.fpMap instr.regDest).getD firstFpReg) p] h₂ = some _ := rfl
    have hconfined : Confined (fun _ => False)
        (fun X => X = firstFpReg ∨ X = (m.fpMap instr.regDest).getD firstFpReg)
        [.cvtsd2ssrr ((m.fpMap instr.regDest).getD firstFpReg) p] := by
      simp [confined_cons, confined_nil, onRegisters, writesReg, writesXmm]
    obtain ⟨h₃, hrun₃, ha₃, he₃⟩ := ha₂.deliverCode flags (target_getD m _ _) hcode hconfined
      (fun _ hQ => hQ.elim) ⟨⟨r, e⟩, a⟩
    exact ⟨g, _, r, h₃, .bind hrun₁ (.bind hrun₂ hrun₃), ha₃, he₁.trans (he₂.trans he₃),
      fun _ _ => rfl, rfl, fun y hy => absurd hy (Option.not_mem_none y)⟩

end Bodies

/-! ## The instructions -/

/-- The emitters of the instructions that may have a rounding mode. -/
def roundedEmitter (mnem : RiscMnem) : Option (Flags → FpMapping → RiscInstr → FpCode Unit) :=
  match fpEmitter mnem with
  | some emitter => some fun flags m instr => liftM (emitter flags m instr)
  | none => fpConvertEmitter mnem

/-- The integer register that an instruction reads or writes. -/
def integerRegister (instr : RiscInstr) : Option Nat :=
  match fpConversion instr.mnem with
  | some (.toInt ..) => some instr.regDest
  | some (.ofInt ..) => some instr.regSrc1
  | _ => none

/-- The instruction has a static rounding mode and gets it from the helpers, as conversions to
integers do not if they truncate. -/
def Bracketed (instr : RiscInstr) : Prop :=
  (∃ mode, staticMode instr.roundingMode = some mode) ∧
    ∀ t form, fpConversion instr.mnem = some (.toInt t form) → instr.roundingMode ≠ rtz

section Instructions

variable {u : FpUnit} {m : FpMapping} {instr : RiscInstr} (flags : Flags)

/-- The arithmetic converts nothing. -/
theorem fpConversion_of_fpEmitter {emitter : Flags → FpMapping → RiscInstr → FpGen Unit}
    {mnem : RiscMnem} (hemitter : fpEmitter mnem = some emitter) : fpConversion mnem = none := by
  cases mnem <;> first | rfl | cases hemitter

/-- A lifted frame is a frame. -/
theorem liftM_withRound (hround : instr.roundingMode ≠ dyn) (body : FpGen Unit) :
    (liftM (withRound flags instr body) : FpCode Unit) =
      bracket flags instr.roundingMode (liftM body) := by
  funext s
  simp [withRound, ifNeeded, hround, bracket, liftM, monadLift, MonadLift.monadLift, embed, bind,
    EmitLogic.Gen.andThen]

/-- Every such instruction is code that the helpers may enclose, enclosed by them. -/
theorem roundedEmitter_encloses {emitter : Flags → FpMapping → RiscInstr → FpCode Unit}
    (hemitter : roundedEmitter instr.mnem = some emitter) (hbracketed : Bracketed instr)
    (hrd : instr.regDest < 32) (hrs1 : instr.regSrc1 < 32) :
    ∃ body, emitter flags m instr = bracket flags instr.roundingMode body ∧
      Enclosed u m instr (integerRegister instr) body := by
  obtain ⟨⟨mode, hmode⟩, htruncates⟩ := hbracketed
  have hround := staticMode_ne_dyn hmode
  unfold roundedEmitter at hemitter
  -- arithmetic has its bracket around the body, a conversion has it under a condition
  cases hfp : fpEmitter instr.mnem with
  | some arithmetic =>
      rw [hfp] at hemitter
      obtain rfl := Option.some.inj hemitter
      obtain ⟨body, hframe, hroutes⟩ := fpEmitter_routes flags m instr hfp
      have hnone : integerRegister instr = none := by
        unfold integerRegister
        rw [fpConversion_of_fpEmitter hfp]
      refine ⟨liftM body, ?_, ?_⟩
      · dsimp only
        rw [hframe, liftM_withRound flags hround]
      · rw [hnone]
        exact enclosed_routes hroutes
  | none =>
      rw [hfp] at hemitter
      dsimp only at hemitter
      rw [fpConvertEmitter_eq] at hemitter
      obtain ⟨conversion, hconversion, rfl⟩ := Option.map_eq_some_iff.1 hemitter
      unfold integerRegister
      rw [hconversion]
      cases conversion with
      | toInt t form =>
          have hrtz := htruncates t form hconversion
          refine ⟨_, bracketIf_pos ⟨hround, hrtz⟩ _ _ _, ?_⟩
          exact enclosed_toInt form flags hrd t _
      | ofInt t form =>
          exact ⟨_, bracketIf_pos hround _ _ _, enclosed_ofInt form flags hrs1 t⟩
      | narrow => exact ⟨_, bracketIf_pos hround _ _ _, enclosed_narrow flags⟩

end Instructions

/-! ## Scopes -/

/-- A guest and the machine that represents it while the translator is in this state. -/
structure Represented where
  guest : GuestState
  fp : Nat → BitVec 64
  info : RegisterInfo
  host : FpState

/-- The machine represents the guest. -/
def Represented.Ok (m : FpMapping) (k : Represented) : Prop :=
  Agrees m x0 k.guest k.fp k.info k.host

/-- An instruction in the scope of its rounding mode, from `k` to `k'`, with the states in which
the code between the helpers begins and ends. -/
structure InScope (u : FpUnit) (flags : Flags) (m : FpMapping) (e : Bool) (a : Option Abort)
    (instr : RiscInstr) (mode : Mode) (body : FpCode Unit) (raised : BitVec 6)
    (k k₁ k₂ k' : Represented) : Prop where
  /-- `saveAndSetRound` moves no value of the guest into or out of the register that it takes. -/
  saves : FpRuns u (liftM (saveAndSetRound flags instr.roundingMode)) ⟨⟨k.info, e⟩, a⟩ k.host ()
    ⟨⟨k₁.info, e⟩, a⟩ k₁.host
  saveScratch : TakesScratch k.info k₁.info k.host k₁.host
  saved : k₁.Ok m ∧ k₁.guest = k.guest ∧ k₁.fp = k.fp
  /-- Every instruction of the operation is executed in the requested mode. -/
  operates : ForwardJumps.Runs (stepIn u mode) body ⟨⟨k₁.info, e⟩, a⟩ k₁.host ()
    ⟨⟨k₂.info, e⟩, a⟩ k₂.host
  operated : k₂.Ok m ∧ (∀ y, y ≠ instr.regDest → k₂.guest.reg y = k.guest.reg y) ∧
    k₂.guest.mem = k.guest.mem
  raises : k₂.host.sse.mxcsr = k₁.host.sse.mxcsr ||| raised.setWidth 32
  /-- `restoreFpRound` takes another register than that of an operand or of `rd`. -/
  restores : FpRuns u (liftM restoreFpRound) ⟨⟨k₂.info, e⟩, a⟩ k₂.host () ⟨⟨k'.info, e⟩, a⟩ k'.host
  spared : ∀ x ∈ integerRegister instr, Spared k₂.info x
  restoreScratch : TakesScratch k₂.info k'.info k₂.host k'.host
  restored : k'.Ok m ∧ k'.guest = k₂.guest ∧ k'.fp = k₂.fp
  /-- The exceptions are all that is left in `MXCSR`. -/
  mxcsr : k'.host.sse.mxcsr = k.host.sse.mxcsr ||| raised.setWidth 32

/-- A sequence of instructions, each in its scope. -/
inductive ScopedRun (u : FpUnit) (flags : Flags) (m : FpMapping) (e : Bool) (a : Option Abort) :
    List RiscInstr → Represented → Represented → Prop
  | nil (k : Represented) : ScopedRun u flags m e a [] k k
  | cons {instr : RiscInstr} {instrs : List RiscInstr}
      {emitter : Flags → FpMapping → RiscInstr → FpCode Unit} {mode : Mode} {body : FpCode Unit}
      {raised : BitVec 6} {k k₁ k₂ k' k'' : Represented}
      (hemitter : roundedEmitter instr.mnem = some emitter)
      (hmode : staticMode instr.roundingMode = some mode)
      (hbody : emitter flags m instr = bracket flags instr.roundingMode body)
      (hscope : InScope u flags m e a instr mode body raised k k₁ k₂ k')
      (hrest : ScopedRun u flags m e a instrs k' k'') :
      ScopedRun u flags m e a (instr :: instrs) k k''

/-- The code of one of these instructions. -/
def translateRounded (flags : Flags) (m : FpMapping) (instr : RiscInstr) : FpCode Unit :=
  match roundedEmitter instr.mnem with
  | some emitter => emitter flags m instr
  | none => pure ()

/-- The code of a sequence of these instructions. -/
def roundedCode (flags : Flags) (m : FpMapping) : List RiscInstr → FpCode Unit
  | [] => pure ()
  | instr :: instrs => do
      translateRounded flags m instr
      roundedCode flags m instrs

section Scopes

variable {u : FpUnit} {flags : Flags} {m : FpMapping} {e : Bool} {a : Option Abort}
  {instr : RiscInstr} {mode : Mode} {body : FpCode Unit} {raised : BitVec 6}
  {k k₁ k₂ k' : Represented}

/-- Enclosed code is in the scope of the mode. -/
theorem Enclosed.inScope (flags : Flags)
    (hbody : Enclosed u m instr (integerRegister instr) body)
    (hmode : staticMode instr.roundingMode = some mode) (hk : k.Ok m) :
    ∃ raised k₁ k₂ k', InScope u flags m e a instr mode body raised k k₁ k₂ k' := by
  obtain ⟨w, hok, hw⟩ := toSseRoundMode_static flags hmode
  obtain ⟨r₁, h₁, hrun₁, ha₁, -, -, hmxcsr₁, hsave₁, htakes₁⟩ :=
    saveAndSetRound_agrees (u := u) (e := e) (a := a) hk hok
  have hinside : roundingControl h₁.sse.mxcsr = mode := by
    have hzero := roundingControl_setRound w k.host.sse.mxcsr 0#6
    rw [BitVec.setWidth_zero, BitVec.or_zero] at hzero
    rw [hmxcsr₁, hzero, hw]
  obtain ⟨g', f', r₂, h₂, hrun₂, ha₂, he₂, hregs, hmem, hspared⟩ := hbody.runs _ _ _ _ e a ha₁
  obtain ⟨r₃, h₃, hrun₃, ha₃, -, hmxcsr₃, htakes₃⟩ :=
    restoreFpRound_agrees (u := u) (e := e) (a := a) ha₂
  obtain ⟨raised, hraised⟩ := he₂.mxcsr
  refine ⟨raised, ⟨k.guest, k.fp, r₁, h₁⟩, ⟨g', f', r₂, h₂⟩, ⟨g', f', r₃, h₃⟩, hrun₁, htakes₁,
    ⟨ha₁, rfl, rfl⟩, runs_stepIn hbody.control hinside hrun₂, ⟨ha₂, hregs, hmem⟩, hraised, hrun₃,
    hspared, htakes₃, ⟨ha₃, rfl, rfl⟩, ?_⟩
  -- the word still holds what the first helper saved
  have hword : (h₂.sse.cell mxcsrSave).setWidth 32 = savedRound k.host.sse.mxcsr :=
    (congrArg (BitVec.setWidth 32) (he₂.fctrl 0)).trans hsave₁
  show h₃.sse.mxcsr = _
  rw [hmxcsr₃, hword, hraised, hmxcsr₁, restoredRound_savedRound _ _ (word_masked hok)]

/-- An instruction in its scope is one run of its code. -/
theorem InScope.runs (hscope : InScope u flags m e a instr mode body raised k k₁ k₂ k') :
    FpRuns u (bracket flags instr.roundingMode body) ⟨⟨k.info, e⟩, a⟩ k.host ()
      ⟨⟨k'.info, e⟩, a⟩ k'.host :=
  .bind hscope.saves (.bind hscope.operates.of_guarded hscope.restores)

/-- What a sequence leaves in `MXCSR`. -/
theorem ScopedRun.mxcsr {instrs : List RiscInstr} (hrun : ScopedRun u flags m e a instrs k k') :
    ∃ raised : BitVec 6, k'.host.sse.mxcsr = k.host.sse.mxcsr ||| raised.setWidth 32 := by
  induction hrun with
  | nil k => exact ⟨0#6, by simp⟩
  | @cons instr instrs emitter mode body raised k k₁ k₂ k' k'' hemitter hmode hbody hscope hrest
      ih =>
      obtain ⟨raised', hraised'⟩ := ih
      refine ⟨raised ||| raised', ?_⟩
      rw [hraised', hscope.mxcsr, BitVec.setWidth_or, BitVec.or_assoc]

/-- The relation is about the code that is emitted. -/
theorem ScopedRun.runs {instrs : List RiscInstr} (hrun : ScopedRun u flags m e a instrs k k') :
    FpRuns u (roundedCode flags m instrs) ⟨⟨k.info, e⟩, a⟩ k.host () ⟨⟨k'.info, e⟩, a⟩ k'.host := by
  induction hrun with
  | nil k => exact .ret () _ _
  | cons hemitter hmode hbody hscope hrest ih =>
      refine .bind (a := ()) ?_ ih
      unfold translateRounded
      rw [hemitter]
      dsimp only
      rw [hbody]
      exact hscope.runs

/-- Every sequence of such instructions runs so. -/
theorem scopedRun_exists (flags : Flags) {instrs : List RiscInstr} (hk : k.Ok m)
    (hinstrs : ∀ instr ∈ instrs, (roundedEmitter instr.mnem).isSome = true ∧ Bracketed instr ∧
      instr.regDest < 32 ∧ instr.regSrc1 < 32) :
    ∃ k', ScopedRun u flags m e a instrs k k' ∧ k'.Ok m := by
  induction instrs generalizing k with
  | nil => exact ⟨k, .nil k, hk⟩
  | cons instr instrs ih =>
      obtain ⟨hsome, hbracketed, hrd, hrs1⟩ := hinstrs instr List.mem_cons_self
      obtain ⟨emitter, hemitter⟩ := Option.isSome_iff_exists.1 hsome
      obtain ⟨mode, hmode⟩ := hbracketed.1
      obtain ⟨body, hbody, henclosed⟩ := roundedEmitter_encloses (u := u) (m := m) flags hemitter
        hbracketed hrd hrs1
      obtain ⟨raised, k₁, k₂, k', hscope⟩ :=
        henclosed.inScope flags (e := e) (a := a) hmode hk
      obtain ⟨k'', hrest, hk''⟩ := ih hscope.restored.1 fun instr' hinstr' =>
        hinstrs instr' (List.mem_cons_of_mem instr hinstr')
      exact ⟨k'', .cons hemitter hmode hbody hscope hrest, hk''⟩

end Scopes

/-- Static rounding modes are scoped to their instructions: every instruction of a sequence runs in
its own mode, between helpers that take registers of no value, and nothing but exceptions is left of
it in `MXCSR`, so that the mode of the guest is the same after the sequence. -/
theorem staticRound_scoped (u : FpUnit) (flags : Flags) (m : FpMapping) (e : Bool)
    (a : Option Abort) (instrs : List RiscInstr) (k : Represented)
    (hinstrs : ∀ instr ∈ instrs, (roundedEmitter instr.mnem).isSome = true ∧ Bracketed instr ∧
      instr.regDest < 32 ∧ instr.regSrc1 < 32) (hk : k.Ok m) :
    ∃ k', ScopedRun u flags m e a instrs k k' ∧
      FpRuns u (roundedCode flags m instrs) ⟨⟨k.info, e⟩, a⟩ k.host () ⟨⟨k'.info, e⟩, a⟩ k'.host ∧
      k'.Ok m ∧
      (∃ raised : BitVec 6, k'.host.sse.mxcsr = k.host.sse.mxcsr ||| raised.setWidth 32) ∧
      roundingControl k'.host.sse.mxcsr = roundingControl k.host.sse.mxcsr := by
  obtain ⟨k', hrun, hk'⟩ := scopedRun_exists (u := u) (e := e) (a := a) flags hk hinstrs
  obtain ⟨raised, hraised⟩ := hrun.mxcsr
  refine ⟨k', hrun, hrun.runs, hk', ⟨raised, hraised⟩, ?_⟩
  rw [hraised, roundingControl_raised]

/-- A sum that is rounded up, and a conversion to an integer that is rounded down. -/
def roundedSample : List RiscInstr :=
  [(fpInstr .faddd 0 1 2).setRoundingMode 3#32, (fpInstr .fcvtwd 10 5 0).setRoundingMode 2#32]

/-- The unit that truncates, where a fraction is no integer without an exception. -/
def inexactUnit : FpUnit :=
  { truncatingUnit with
    raises := fun
      | .toInt _ form _, _, x, _ =>
          if (form.format.value (form.get x)).den = 1 then 0#6 else 0x20#6
      | _, _, _, _ => 0#6 }

theorem staticRound_scoped_sample :
    ∃ k', ScopedRun inexactUnit {} .static false none roundedSample
        ⟨valuedGuest 0#64, doubles, FpGenState.start.gen.rInfo, valuedFp 0#64 doubles⟩ k' ∧
      FpRuns inexactUnit (roundedCode {} .static roundedSample) .start (valuedFp 0#64 doubles) ()
        ⟨⟨k'.info, false⟩, none⟩ k'.host ∧
      k'.Ok .static ∧
      (∃ raised : BitVec 6, k'.host.sse.mxcsr = 0x1f80#32 ||| raised.setWidth 32) ∧
      roundingControl k'.host.sse.mxcsr = .nearest :=
  staticRound_scoped inexactUnit {} .static false none roundedSample
    ⟨valuedGuest 0#64, doubles, FpGenState.start.gen.rInfo, valuedFp 0#64 doubles⟩
    (List.forall_mem_cons.2 ⟨⟨rfl, ⟨⟨.up, rfl⟩, fun _ _ _ => by decide⟩, by decide, by decide⟩,
      List.forall_mem_cons.2 ⟨⟨rfl, ⟨⟨.down, rfl⟩, fun _ _ _ => by decide⟩, by decide, by decide⟩,
        List.forall_mem_nil _⟩⟩)
    (valued_agrees 0#64 doubles)

end RiaJit.Translate
