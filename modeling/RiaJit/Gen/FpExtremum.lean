import RiaJit.Gen.FpInject

/-!
# Minimum and maximum

The emitters of `translate_f_ext.c` and `translate_d_ext.c` for `FMIN` and `FMAX`. The
instructions of the processor are not symmetric: they return their second operand where the
operands are not ordered, and where both are zeros. The code tests one operand for a NaN, and
which one is the first depends on where the operands and the destination lie.
-/

set_option autoImplicit false

namespace RiaJit.Translate

open EmitLogic ForwardJumps X86 Ieee

/-! ## Emitters -/

/-- `FE_SSE_MINSSrr`, `FE_SSE_MAXSSrr`, and those for doubles. -/
def extremumInstr : Extremum → FpForm → XmmReg → XmmReg → FpInstr
  | .min => .minrr
  | .max => .maxrr

section Emitters

open Patched

variable (ext : Extremum) (form : FpForm)

/-- The code for operands in different registers. -/
def extremumPiece (regSrc1 regSrc2 regDest : XmmReg) : Patched FpInstr Unit :=
  if regSrc2 = regDest then do
    -- `rs2` has to be the first operand, thus `rs1` is checked
    put (.comisrr true form regSrc1 regSrc1)
    let jmpBufNaN ← here
    put (.jump (some .p) none)
    put (extremumInstr ext form regDest regSrc1)
    patch jmpBufNaN fun n => .jump (some .p) (some n)
  else do
    put (.comisrr true form regSrc2 regSrc2)
    let jmpBufNaN ← here
    put (.jump (some .p) none)
    (if regSrc1 ≠ regDest then put (.sse (.movrr form regDest regSrc1)) else pure ())
    put (extremumInstr ext form regDest regSrc2)
    (if regSrc1 = regDest then patch jmpBufNaN fun n => .jump (some .p) (some n)
    else do
      let jmpBufEnd ← here
      put (.jump none none)
      patch jmpBufNaN fun n => .jump (some .p) (some n)
      put (.sse (.movrr form regDest regSrc1))
      patch jmpBufEnd fun n => .jump none (some n))

/-- What `FMIN` and `FMAX` emit for either width. -/
def translateExtremum (flags : Flags) (m : FpMapping) (instr : RiscInstr) : FpCode Unit := do
  let regSrc1 ← getFpReg flags m instr.regSrc1 firstFpReg
  let regSrc2 ← getFpReg flags m instr.regSrc2 secondFpReg
  let regDest ← getFpRegNoLoad flags m instr.regDest firstFpReg
  (if regSrc1 = regSrc2 then
    codeIf (regDest ≠ regSrc1) (Gen.emit (.sse (.movrr form regDest regSrc1)))
  else emitPatched (extremumPiece ext form regSrc1 regSrc2 regDest))
  setFpReg flags m instr.regDest regDest

end Emitters

/-- `translate_FMINS`: the lesser of two singles. -/
def translateFMINS := translateExtremum .min .s

/-- `translate_FMAXS`: the greater of two singles. -/
def translateFMAXS := translateExtremum .max .s

/-- `translate_FMIND`: the lesser of two doubles. -/
def translateFMIND := translateExtremum .min .d

/-- `translate_FMAXD`: the greater of two doubles. -/
def translateFMAXD := translateExtremum .max .d

/-! ## The processor's extrema -/

end RiaJit.Translate

namespace RiaJit

open Ieee

section Extrema

variable {w : Nat} (f : FloatFormat w) (ext : Extremum) (x y : BitVec w)

/-- What the extremum of two operands is on a processor that returns the second one where they
are not ordered, and where both are zeros. -/
def Extremum.second : BitVec w :=
  match ext with
  | .min => if f.lt x y then x else y
  | .max => if f.lt y x then x else y

/-- The first operand where the second one is a NaN, otherwise what the processor gives. -/
def Extremum.guarded : BitVec w := if f.isNaN y then x else ext.second f x y

theorem Extremum.guarded_self : ext.guarded f x x = x := by
  unfold Extremum.guarded Extremum.second
  cases ext with
  | min => simp
  | max => simp

/-- Two NaNs are given as the canonical one, and zeros in the right order. -/
def Extremum.Settled : Prop :=
  (f.isNaN x = true ∧ f.isNaN y = true → x = f.canonicalNaN) ∧
    (magnitude x = 0 ∧ magnitude y = 0 ∧ x.msb ≠ y.msb → (y.msb = true ↔ ext = .min))

/-- The extremum of two numbers. -/
theorem Extremum.of_numbers (hx : f.isNaN x = false) (hy : f.isNaN y = false) :
    ext.of f x y =
      if (key x < key y ∨ key x = key y ∧ x.msb = true) ↔ ext = .min then x else y := by
  unfold Extremum.of
  simp only [hx, hy, Bool.false_eq_true, if_false]
  cases ext with
  | min => simp
  | max =>
    by_cases h : (key x < key y ∨ key x = key y ∧ x.msb = true) <;> simp [h]

theorem Extremum.second_numbers (hx : f.isNaN x = false) (hy : f.isNaN y = false) :
    ext.second f x y = if key x ≠ key y ∧ (key x < key y ↔ ext = .min) then x else y := by
  have hxy : f.unordered x y = false := by simp [FloatFormat.unordered, hx, hy]
  have hyx : f.unordered y x = false := by simp [FloatFormat.unordered, hx, hy]
  unfold Extremum.second
  rw [lt_of_ordered f hxy, lt_of_ordered f hyx]
  cases ext with
  | min =>
      by_cases hlt : key x < key y
      · simp [hlt, Int.ne_of_lt hlt]
      · simp [hlt]
  | max =>
      by_cases hlt : key y < key x
      · simp [hlt, Int.ne_of_gt hlt, Int.le_of_lt hlt]
      · by_cases heq : key x = key y
        · simp [heq]
        · have hgt : key x < key y := by omega
          simp [hlt, hgt]

theorem Extremum.of_comm : ext.of f x y = ext.of f y x := by
  cases hx : f.isNaN x with
  | true =>
      cases hy : f.isNaN y with
      | true => simp [Extremum.of, hx, hy]
      | false => simp [Extremum.of, hx, hy]
  | false =>
      cases hy : f.isNaN y with
      | true => simp [Extremum.of, hx, hy]
      | false =>
          rw [Extremum.of_numbers f ext x y hx hy, Extremum.of_numbers f ext y x hy hx]
          by_cases hkey : key x = key y
          · by_cases hsign : x.msb = y.msb
            · rw [eq_of_key hkey hsign]
            · -- zeros, of which one is negative
              have hsign' : y.msb = !x.msb := Bool.eq_not_iff.2 (Ne.symm hsign)
              cases ext <;> cases hx' : x.msb <;> simp [hkey, hsign', hx']
          · rcases Int.lt_or_gt_of_ne hkey with hlt | hgt
            · cases ext <;> simp [hlt, Int.not_lt.2 (Int.le_of_lt hlt), Ne.symm hkey]
            · cases ext <;> simp [hgt, Int.not_lt.2 (Int.le_of_lt hgt), hkey]

theorem Extremum.guarded_eq_iff : ext.guarded f x y = ext.of f x y ↔ ext.Settled f x y := by
  have hzero : ∀ z : BitVec w, f.isNaN z = true → magnitude z ≠ 0 := by
    intro z hz hzero
    simp [FloatFormat.isNaN, hzero] at hz
  unfold Extremum.guarded Extremum.Settled
  cases hx : f.isNaN x with
  | true =>
      cases hy : f.isNaN y with
      | true => simp [Extremum.of, hx, hy, hzero x hx]
      | false =>
          cases ext <;> simp [Extremum.of, Extremum.second, FloatFormat.lt, hx, hy, hzero x hx]
  | false =>
      cases hy : f.isNaN y with
      | true => simp [Extremum.of, hx, hy, hzero y hy]
      | false =>
          rw [if_neg Bool.false_ne_true, Extremum.second_numbers f ext x y hx hy,
            Extremum.of_numbers f ext x y hx hy]
          by_cases hkey : key x = key y
          · by_cases hsign : x.msb = y.msb
            · rw [eq_of_key hkey hsign]
              simp
            · have hne : x ≠ y := fun heq => hsign (by rw [heq])
              have hsign' : y.msb = !x.msb := Bool.eq_not_iff.2 (Ne.symm hsign)
              obtain ⟨hx₀, hy₀⟩ := zeros_of_key hkey hsign
              cases ext <;> cases hx' : x.msb <;>
                simp [hkey, hsign', hx', hx₀, hy₀, hne.symm]
          · have hnot : ¬ (magnitude x = 0 ∧ magnitude y = 0 ∧ x.msb ≠ y.msb) := fun h =>
              hkey ((key_of_zero h.1).trans (key_of_zero h.2.1).symm)
            simp [hkey, hnot]

end Extrema

end RiaJit

namespace RiaJit.Translate

open EmitLogic ForwardJumps X86 Ieee

/-! ## What the code computes -/

section Code

variable {u : FpUnit} {h : FpState} {p q d : XmmReg} (ext : Extremum) (form : FpForm)

/-- The code for the second operand in the destination, for the first one there, and for
neither. -/
theorem extremumPiece_second (hqd : q = d) :
    (extremumPiece ext form p q d).code =
      [.comisrr true form p p] ++ .jump (some .p) (some 1) :: [extremumInstr ext form d p] := by
  unfold extremumPiece
  rw [if_pos hqd]
  rfl

theorem extremumPiece_first (hqd : q ≠ d) (hpd : p = d) :
    (extremumPiece ext form p q d).code =
      [.comisrr true form q q] ++ .jump (some .p) (some 1) :: [extremumInstr ext form d q] := by
  unfold extremumPiece
  simp only [if_neg hqd, if_pos hpd, if_neg (not_not_intro hpd)]
  rfl

theorem extremumPiece_neither (hqd : q ≠ d) (hpd : p ≠ d) :
    (extremumPiece ext form p q d).code =
      [.comisrr true form q q] ++ .jump (some .p) (some 3) ::
        ([.sse (.movrr form d p), extremumInstr ext form d q] ++
          .jump none (some 1) :: [.sse (.movrr form d p)]) := by
  unfold extremumPiece
  simp only [if_neg hqd, if_neg hpd, if_pos hpd]
  rfl

theorem comis_self_runs (r : XmmReg) :
    ∃ h', runFrom (FpInstr.step u) 0 [.comisrr true form r r] h = some h' ∧
      h'.flags.pf = some (form.format.isNaN (h.scalar form r)) ∧ ∀ x, h'.xmm x = h.xmm x := by
  refine ⟨_, rfl, ?_, fun x => rfl⟩
  simp [FloatFormat.unordered]

theorem extremumInstr_runs (dst src : XmmReg) :
    ∃ h', runFrom (FpInstr.step u) 0 [extremumInstr ext form dst src] h = some h' ∧
      form.get (h'.xmm dst) =
        ext.second form.format (h.scalar form dst) (h.scalar form src) := by
  cases ext with
  | min =>
      by_cases hlt : form.format.lt (h.scalar form dst) (h.scalar form src) = true
      · exact ⟨_, runFrom_single (congrArg (fun k => some (k, 0)) (if_pos hlt)),
          (if_pos hlt).symm⟩
      · refine ⟨_, runFrom_single (congrArg (fun k => some (k, 0)) (if_neg hlt)),
          Eq.trans ?_ (if_neg hlt).symm⟩
        simp [FpForm.get_put]
  | max =>
      by_cases hlt : form.format.lt (h.scalar form src) (h.scalar form dst) = true
      · exact ⟨_, runFrom_single (congrArg (fun k => some (k, 0)) (if_pos hlt)),
          (if_pos hlt).symm⟩
      · refine ⟨_, runFrom_single (congrArg (fun k => some (k, 0)) (if_neg hlt)),
          Eq.trans ?_ (if_neg hlt).symm⟩
        simp [FpForm.get_put]

/-- The test for a NaN, and the operation if there is none. -/
theorem guardedCode_runs (d src : XmmReg) :
    ∃ h', runFrom (FpInstr.step u) 0 ([.comisrr true form src src] ++
        .jump (some .p) (some 1) :: [extremumInstr ext form d src]) h = some h' ∧
      form.get (h'.xmm d) = ext.guarded form.format (h.scalar form d) (h.scalar form src) := by
  obtain ⟨h₁, hrun₁, hflag, hxmm⟩ := comis_self_runs (u := u) (h := h) form src
  rw [runFrom_append _ hrun₁]
  unfold Extremum.guarded
  cases hnan : form.format.isNaN (h.scalar form src) with
  | true =>
      have htaken : FpCond.p.holds h₁.flags = some true := hflag.trans (congrArg some hnan)
      rw [runFrom_taken htaken]
      refine ⟨h₁, rfl, ?_⟩
      rw [hxmm]
      rfl
  | false =>
      have huntaken : FpCond.p.holds h₁.flags = some false := hflag.trans (congrArg some hnan)
      rw [runFrom_untaken huntaken]
      obtain ⟨h₂, hrun₂, hvalue⟩ := extremumInstr_runs (u := u) (h := h₁) ext form d src
      refine ⟨h₂, hrun₂, ?_⟩
      rw [hvalue]
      unfold FpState.scalar
      rw [hxmm, hxmm]
      rfl

/-- The first operand is moved into the destination on both ways. -/
theorem movedCode_runs (hqd : q ≠ d) :
    ∃ h', runFrom (FpInstr.step u) 0 ([.comisrr true form q q] ++ .jump (some .p) (some 3) ::
        ([.sse (.movrr form d p), extremumInstr ext form d q] ++
          .jump none (some 1) :: [.sse (.movrr form d p)])) h = some h' ∧
      form.get (h'.xmm d) = ext.guarded form.format (h.scalar form p) (h.scalar form q) := by
  obtain ⟨h₁, hrun₁, hflag, hxmm⟩ := comis_self_runs (u := u) (h := h) form q
  rw [runFrom_append _ hrun₁]
  have hmove : ∃ h₂, runFrom (FpInstr.step u) 0 [.sse (.movrr form d p)] h₁ = some h₂ ∧
      form.get (h₂.xmm d) = h.scalar form p ∧ h₂.xmm q = h.xmm q := by
    refine ⟨_, rfl, ?_, ?_⟩
    · have hp := hxmm p
      simp only [FpState.xmm] at hp
      simp [FpForm.get_put, hp]
    · have hq := hxmm q
      simp only [FpState.xmm] at hq
      simp [hqd, hq]
  obtain ⟨h₂, hrun₂, hd₂, hq₂⟩ := hmove
  unfold Extremum.guarded
  -- if the second operand is a NaN, the jump leads to the last move, which gives the first
  cases hnan : form.format.isNaN (h.scalar form q) with
  | true =>
      have htaken : FpCond.p.holds h₁.flags = some true := hflag.trans (congrArg some hnan)
      rw [runFrom_taken htaken]
      exact ⟨h₂, hrun₂, hd₂⟩
  | false =>
      have huntaken : FpCond.p.holds h₁.flags = some false := hflag.trans (congrArg some hnan)
      rw [runFrom_untaken huntaken]
      obtain ⟨h₃, hrun₃, hvalue⟩ := extremumInstr_runs (u := u) (h := h₂) ext form d q
      have hboth : runFrom (FpInstr.step u) 0
          [.sse (.movrr form d p), extremumInstr ext form d q] h₁ = some h₃ :=
        (runFrom_append _ hrun₂).trans hrun₃
      refine ⟨h₃, ?_, ?_⟩
      · rw [runFrom_append _ hboth, runFrom_jump]
        rfl
      · rw [hvalue]
        unfold FpState.scalar at hd₂ ⊢
        rw [hd₂, hq₂]
        rfl

/-- The operand that is the first one for the processor, and the other one. -/
def inOrder {α : Type} (c : Prop) [Decidable c] (x y : α) : α × α := if c then (y, x) else (x, y)

theorem inOrder_self {α : Type} (c : Prop) [Decidable c] (x : α) : inOrder c x x = (x, x) :=
  ite_self _

theorem extremumPiece_runs :
    ∃ h', runFrom (FpInstr.step u) 0 (extremumPiece ext form p q d).code h = some h' ∧
      form.get (h'.xmm d) = ext.guarded form.format
        (inOrder (q = d) (h.scalar form p) (h.scalar form q)).1
        (inOrder (q = d) (h.scalar form p) (h.scalar form q)).2 := by
  unfold inOrder
  by_cases hqd : q = d
  · subst hqd
    rw [extremumPiece_second ext form rfl, if_pos rfl]
    exact guardedCode_runs ext form q p
  · rw [if_neg hqd]
    by_cases hpd : p = d
    · subst hpd
      rw [extremumPiece_first ext form hqd rfl]
      exact guardedCode_runs ext form p q
    · rw [extremumPiece_neither ext form hqd hpd]
      exact movedCode_runs ext form hqd

theorem extremumPiece_confined :
    Confined (fun _ => False) (fun X => X = d) (extremumPiece ext form p q d).code := by
  by_cases hqd : q = d
  · rw [extremumPiece_second ext form hqd]
    cases ext <;>
      simp [extremumInstr, confined_cons, confined_nil, onRegisters, writesReg, writesXmm]
  · by_cases hpd : p = d
    · rw [extremumPiece_first ext form hqd hpd]
      cases ext <;>
        simp [extremumInstr, confined_cons, confined_nil, onRegisters, writesReg, writesXmm]
    · rw [extremumPiece_neither ext form hqd hpd]
      cases ext <;>
        simp [extremumInstr, confined_cons, confined_nil, onRegisters, writesReg, writesXmm]

end Code

/-! ## The emitters -/

section Emitter

variable {u : FpUnit} {m : FpMapping} {instr : RiscInstr} {g : GuestState}
  {f : Nat → BitVec 64} {r : RegisterInfo} {h : FpState} {e : Bool} {a : Option Abort}
  (flags : Flags) (ext : Extremum) (form : FpForm)

/-- A mapped register is where it is mapped. -/
theorem getFpReg_value {x : Nat} {replacement q : XmmReg} {s s' : FpGenState} {h' : FpState}
    (hrun : FpRuns u (liftM (getFpReg flags m x replacement)) s h q s' h') :
    q = (m.fpMap x).getD replacement := by
  obtain ⟨code, hgen, -⟩ := hrun
  have hvalue : (getFpReg flags m x replacement s).1 = q := congrArg Prod.fst hgen
  rw [← hvalue]
  unfold getFpReg
  cases m.fpMap x with
  | none => rfl
  | some mapped => rfl

/-- Whether `rs2` is mapped and is the destination. -/
def SecondInPlace (m : FpMapping) (instr : RiscInstr) : Prop :=
  instr.regDest = instr.regSrc2 ∧ (m.fpMap instr.regSrc2).isSome

instance (m : FpMapping) (instr : RiscInstr) : Decidable (SecondInPlace m instr) :=
  inferInstanceAs (Decidable (_ ∧ _))

theorem secondInPlace_iff : SecondInPlace m instr ↔
    (m.fpMap instr.regSrc2).getD secondFpReg = (m.fpMap instr.regDest).getD firstFpReg := by
  constructor
  · rintro ⟨hsame, hmapped⟩
    obtain ⟨q, hq⟩ := Option.isSome_iff_exists.1 hmapped
    rw [hsame, hq]
    rfl
  · intro heq
    cases hsrc : m.fpMap instr.regSrc2 with
    | none =>
        rw [hsrc] at heq
        cases hdest : m.fpMap instr.regDest with
        | none =>
            rw [hdest] at heq
            exact absurd heq (by decide)
        | some q =>
            rw [hdest] at heq
            obtain rfl : secondFpReg = q := heq
            exact absurd hdest (m.second instr.regDest)
    | some q =>
        rw [hsrc] at heq
        cases hdest : m.fpMap instr.regDest with
        | none =>
            rw [hdest] at heq
            obtain rfl : q = firstFpReg := heq
            exact absurd hsrc (m.first instr.regSrc2)
        | some q' =>
            rw [hdest] at heq
            obtain rfl : q = q' := heq
            exact ⟨m.injective _ _ q hdest hsrc, by rw [hsrc]; rfl⟩

/-- The code leaves the guarded extremum in `rd` and changes no other register. -/
theorem extremum_delivers (instr : RiscInstr) (ha : Agrees m x0 g f r h) :
    ∃ v r' h', FpRuns u (translateExtremum ext form flags m instr) ⟨⟨r, e⟩, a⟩ h ()
        ⟨⟨r', e⟩, a⟩ h' ∧ Elsewhere h h' ∧
      Agrees m x0 g (Function.update f instr.regDest v) r' h' ∧
      form.get v = ext.guarded form.format
        (inOrder (SecondInPlace m instr) (form.get (f instr.regSrc1))
          (form.get (f instr.regSrc2))).1
        (inOrder (SecondInPlace m instr) (form.get (f instr.regSrc1))
          (form.get (f instr.regSrc2))).2 := by
  obtain ⟨p, q, h₁, h₂, hrun₁, hrun₂, ha₂, he₂, hp, hq, -, -⟩ :=
    fetchPair_agrees (u := u) flags ha instr.regSrc1 instr.regSrc2 ⟨⟨r, e⟩, a⟩
  have hqv := getFpReg_value flags hrun₂
  obtain ⟨h₃, hrun₃, ha₃, he₃, hxmm₃, -⟩ :=
    getFpRegNoLoad_agrees (u := u) flags ha₂ instr.regDest firstFpReg ⟨⟨r, e⟩, a⟩
  have ht := target_getD m instr.regDest firstFpReg
  have hplace : SecondInPlace m instr ↔ q = (m.fpMap instr.regDest).getD firstFpReg := by
    rw [hqv]
    exact secondInPlace_iff
  generalize (m.fpMap instr.regDest).getD firstFpReg = d at *
  -- the operands compare in the other order if the second one lies in the destination
  obtain ⟨h₄, hrun₄, htouches, hvalue⟩ : ∃ h₄, FpRuns u
      (if p = q then codeIf (d ≠ p) (Gen.emit (.sse (.movrr form d p)))
        else emitPatched (extremumPiece ext form p q d)) ⟨⟨r, e⟩, a⟩ h₃ () ⟨⟨r, e⟩, a⟩ h₄ ∧
      Touches (fun _ => False) (fun X => X = d) h₃ h₄ ∧
      form.get (h₄.xmm d) = ext.guarded form.format
        (inOrder (q = d) (h₃.scalar form p) (h₃.scalar form q)).1
        (inOrder (q = d) (h₃.scalar form p) (h₃.scalar form q)).2 := by
    by_cases hpq : p = q
    · subst hpq
      rw [if_pos rfl, inOrder_self, Extremum.guarded_self]
      exact codeIf_movrr_runs form _ h₃ fun hd => (not_not.1 hd).symm
    · rw [if_neg hpq]
      obtain ⟨h₄, hcode, hvalue⟩ :=
        extremumPiece_runs (u := u) (h := h₃) (p := p) (q := q) (d := d) ext form
      exact ⟨h₄, runs_emitCode _ hcode,
        runFrom_touches (extremumPiece_confined ext form) hcode, hvalue⟩
  obtain ⟨h₅, hset, ha₅, he₅⟩ := ha₃.deliverFp (u := u) flags ht (.inl rfl) htouches
    (fun X hX => .inr (.inr hX)) (fun _ hi => hi.elim) (fun _ _ _ hR => hR) ⟨⟨r, e⟩, a⟩
  refine ⟨_, r, h₅, .bind hrun₁ (.bind hrun₂ (.bind hrun₃ (.bind hrun₄ hset))),
    he₂.trans (he₃.trans ((htouches.elsewhere id).trans he₅)), ha₅, ?_⟩
  rw [hvalue]
  unfold FpState.scalar inOrder
  rw [hxmm₃, hxmm₃, hp, hq]
  simp only [hplace]

end Emitter

/-! ## The instructions -/

/-- The instructions of this part. -/
def fpExtremumInstruction : RiscMnem → Option (Extremum × FpForm)
  | .fmins => some (.min, .s)
  | .fmaxs => some (.max, .s)
  | .fmind => some (.min, .d)
  | .fmaxd => some (.max, .d)
  | _ => none

/-- The cases of `dispatch_instr` for these instructions. -/
def fpExtremumEmitter : RiscMnem → Option (Flags → FpMapping → RiscInstr → FpCode Unit)
  | .fmins => some translateFMINS
  | .fmaxs => some translateFMAXS
  | .fmind => some translateFMIND
  | .fmaxd => some translateFMAXD
  | _ => none

theorem fpExtremumEmitter_eq (mnem : RiscMnem) :
    fpExtremumEmitter mnem =
      (fpExtremumInstruction mnem).map fun p => translateExtremum p.1 p.2 := by
  cases mnem <;> rfl

/-- The code leaves the extremum of the guest in `rd` and changes no other register. -/
def GivesExtremum (u : FpUnit) (m : FpMapping) (instr : RiscInstr) (g : GuestState)
    (f : Nat → BitVec 64) (r : RegisterInfo) (h : FpState) (e : Bool) (a : Option Abort)
    (emitter : FpCode Unit) (ext : Extremum) (form : FpForm) : Prop :=
  ∃ f' r' h', FpRuns u emitter ⟨⟨r, e⟩, a⟩ h () ⟨⟨r', e⟩, a⟩ h' ∧ Elsewhere h h' ∧
    Agrees m x0 g f' r' h' ∧ (∀ x, x ≠ instr.regDest → f' x = f x) ∧
    form.get (f' instr.regDest) =
      ext.of form.format (form.get (f instr.regSrc1)) (form.get (f instr.regSrc2))

/-- The first operand of the processor, and the other one, are such that its answer is the
guest's: of two NaNs the first one is canonical, and of two zeros with different signs the other
one is to be returned. -/
def ExtremumSettled (m : FpMapping) (instr : RiscInstr) (f : Nat → BitVec 64) (ext : Extremum)
    (form : FpForm) : Prop :=
  ext.Settled form.format
    (inOrder (SecondInPlace m instr) (form.get (f instr.regSrc1)) (form.get (f instr.regSrc2))).1
    (inOrder (SecondInPlace m instr) (form.get (f instr.regSrc1)) (form.get (f instr.regSrc2))).2

/-- The code has one result, which is the guest's exactly if it is settled. -/
theorem givesExtremum_iff {u : FpUnit} {m : FpMapping} {instr : RiscInstr} {g : GuestState}
    {f : Nat → BitVec 64} {r : RegisterInfo} {h : FpState} {e : Bool} {a : Option Abort}
    (flags : Flags) (ext : Extremum) (form : FpForm) (hagrees : Agrees m x0 g f r h) :
    GivesExtremum u m instr g f r h e a (translateExtremum ext form flags m instr) ext form ↔
      ExtremumSettled m instr f ext form := by
  obtain ⟨v, r', h', hrun, helse, hagrees', hvalue⟩ :=
    extremum_delivers (u := u) (e := e) (a := a) flags ext form instr hagrees
  have hiff : form.get v =
      ext.of form.format (form.get (f instr.regSrc1)) (form.get (f instr.regSrc2)) ↔
        ExtremumSettled m instr f ext form := by
    -- the extremum does not depend on the order of its operands
    have hsame : ext.of form.format (form.get (f instr.regSrc1)) (form.get (f instr.regSrc2)) =
        ext.of form.format
          (inOrder (SecondInPlace m instr) (form.get (f instr.regSrc1))
            (form.get (f instr.regSrc2))).1
          (inOrder (SecondInPlace m instr) (form.get (f instr.regSrc1))
            (form.get (f instr.regSrc2))).2 := by
      unfold inOrder
      split
      · exact Extremum.of_comm form.format ext _ _
      · rfl
    rw [hsame, hvalue]
    exact Extremum.guarded_eq_iff form.format ext _ _
  constructor
  · rintro ⟨f', r'', h'', hrun'', -, hagrees'', -, hvalue''⟩
    obtain ⟨-, -, rfl⟩ := hrun.unique hrun''
    have hv : f' instr.regDest = v := by
      rw [← hagrees''.fp, hagrees'.fp, Function.update_self]
    rw [hv] at hvalue''
    exact hiff.1 hvalue''
  · intro hsettled
    refine ⟨_, r', h', hrun, helse, hagrees', fun x hx => Function.update_of_ne hx _ _, ?_⟩
    rw [Function.update_self]
    exact hiff.2 hsettled

/-- The instructions give the extremum of the guest exactly where it is settled. -/
theorem fpExtremum_iff (u : FpUnit) (flags : Flags) (m : FpMapping) (instr : RiscInstr)
    (ext : Extremum) (form : FpForm) (g : GuestState) (f : Nat → BitVec 64) (r : RegisterInfo)
    (h : FpState) (e : Bool) (a : Option Abort)
    (hinstr : fpExtremumInstruction instr.mnem = some (ext, form))
    (hagrees : Agrees m x0 g f r h) :
    ∃ emitter, fpExtremumEmitter instr.mnem = some emitter ∧
      (GivesExtremum u m instr g f r h e a (emitter flags m instr) ext form ↔
        ExtremumSettled m instr f ext form) :=
  ⟨translateExtremum ext form, by rw [fpExtremumEmitter_eq, hinstr]; rfl,
    givesExtremum_iff flags ext form hagrees⟩

/-- Of one and minus two the maximum is delivered. -/
theorem fpExtremum_iff_fmaxs :
    ∃ emitter, fpExtremumEmitter .fmaxs = some emitter ∧
      GivesExtremum sampleUnit .static (fpInstr .fmaxs 3 1 2) (valuedGuest 0#64) singles
        FpGenState.start.gen.rInfo (valuedFp 0#64 singles) false none
        (emitter {} .static (fpInstr .fmaxs 3 1 2)) .max .s := by
  obtain ⟨emitter, hemitter, hiff⟩ := fpExtremum_iff sampleUnit {} .static (fpInstr .fmaxs 3 1 2)
    .max .s (valuedGuest 0#64) singles FpGenState.start.gen.rInfo (valuedFp 0#64 singles) false
    none rfl (valued_agrees 0#64 singles)
  -- neither of the two is a NaN or a zero
  exact ⟨emitter, hemitter,
    hiff.2 ⟨fun h => absurd h.1 (by decide), fun h => absurd h.1 (by decide)⟩⟩

/-- Of two NaNs that are not canonical, the first one is returned. -/
theorem fpExtremum_noncanonical :
    ¬ ∀ (u : FpUnit) (flags : Flags) (m : FpMapping) (instr : RiscInstr) (ext : Extremum)
      (form : FpForm) (g : GuestState) (f : Nat → BitVec 64) (r : RegisterInfo) (h : FpState)
      (e : Bool) (a : Option Abort), fpExtremumInstruction instr.mnem = some (ext, form) →
      Agrees m x0 g f r h → ∃ emitter, fpExtremumEmitter instr.mnem = some emitter ∧
        GivesExtremum u m instr g f r h e a (emitter flags m instr) ext form := by
  intro hall
  obtain ⟨emitter, hemitter, hgives⟩ := hall sampleUnit {} .static (fpInstr .fmind 3 1 2) .min .d
    (filledGuest 0x7ff8000000000001#64) (fun _ => 0x7ff8000000000001#64)
    FpGenState.start.gen.rInfo (filledFp 0x7ff8000000000001#64) false none rfl
    (filled_agrees .static 0x7ff8000000000001#64)
  obtain rfl := Option.some.inj hemitter
  have hsettled := (givesExtremum_iff {} .min .d
    (filled_agrees .static 0x7ff8000000000001#64)).1 hgives
  exact absurd (hsettled.1 (by decide)) (by decide)

end RiaJit.Translate
