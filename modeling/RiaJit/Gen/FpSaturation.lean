import RiaJit.Gen.FpDependence

/-!
# Saturation of truncating conversions

What a conversion to an integer that truncates gives, against the nearest bound of its type. The
processor has one integer for all numbers that are out of range, the least one: it is the nearest
bound of a signed type for the numbers below, and no code replaces it for those above. The
conversion to 32 bits without a sign is one to 64 bits, of which nothing is clipped or extended.
-/

set_option autoImplicit false

namespace RiaJit

/-- The first integer that the code does not convert as the guest does. -/
def IntType.limit : IntType → ℤ
  | .w | .wu => 2 ^ 31
  | .l => 2 ^ 63
  | .lu => 2 ^ 64

namespace Translate

open EmitLogic ForwardJumps X86 Ieee

/-! ## Integers in registers -/

section Registers

/-- Integers are the same in a register if they are the same modulo its size. -/
theorem ofInt_eq_iff (w : Nat) (a b : ℤ) :
    BitVec.ofInt w a = BitVec.ofInt w b ↔ a % 2 ^ w = b % 2 ^ w := by
  have hpos : (0 : ℤ) < 2 ^ w := pow_pos two_pos w
  have ha := Int.emod_nonneg a hpos.ne'
  have hb := Int.emod_nonneg b hpos.ne'
  constructor
  · intro heq
    have hnat := congrArg BitVec.toNat heq
    rw [BitVec.toNat_ofInt, BitVec.toNat_ofInt] at hnat
    push_cast at hnat
    omega
  · intro heq
    apply BitVec.eq_of_toNat_eq
    rw [BitVec.toNat_ofInt, BitVec.toNat_ofInt]
    push_cast
    rw [heq]

/-- The integer that the processor converts to. -/
def inRangeOr (w : Nat) (z : ℤ) : ℤ :=
  if -2 ^ (w - 1) ≤ z ∧ z < 2 ^ (w - 1) then z else -2 ^ (w - 1)

theorem indefiniteOr_some (w : Nat) (z : ℤ) :
    indefiniteOr w (some z) = BitVec.ofInt w (inRangeOr w z) := by
  unfold indefiniteOr inRangeOr
  dsimp only
  split
  · rfl
  · exact BitVec.intMin_eq_neg_two_pow

/-- An integer of 32 bits, sign extended. -/
theorem sext32_ofInt (z : ℤ) : sext32 (BitVec.ofInt 32 z) = BitVec.ofInt 64 (z.bmod (2 ^ 32)) := by
  unfold sext32 BitVec.signExtend
  rw [BitVec.toInt_ofInt]

/-- Flipping the highest bit adds it, up to the carry. -/
theorem xor_top {n k : Nat} (hn : n < 2 ^ (k + 1)) : n ^^^ 2 ^ k = (n + 2 ^ k) % 2 ^ (k + 1) := by
  have hpos := Nat.two_pow_pos k
  have hdiv : (n ^^^ 2 ^ k) / 2 ^ k = n / 2 ^ k ^^^ 1 := by
    rw [Nat.xor_div_two_pow, Nat.div_self hpos]
  have hmod : (n ^^^ 2 ^ k) % 2 ^ k = n % 2 ^ k := by
    rw [Nat.xor_mod_two_pow, Nat.mod_self, Nat.xor_zero]
  rw [Nat.pow_succ] at hn ⊢
  have hsplit := Nat.div_add_mod (n ^^^ 2 ^ k) (2 ^ k)
  rw [hdiv, hmod] at hsplit
  rcases Nat.lt_or_ge n (2 ^ k) with hlt | hge
  · rw [Nat.div_eq_of_lt hlt, Nat.zero_xor, Nat.mod_eq_of_lt hlt] at hsplit
    rw [Nat.mod_eq_of_lt (by omega)]
    omega
  · have hone : n / 2 ^ k = 1 := Nat.div_eq_of_lt_le (by omega) (by omega)
    have hrest : n % 2 ^ k = n - 2 ^ k := by
      rw [Nat.mod_eq_sub_mod hge, Nat.mod_eq_of_lt (by omega)]
    rw [hone, Nat.xor_self, hrest] at hsplit
    have htop : n + 2 ^ k = n - 2 ^ k + 2 ^ k * 2 := by omega
    rw [htop, Nat.add_mod_right, Nat.mod_eq_of_lt (by omega)]
    omega

/-- The highest bit of a register, flipped. -/
theorem flip_ofInt (z : ℤ) :
    BitVec.ofInt 64 z ^^^ 1#64 <<< 63 = BitVec.ofInt 64 (z + 2 ^ 63) := by
  have hflip : BitVec.ofInt 64 z ^^^ 1#64 <<< 63 =
      BitVec.ofInt 64 z + BitVec.ofInt 64 (2 ^ 63) := by
    apply BitVec.eq_of_toNat_eq
    have hbit : (1#64 <<< 63).toNat = 2 ^ 63 := rfl
    have hbit' : (BitVec.ofInt 64 (2 ^ 63)).toNat = 2 ^ 63 := rfl
    rw [BitVec.toNat_xor, BitVec.toNat_add, hbit, hbit', xor_top (BitVec.isLt _)]
  rw [hflip, BitVec.ofInt_add]

end Registers

/-! ## What is in range -/

section Ranges

variable (form : FpForm) {x : BitVec form.width}

/-- The kinds of patterns. -/
theorem kinds (x : BitVec form.width) :
    (form.format.isNaN x = true ∧ form.format.isFinite x = false) ∨
      (form.format.isNaN x = false ∧ form.format.isInfinite x = true ∧
        form.format.isFinite x = false) ∨
      (form.format.isNaN x = false ∧ form.format.isInfinite x = false ∧
        form.format.isFinite x = true) := by
  unfold FloatFormat.isNaN FloatFormat.isInfinite FloatFormat.isFinite
  simp only [decide_eq_true_eq, decide_eq_false_iff_not]
  omega

/-- The number is neither a NaN nor too large: infinite only below, and otherwise less than the
limit of the type when truncated. -/
def InRange (t : IntType) (x : BitVec form.width) : Prop :=
  form.format.isNaN x = false ∧
    if form.format.isInfinite x then x.msb = true
    else Mode.zero.round (form.format.value x) < t.limit

theorem zeroPattern_value :
    form.format.isFinite (zeroPattern form) = true ∧ form.format.value (zeroPattern form) = 0 := by
  have hmag : magnitude (zeroPattern form) = 0 := by cases form <;> rfl
  have hmsb : (zeroPattern form).msb = false := by cases form <;> rfl
  refine ⟨by cases form <;> decide, ?_⟩
  unfold FloatFormat.value
  rw [hmsb, hmag, absValue_zero]
  rfl

theorem lt_zero_iff (hnumber : form.format.isNaN x = false) :
    form.format.lt x (zeroPattern form) = decide (form.format.value x < 0) := by
  have hzero : form.format.isNaN (zeroPattern form) = false := by cases form <;> rfl
  have hkey := value_lt_iff form.format (x := x) (y := zeroPattern form)
  rw [(zeroPattern_value form).2] at hkey
  unfold FloatFormat.lt
  rw [hnumber, hzero, decide_eq_decide.2 hkey]
  rfl

theorem bias_le_iff (hnumber : form.format.isNaN x = false) :
    form.format.le (biasPattern form) x = decide (2 ^ 63 ≤ form.format.value x) := by
  have hbias : form.format.isNaN (biasPattern form) = false := by cases form <;> rfl
  have hkey := value_le_iff form.format (x := biasPattern form) (y := x)
  rw [(value_biasPattern form).2] at hkey
  unfold FloatFormat.le
  rw [hnumber, hbias, decide_eq_decide.2 hkey]
  rfl

/-- What the code makes of a finite number. -/
def codeInteger (t : IntType) (q : ℚ) : ℤ :=
  match t with
  | .w => (inRangeOr 32 (Mode.zero.round q)).bmod (2 ^ 32)
  | .l => inRangeOr 64 (Mode.zero.round q)
  | .wu => if q < 0 then 0 else inRangeOr 64 (Mode.zero.round q)
  | .lu =>
      if q < 0 then 0
      else if 2 ^ 63 ≤ q then inRangeOr 64 (Mode.zero.round (q - 2 ^ 63)) + 2 ^ 63
      else inRangeOr 64 (Mode.zero.round q)

/-- An integer of the type, as it is in a register. -/
def registerInteger (t : IntType) (z : ℤ) : ℤ :=
  match t with
  | .w | .wu => z.bmod (2 ^ 32)
  | .l | .lu => z

theorem toRegister_eq (t : IntType) (z : ℤ) :
    t.toRegister z = BitVec.ofInt 64 (registerInteger t z) := by
  cases t with
  | w => exact sext32_ofInt z
  | wu => exact sext32_ofInt z
  | l => rfl
  | lu => rfl

/-- Truncation does not take a number to the other side of zero or of the bias, and does not
depend on the bias. -/
theorem truncated (q : ℚ) :
    (q < 0 ∧ Mode.zero.round q ≤ 0) ∨
      (¬ q < 0 ∧ 0 ≤ Mode.zero.round q ∧ (2 ^ 63 ≤ q ↔ 2 ^ 63 ≤ Mode.zero.round q) ∧
        (2 ^ 63 ≤ q → Mode.zero.round (q - 2 ^ 63) = Mode.zero.round q - 2 ^ 63)) := by
  rcases lt_or_ge q 0 with hneg | hnonneg
  · refine .inl ⟨hneg, round_le .zero ?_⟩
    rw [Int.cast_zero]
    exact hneg.le
  · have hround : Mode.zero.round q = ⌊q⌋ := if_pos hnonneg
    have hlarge : (2 : ℚ) ^ 63 ≤ q ↔ (2 : ℤ) ^ 63 ≤ ⌊q⌋ := by
      rw [Int.le_floor]
      push_cast
      rfl
    rw [hround]
    refine .inr ⟨hnonneg.not_gt, Int.floor_nonneg.2 hnonneg, hlarge, fun hge => ?_⟩
    have hdifference : Mode.zero.round (q - 2 ^ 63) = ⌊q - 2 ^ 63⌋ := if_pos (sub_nonneg.2 hge)
    have hinteger : q - 2 ^ 63 = q - ((2 ^ 63 : ℤ) : ℚ) := by
      push_cast
      rfl
    rw [hdifference, hinteger, Int.floor_sub_intCast]

/-- The numbers that the code clips to the type. -/
theorem codeInteger_iff (t : IntType) (q : ℚ) :
    BitVec.ofInt 64 (codeInteger t q) = BitVec.ofInt 64
        (registerInteger t (max t.least (min (t.bound - 1) (Mode.zero.round q)))) ↔
      Mode.zero.round q < t.limit := by
  -- the register holds an integer modulo `2 ^ 64`, so the two agree up to that
  rw [ofInt_eq_iff]
  have htruncated := truncated q
  cases t with
  | w =>
      simp only [codeInteger, registerInteger, inRangeOr, IntType.least, IntType.bound,
        IntType.limit, Int.bmod_def, Nat.reduceSub]
      generalize Mode.zero.round q = z at htruncated ⊢
      omega
  | wu =>
      simp only [codeInteger, registerInteger, inRangeOr, IntType.least, IntType.bound,
        IntType.limit, Int.bmod_def, Nat.reduceSub]
      generalize Mode.zero.round q = z at htruncated ⊢
      rcases htruncated with ⟨hneg, hround⟩ | ⟨hnonneg, hround, -, -⟩
      · rw [if_pos hneg]
        omega
      · rw [if_neg hnonneg]
        omega
  | l =>
      simp only [codeInteger, registerInteger, inRangeOr, IntType.least, IntType.bound,
        IntType.limit, Nat.reduceSub]
      generalize Mode.zero.round q = z at htruncated ⊢
      omega
  | lu =>
      simp only [codeInteger, registerInteger, inRangeOr, IntType.least, IntType.bound,
        IntType.limit, Nat.reduceSub]
      generalize Mode.zero.round q = z at htruncated ⊢
      rcases htruncated with ⟨hneg, hround⟩ | ⟨hnonneg, hround, hlarge, hbiased⟩
      · rw [if_pos hneg]
        omega
      · rw [if_neg hnonneg]
        by_cases hge : 2 ^ 63 ≤ q
        · have hle := hlarge.1 hge
          rw [if_pos hge, hbiased hge]
          omega
        · have hlt : ¬ 2 ^ 63 ≤ z := fun hle => hge (hlarge.2 hle)
          rw [if_neg hge]
          omega

/-- What a finite number is converted to. -/
theorem toIntValue_finite (t : IntType) (hnumber : form.format.isNaN x = false)
    (hfinite : form.format.isFinite x = true) :
    toIntValue form .zero x x t = BitVec.ofInt 64 (codeInteger t (form.format.value x)) := by
  have hvalue : roundedValue form .zero x = some (Mode.zero.round (form.format.value x)) :=
    if_pos hfinite
  have hbiased : biasedValue form .zero x =
      some (Mode.zero.round (form.format.value x - 2 ^ 63)) := if_pos hfinite
  have hlong : signedValue form .zero x .s64 =
      BitVec.ofInt 64 (inRangeOr 64 (Mode.zero.round (form.format.value x))) := by
    show indefiniteOr 64 (roundedValue form .zero x) = _
    rw [hvalue, indefiniteOr_some]
  cases t with
  | w =>
      show sext32 (indefiniteOr 32 (roundedValue form .zero x)) = _
      rw [hvalue, indefiniteOr_some, sext32_ofInt]
      rfl
  | l => exact hlong
  | wu =>
      simp only [toIntValue, unsignedWordValue, codeInteger, lt_zero_iff form hnumber,
        decide_eq_true_eq, hlong]
      split
      · rfl
      · rfl
  | lu =>
      simp only [toIntValue, unsignedLongValue, codeInteger, lt_zero_iff form hnumber,
        bias_le_iff form hnumber, decide_eq_true_eq, hlong, hbiased, indefiniteOr_some, flip_ofInt]
      split
      · rfl
      · split
        · rfl
        · rfl

/-- An infinity is on one side of all numbers. -/
theorem infinite_sides (hnumber : form.format.isNaN x = false)
    (hinfinite : form.format.isInfinite x = true) :
    form.format.lt x (zeroPattern form) = x.msb ∧
      (x.msb = false → form.format.le (biasPattern form) x = true) := by
  have hmag : magnitude x = form.format.infinity := of_decide_eq_true hinfinite
  have hkey : key x = if x.msb then -(form.format.infinity : ℤ) else form.format.infinity := by
    unfold key
    rw [hmag]
  unfold FloatFormat.lt FloatFormat.le
  rw [hnumber, hkey]
  cases hsign : x.msb with
  | true => cases form <;> exact ⟨by decide, nofun⟩
  | false => cases form <;> exact ⟨by decide, fun _ => by decide⟩

/-- What anything else is converted to. -/
theorem toIntValue_other (t : IntType) (hfinite : form.format.isFinite x = false) :
    toIntValue form .zero x x t =
      match t with
      | .w => sext32 (BitVec.intMin 32)
      | .l => BitVec.intMin 64
      | .wu => if form.format.lt x (zeroPattern form) then 0#64 else BitVec.intMin 64
      | .lu =>
          if form.format.lt x (zeroPattern form) then 0#64
          else if form.format.le (biasPattern form) x then BitVec.intMin 64 ^^^ 1#64 <<< 63
          else BitVec.intMin 64 := by
  have hvalue : roundedValue form .zero x = none := if_neg (by rw [hfinite]; decide)
  have hbiased : biasedValue form .zero x = none := if_neg (by rw [hfinite]; decide)
  cases t <;> simp only [toIntValue, unsignedWordValue, unsignedLongValue, signedValue, hvalue,
    hbiased, indefiniteOr]

/-- Truncation gives the nearest bound, or the number itself, exactly in range. -/
theorem toIntValue_iff (t : IntType) (x : BitVec form.width) :
    toIntValue form .zero x x t = t.toRegister (t.convert form.format .zero x) ↔
      InRange form t x := by
  unfold InRange
  rcases kinds form x with ⟨hnan, hfinite⟩ | ⟨hnumber, hinfinite, hfinite⟩ |
    ⟨hnumber, hinfinite, hfinite⟩
  · -- no number: the architecture asks for the greatest integer
    have hconvert : t.convert form.format .zero x = t.bound - 1 := if_pos hnan
    have hlt : form.format.lt x (zeroPattern form) = false := by
      unfold FloatFormat.lt
      rw [hnan]
      rfl
    have hle : form.format.le (biasPattern form) x = false := by
      unfold FloatFormat.le
      rw [hnan, Bool.not_true, Bool.and_false]
      rfl
    rw [toIntValue_other form t hfinite, hconvert, hnan, hlt, hle]
    refine iff_of_false ?_ fun hrange => absurd hrange.1 (by decide)
    cases t <;> decide
  · -- an infinity: only the one below zero is converted to the bound it is nearest to
    obtain ⟨hlt, hle⟩ := infinite_sides form hnumber hinfinite
    have hconvert : t.convert form.format .zero x = if x.msb then t.least else t.bound - 1 := by
      unfold IntType.convert
      rw [hnumber, hinfinite]
      rfl
    rw [toIntValue_other form t hfinite, hconvert, hnumber, hinfinite, hlt]
    cases hsign : x.msb with
    | true =>
        refine iff_of_true ?_ ⟨rfl, rfl⟩
        cases t <;> rfl
    | false =>
        rw [hle hsign]
        refine iff_of_false ?_ fun hrange => Bool.false_ne_true hrange.2
        cases t <;> decide
  · rw [toIntValue_finite form t hnumber hfinite, hinfinite]
    have hconvert : t.convert form.format .zero x =
        max t.least (min (t.bound - 1) (Mode.zero.round (form.format.value x))) := by
      unfold IntType.convert
      rw [hnumber, hinfinite]
      rfl
    rw [hconvert, toRegister_eq, codeInteger_iff, hnumber]
    simp

end Ranges

/-! ## The instructions -/

section Instructions

variable {u : FpUnit} {m : FpMapping} {instr : RiscInstr} {g : GuestState}
  {f : Nat → BitVec 64} {r : RegisterInfo} {h : FpState} {e : Bool} {a : Option Abort}

/-- The code leaves the integer of the guest in `rd` and changes no other register. -/
def GivesInteger (u : FpUnit) (m : FpMapping) (instr : RiscInstr) (g : GuestState)
    (f : Nat → BitVec 64) (r : RegisterInfo) (h : FpState) (e : Bool) (a : Option Abort)
    (emitter : FpCode Unit) (t : IntType) (form : FpForm) : Prop :=
  ∃ r' h' a', FpRuns u emitter ⟨⟨r, e⟩, a⟩ h () ⟨⟨r', e⟩, a'⟩ h' ∧
    Agrees m x0 (g.write instr.regDest
      (t.toRegister (t.convert form.format .zero (form.get (f instr.regSrc1))))) f r' h'

theorem givesInteger_iff (form : FpForm) (flags : Flags) (t : IntType) (hsub : u.ops.Subtracts)
    (hrtz : instr.roundingMode = rtz) (hunmapped : m.fpMap instr.regSrc1 = none)
    (hrd : instr.regDest < 32) (ha : Agrees m x0 g f r h) :
    GivesInteger u m instr g f r h e a (translateToInt t form flags m instr) t form ↔
      instr.regDest = x0 ∨ InRange form t (form.get (f instr.regSrc1)) := by
  obtain ⟨f', r', h', a', hrun, hagrees, hkeeps⟩ :=
    translateToInt_delivers (u := u) (e := e) (a := a) form flags hsub ha hrd t
  obtain rfl : f' = f := hkeeps.kept (.inr (.inl hunmapped))
  have hmode : toIntMode flags instr h.sse.mxcsr = .zero := if_pos hrtz
  have hseen : firstSeen m f' instr.regSrc1 h = f' instr.regSrc1 := if_pos hunmapped
  rw [hmode, hseen] at hagrees
  rw [← toIntValue_iff]
  constructor
  · rintro ⟨r'', h'', a'', hrun', hagrees'⟩
    obtain ⟨-, hs, rfl⟩ := hrun.unique hrun'
    obtain rfl : r' = r'' := congrArg (fun s => s.gen.rInfo) hs
    refine or_iff_not_imp_left.2 fun hx0 => ?_
    -- both values are the one of `rd` in the last state
    have hvalue := hagrees.rep.regs _ hx0 hx0 hrd
    rw [hagrees'.rep.regs _ hx0 hx0 hrd, GuestState.write_reg_self g hx0,
      GuestState.write_reg_self g hx0] at hvalue
    exact hvalue.symm
  · intro hor
    refine ⟨r', h', a', hrun, ?_⟩
    rcases hor with hx0 | hvalue
    · have hdropped : ∀ v, g.write instr.regDest v = g := fun v => if_pos hx0
      rw [hdropped] at hagrees ⊢
      exact hagrees
    · rw [← hvalue]
      exact hagrees

end Instructions

/-- A truncating conversion of a number whose register is not mapped gives the integer of the guest
exactly if the number is no NaN and below the limit of its type, or the result is dropped. -/
theorem toInt_saturates_iff (u : FpUnit) (flags : Flags) (m : FpMapping) (instr : RiscInstr)
    (t : IntType) (form : FpForm) (g : GuestState) (f : Nat → BitVec 64) (r : RegisterInfo)
    (h : FpState) (e : Bool) (a : Option Abort)
    (hinstr : fpConversion instr.mnem = some (.toInt t form)) (hrtz : instr.roundingMode = rtz)
    (hunmapped : m.fpMap instr.regSrc1 = none) (hrd : instr.regDest < 32)
    (hsub : u.ops.Subtracts) (hagrees : Agrees m x0 g f r h) :
    ∃ emitter, fpConvertEmitter instr.mnem = some emitter ∧
      (GivesInteger u m instr g f r h e a (emitter flags m instr) t form ↔
        instr.regDest = x0 ∨ InRange form t (form.get (f instr.regSrc1))) :=
  ⟨translateToInt t form, by rw [fpConvertEmitter_eq, hinstr]; rfl,
    givesInteger_iff form flags t hsub hrtz hunmapped hrd hagrees⟩

theorem toInt_saturates_iff_fcvtlus :
    ∃ emitter, fpConvertEmitter .fcvtlus = some emitter ∧
      (GivesInteger truncatingUnit .static ((fpInstr .fcvtlus 10 5 0).setRoundingMode rtz)
          (filledGuest 0x3f800000#64) (fun _ => 0x3f800000#64) FpGenState.start.gen.rInfo
          (filledFp 0x3f800000#64) false none
          (emitter {} .static ((fpInstr .fcvtlus 10 5 0).setRoundingMode rtz)) .lu .s ↔
        (10 = x0 ∨ InRange .s .lu (FpForm.s.get 0x3f800000#64))) :=
  toInt_saturates_iff truncatingUnit {} .static ((fpInstr .fcvtlus 10 5 0).setRoundingMode rtz)
    .lu .s (filledGuest 0x3f800000#64) (fun _ => 0x3f800000#64) FpGenState.start.gen.rInfo
    (filledFp 0x3f800000#64) false none rfl (by decide) (by decide) (by decide)
    truncatingArithmetic_subtracts (filled_agrees .static 0x3f800000#64)

/-- `FCVT.W.D` of a NaN gives the least integer, not the greatest one. -/
theorem toInt_does_not_saturate :
    ¬ ∀ (u : FpUnit) (flags : Flags) (m : FpMapping) (instr : RiscInstr) (t : IntType)
      (form : FpForm) (g : GuestState) (f : Nat → BitVec 64) (r : RegisterInfo) (h : FpState)
      (e : Bool) (a : Option Abort), fpConversion instr.mnem = some (.toInt t form) →
      instr.roundingMode = rtz → m.fpMap instr.regSrc1 = none → instr.regDest < 32 →
      u.ops.Subtracts → Agrees m x0 g f r h →
      ∃ emitter, fpConvertEmitter instr.mnem = some emitter ∧
        GivesInteger u m instr g f r h e a (emitter flags m instr) t form := by
  intro hall
  obtain ⟨emitter, hemitter, hgives⟩ := hall truncatingUnit {} .static
    ((fpInstr .fcvtwd 10 5 0).setRoundingMode rtz) .w .d (filledGuest 0x7ff8000000000000#64)
    (fun _ => 0x7ff8000000000000#64) FpGenState.start.gen.rInfo (filledFp 0x7ff8000000000000#64)
    false none rfl (by decide) (by decide) (by decide) truncatingArithmetic_subtracts
    (filled_agrees .static 0x7ff8000000000000#64)
  obtain rfl := Option.some.inj hemitter
  have hrange := (givesInteger_iff .d {} .w truncatingArithmetic_subtracts (by decide) (by decide)
    (by decide) (filled_agrees .static 0x7ff8000000000000#64)).1 hgives
  rcases hrange with hx0 | ⟨hnumber, -⟩
  · exact absurd hx0 (by decide)
  · exact absurd hnumber (by decide)

end Translate

end RiaJit
