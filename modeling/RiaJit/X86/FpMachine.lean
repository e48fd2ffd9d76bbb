import RiaJit.Lib.ForwardJumps
import RiaJit.Lib.Ieee
import RiaJit.X86.Sse

/-!
# The machine of floating-point code

The instructions that the translator emits for comparisons, conversions, minima and classes,
beside those of the arithmetic: they set and read flags, among them `PF`, move bits between the
two kinds of registers and jump forward over each other. What they compute on scalars is fixed by
the formats. The exception flags that an instruction raises in `MXCSR` are a parameter; the
exceptions are masked, and denormals are not taken as zeros.
-/

set_option autoImplicit false

namespace RiaJit.X86

open Ieee

/-! ## Formats -/

/-- The format of the scalars. -/
def FpForm.format : (form : FpForm) → FloatFormat form.width
  | .s => ⟨23, by decide⟩
  | .d => ⟨52, by decide⟩

/-- The rounding control of `MXCSR`. -/
def roundingControl (mxcsr : BitVec 32) : Mode :=
  match (mxcsr.extractLsb' 13 2).toNat with
  | 0 => .nearest
  | 1 => .down
  | 2 => .up
  | _ => .zero

/-- A conversion to a signed integer: the rounded value where it is in range, otherwise the
indefinite integer, which is the least one. -/
def indefiniteOr (w : Nat) (q : Option ℤ) : BitVec w :=
  match q with
  | none => BitVec.intMin w
  | some z => if -2 ^ (w - 1) ≤ z ∧ z < 2 ^ (w - 1) then BitVec.ofInt w z else BitVec.intMin w

/-- The value of a finite scalar, rounded. -/
def roundedValue (form : FpForm) (mode : Mode) (x : BitVec form.width) : Option ℤ :=
  if form.format.isFinite x then some (mode.round (form.format.value x)) else none

/-- What `CVTSS2SI` and its variants write; a result of 32 bits is zero extended. -/
def convertToInt (form : FpForm) (size : OpSize) (mode : Mode) (x : BitVec form.width) :
    BitVec 64 :=
  match size with
  | .s64 => indefiniteOr 64 (roundedValue form mode x)
  | .s32 => (indefiniteOr 32 (roundedValue form mode x)).setWidth 64

/-- The signed integer that `CVTSI2SS` and its variants read. -/
def signedSource (size : OpSize) (v : BitVec 64) : ℤ :=
  match size with
  | .s64 => v.toInt
  | .s32 => (v.setWidth 32).toInt

/-- What `CVTSI2SS` and its variants write. -/
def convertFromInt (form : FpForm) (mode : Mode) (z : ℤ) : BitVec form.width :=
  form.format.ofInt (mode.toBits (form.format.fracBits + 1) z)

/-! ## State -/

/-- The flags that floating-point code reads; an undefined one is none. -/
structure FpFlags where
  cf : Option Bool
  zf : Option Bool
  sf : Option Bool
  pf : Option Bool
  deriving DecidableEq, Repr

namespace FpFlags

/-- No flag is known, as behind code that may leave any. -/
def unknown : FpFlags := ⟨none, none, none, none⟩

/-- The flags as an integer instruction leaves them. -/
def ofHost : Option X86Flags → FpFlags
  | none => unknown
  | some flags => ⟨some flags.cf, some flags.zf, some flags.sf, none⟩

/-- The flags of a logical instruction, for its result. -/
def logic {w : Nat} (v : BitVec w) : FpFlags := ⟨some false, some (v == 0#w), some v.msb, none⟩

/-- The flags of a left shift by more than one, for its result. -/
def shift {w : Nat} (v : BitVec w) : FpFlags := ⟨none, some (v == 0#w), some v.msb, none⟩

/-- The flags of `COMISS` and `COMISD`. -/
def compare (form : FpForm) (a b : BitVec form.width) : FpFlags :=
  let unordered := form.format.unordered a b
  ⟨some (unordered || form.format.lt a b), some (unordered || form.format.eq a b), some false,
    some unordered⟩

end FpFlags

/-- The conditions of `FE_JZ`, `FE_JNZ`, `FE_JNC`, `FE_JA`, `FE_JS` and `FE_JP`, and of
`FE_SETS8r`, `FE_SETNS8r`, `FE_SETNP8r`, `FE_SETA8r` and `FE_SETNC8r`. -/
inductive FpCond where
  | z | nz | nc | a | s | ns | p | np
  deriving DecidableEq, Repr

/-- Whether a condition holds, if the flags it reads are defined. -/
def FpCond.holds (cond : FpCond) (flags : FpFlags) : Option Bool :=
  match cond with
  | .z => flags.zf
  | .nz => flags.zf.map (!·)
  | .nc => flags.cf.map (!·)
  | .a => flags.cf.bind fun cf => flags.zf.map fun zf => !cf && !zf
  | .s => flags.sf
  | .ns => flags.sf.map (!·)
  | .p => flags.pf
  | .np => flags.pf.map (!·)

/-- The machine with the flags as far as they are defined. -/
structure FpState where
  sse : SseState
  flags : FpFlags

namespace FpState

/-- The integer register. -/
def reg (h : FpState) (r : FeReg) : BitVec 64 := h.sse.host.reg r

/-- The whole low half of the SSE register. -/
def xmm (h : FpState) (r : XmmReg) : BitVec 64 := h.sse.xmm r

/-- The state with another value in an integer register. -/
def setReg (h : FpState) (r : FeReg) (v : BitVec 64) : FpState :=
  { h with sse := h.sse.setReg r v }

/-- The state with another value in an SSE register. -/
def setXmm (h : FpState) (r : XmmReg) (v : BitVec 64) : FpState :=
  { h with sse := h.sse.setXmm r v }

/-- The state with other flags. -/
def setFlags (h : FpState) (flags : FpFlags) : FpState := ⟨h.sse.clobberFlags, flags⟩

/-- The state with exception flags raised. -/
def raise (h : FpState) (flags : BitVec 6) : FpState :=
  { h with sse := { h.sse with mxcsr := h.sse.mxcsr ||| flags.setWidth 32 } }

end FpState

/-! ## Instructions -/

/-- The operations that may raise exceptions. -/
inductive FpOp where
  | arith (op : SseOp) (form : FpForm)
  | sqrt (form : FpForm)
  | comis (quiet : Bool) (form : FpForm)
  | least (form : FpForm)
  | greatest (form : FpForm)
  | toInt (truncate : Bool) (form : FpForm) (size : OpSize)
  | ofInt (form : FpForm) (size : OpSize)
  | narrow
  deriving DecidableEq, Repr

/-- What of the floating-point unit is left open: the arithmetic, the conversion of a double to
a single, and the exceptions, which depend on the operation, `MXCSR` and the operands. -/
structure FpUnit where
  ops : SseArithmetic
  narrow : BitVec 32 → BitVec 64 → BitVec 32
  raises : FpOp → BitVec 32 → BitVec 64 → BitVec 64 → BitVec 6

/-- The instructions. A jump goes over a number of instructions behind it; a dummy would jump to
itself. Both encodings of a jump have two bytes, since no piece of code is long. -/
inductive FpInstr where
  | sse (i : SseInstr)
  | comisrr (quiet : Bool) (form : FpForm) (a b : XmmReg)
  | minrr (form : FpForm) (dst src : XmmReg)
  | maxrr (form : FpForm) (dst src : XmmReg)
  | cvt2si (truncate : Bool) (form : FpForm) (size : OpSize) (dst : FeReg) (src : XmmReg)
  | cvtsi2 (form : FpForm) (size : OpSize) (dst : XmmReg) (src : FeReg)
  | cvtsd2ssrr (dst src : XmmReg)
  | pxorrr (dst src : XmmReg)
  | movToReg (form : FpForm) (dst : FeReg) (src : XmmReg)
  | movToXmm (form : FpForm) (dst : XmmReg) (src : FeReg)
  | not32r (dst : FeReg)
  | ror64ri (dst : FeReg) (imm : Nat)
  | btr64ri (dst : FeReg) (imm : Nat)
  | btc64ri (dst : FeReg) (imm : Nat)
  | mov32ri (dst : FeReg) (imm : BitVec 32)
  | and32ri (dst : FeReg) (imm : BitVec 32)
  | and64rr (dst src : FeReg)
  | shlri (size : OpSize) (dst : FeReg) (imm : Nat)
  | cmp32ri (a : FeReg) (imm : BitVec 32)
  | dec8r (dst : FeReg)
  | and8ri (dst : FeReg) (imm : BitVec 8)
  | shr8rr (dst src : FeReg)
  | shl8rr (dst src : FeReg)
  | shl16rr (dst src : FeReg)
  | set8r (cond : FpCond) (dst : FeReg)
  | cmovnz64rr (dst src : FeReg)
  | jump (cond : Option FpCond) (skip : Option Nat)

/-- Whether an integer instruction leaves the flags as they are. -/
def FeInstr.keepsFlags : FeInstr → Bool
  | .movrr .. | .mov64ri .. | .lea .. | .not64r .. | .xchg64rr .. | .movsxr64r32 ..
  | .movzxr32r8 .. | .set8r .. | .movsxm .. | .movrm .. | .movmr .. | .mov64rmCell ..
  | .mov32rmCell .. | .mov64mrCell .. | .mov32mrCell .. | .mov64miCell .. | .mov32miCell ..
  | .movsxr64m32Cell .. | .cSep .. | .cmovrr .. | .push .. | .pop .. | .nop => true
  | _ => false

/-- Whether an instruction leaves the flags as they are. -/
def SseInstr.keepsFlags : SseInstr → Bool
  | .gp i => i.keepsFlags
  | .inc64m .. | .and16mi .. | .and16ri .. | .or16ri .. | .or16mr .. => false
  | _ => true

/-- The scalar in an SSE register. -/
def FpState.scalar (h : FpState) (form : FpForm) (r : XmmReg) : BitVec form.width :=
  form.get (h.xmm r)

namespace FpInstr

/-- The count of a shift by `CL`. -/
def shiftCount (h : FpState) (src : FeReg) : Nat := (h.reg src).toNat % 32

/-- The exceptions that an instruction raises. -/
def raised (u : FpUnit) (h : FpState) (i : FpInstr) : BitVec 6 :=
  let raises (op : FpOp) (form : FpForm) (a b : XmmReg) :=
    u.raises op h.sse.mxcsr ((h.scalar form a).setWidth 64) ((h.scalar form b).setWidth 64)
  match i with
  | .sse (.arithrr op form dst src) => raises (.arith op form) form dst src
  | .sse (.sqrtrr form _ src) => raises (.sqrt form) form src src
  | .comisrr quiet form a b => raises (.comis quiet form) form a b
  | .minrr form dst src => raises (.least form) form dst src
  | .maxrr form dst src => raises (.greatest form) form dst src
  | .cvt2si truncate form size _ src => raises (.toInt truncate form size) form src src
  | .cvtsi2 form size _ src => u.raises (.ofInt form size) h.sse.mxcsr (h.reg src) (h.reg src)
  | .cvtsd2ssrr _ src => raises .narrow .d src src
  | _ => 0#6

/-- The state after an instruction, its exceptions apart, and the number of instructions it
jumps over. -/
def exec (u : FpUnit) (i : FpInstr) (h : FpState) : Option (FpState × Nat) :=
  match i with
  | .sse i => (i.exec u.ops h.sse).map fun sse =>
      (⟨sse, if i.keepsFlags then h.flags else FpFlags.ofHost sse.host.flags⟩, 0)
  | .comisrr _ form a b => some (h.setFlags (.compare form (h.scalar form a) (h.scalar form b)), 0)
  -- zeros of both signs and NaNs give the second operand
  | .minrr form dst src => some (if form.format.lt (h.scalar form dst) (h.scalar form src) then h
      else h.setXmm dst (form.put (h.xmm dst) (h.scalar form src)), 0)
  | .maxrr form dst src => some (if form.format.lt (h.scalar form src) (h.scalar form dst) then h
      else h.setXmm dst (form.put (h.xmm dst) (h.scalar form src)), 0)
  | .cvt2si truncate form size dst src =>
      let mode := if truncate then .zero else roundingControl h.sse.mxcsr
      some (h.setReg dst (convertToInt form size mode (h.scalar form src)), 0)
  | .cvtsi2 form size dst src =>
      let x := convertFromInt form (roundingControl h.sse.mxcsr) (signedSource size (h.reg src))
      some (h.setXmm dst (form.put (h.xmm dst) x), 0)
  | .cvtsd2ssrr dst src =>
      some (h.setXmm dst (FpForm.put .s (h.xmm dst) (u.narrow h.sse.mxcsr (h.xmm src))), 0)
  | .pxorrr dst src => some (h.setXmm dst (h.xmm dst ^^^ h.xmm src), 0)
  | .movToReg form dst src => some (h.setReg dst ((h.scalar form src).setWidth 64), 0)
  | .movToXmm form dst src => some (h.setXmm dst ((form.get (h.reg src)).setWidth 64), 0)
  | .not32r dst => some (h.setReg dst ((~~~(h.reg dst).setWidth 32).setWidth 64), 0)
  | .ror64ri dst imm => some ((h.setReg dst ((h.reg dst).rotateRight imm)).setFlags .unknown, 0)
  | .btr64ri dst imm =>
      some ((h.setReg dst (h.reg dst &&& ~~~(1#64 <<< imm))).setFlags .unknown, 0)
  | .btc64ri dst imm => some ((h.setReg dst (h.reg dst ^^^ 1#64 <<< imm)).setFlags .unknown, 0)
  | .mov32ri dst imm => some (h.setReg dst (imm.setWidth 64), 0)
  | .and32ri dst imm =>
      let v := (h.reg dst).setWidth 32 &&& imm
      some ((h.setReg dst (v.setWidth 64)).setFlags (.logic v), 0)
  | .and64rr dst src =>
      let v := h.reg dst &&& h.reg src
      some ((h.setReg dst v).setFlags (.logic v), 0)
  | .shlri .s32 dst imm =>
      let v := (h.reg dst).setWidth 32 <<< imm
      some ((h.setReg dst (v.setWidth 64)).setFlags (.shift v), 0)
  | .shlri .s64 dst imm =>
      let v := h.reg dst <<< imm
      some ((h.setReg dst v).setFlags (.shift v), 0)
  | .cmp32ri a imm =>
      some (h.setFlags (.ofHost (some (cmpFlags ((h.reg a).setWidth 32) imm))), 0)
  | .dec8r dst =>
      some ((h.setReg dst (low 8 (h.reg dst) ((h.reg dst).setWidth 8 - 1#8))).setFlags .unknown, 0)
  | .and8ri dst imm =>
      some
        ((h.setReg dst (low 8 (h.reg dst) ((h.reg dst).setWidth 8 &&& imm))).setFlags .unknown, 0)
  | .shr8rr dst src =>
      let v := (h.reg dst).setWidth 8 >>> shiftCount h src
      some ((h.setReg dst (low 8 (h.reg dst) v)).setFlags .unknown, 0)
  | .shl8rr dst src =>
      let v := (h.reg dst).setWidth 8 <<< shiftCount h src
      some ((h.setReg dst (low 8 (h.reg dst) v)).setFlags .unknown, 0)
  | .shl16rr dst src =>
      let v := (h.reg dst).setWidth 16 <<< shiftCount h src
      some ((h.setReg dst (low 16 (h.reg dst) v)).setFlags .unknown, 0)
  | .set8r cond dst => (cond.holds h.flags).map fun c =>
      (h.setReg dst (low 8 (h.reg dst) ((BitVec.ofBool c).setWidth 8)), 0)
  | .cmovnz64rr dst src => (FpCond.nz.holds h.flags).map fun c =>
      (if c then h.setReg dst (h.reg src) else h, 0)
  | .jump none skip => skip.map fun n => (h, n)
  | .jump (some cond) skip => skip.bind fun n => (cond.holds h.flags).map fun c =>
      (h, if c then n else 0)

/-- The state after an instruction, and the number of instructions it jumps over. -/
def step (u : FpUnit) (i : FpInstr) (h : FpState) : Option (FpState × Nat) :=
  (i.exec u h).map fun p => (p.1.raise (i.raised u h), p.2)

end FpInstr

/-! ## Evaluation -/

-- the state after straight code is evaluated field by field
attribute [simp] FpInstr.exec FpCond.holds FpFlags.compare FpFlags.logic FpFlags.shift
attribute [simp] FpState.reg FpState.xmm FpState.scalar FpState.raise FpState.setReg
attribute [simp] FpState.setXmm FpState.setFlags SseState.setReg SseState.setXmm
attribute [simp] SseState.clobberFlags HostState.setReg HostState.clobberFlags

@[simp] theorem width_single : FpForm.s.width = 32 := rfl

@[simp] theorem width_double : FpForm.d.width = 64 := rfl

/-- A single is the low half of the register. -/
@[simp] theorem get_single (v : BitVec 64) : FpForm.get .s v = (v.setWidth 32 : BitVec 32) := rfl

/-- A double is the whole register. -/
@[simp] theorem get_double (v : BitVec 64) : FpForm.get .d v = v := BitVec.setWidth_eq v

@[simp] theorem sized_double (f : {n : Nat} → BitVec n → BitVec n → BitVec n) (a b : BitVec 64) :
    sized .s64 f a b = f a b := rfl

@[simp] theorem sized_xor_self (size : OpSize) (v : BitVec 64) :
    sized size AluOp.xor.eval v v = 0#64 := by
  cases size with
  | s32 => simp [sized, AluOp.eval]
  | s64 => simp [sized, AluOp.eval]

/-- A test shows the sign. -/
@[simp] theorem testFlags_sf {w : Nat} (a : BitVec w) : (testFlags a a).sf = a.msb := by
  simp [testFlags]

/-- A comparison shows equality. -/
@[simp] theorem cmpFlags_zf {w : Nat} (a b : BitVec w) : (cmpFlags a b).zf = (a == b) := rfl

/-- The low bytes of a register after a write to them. -/
@[simp] theorem setWidth_low (n : Nat) (hn : n ≤ 64) (v : BitVec 64) (x : BitVec n) :
    (low n v x).setWidth n = x := by
  apply BitVec.eq_of_getLsbD_eq
  intro i hi
  simp [low, hi, Nat.lt_of_lt_of_le hi hn]

/-- The count of a shift is in the low byte. -/
@[simp] theorem low_toNat_mod (v : BitVec 64) (x : BitVec 8) :
    (low 8 v x).toNat % 32 = x.toNat % 32 := by
  have hlow : ((low 8 v x).setWidth 8).toNat = x.toNat := by rw [setWidth_low 8 (by decide)]
  rw [BitVec.toNat_setWidth] at hlow
  omega

end RiaJit.X86
