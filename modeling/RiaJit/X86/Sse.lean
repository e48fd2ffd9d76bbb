import RiaJit.Lib.EmitLogic
import RiaJit.X86.Machine

/-!
# The SSE registers

The scalar floating-point instructions that the translator emits. Arithmetic is a parameter: it
is a function of the bit patterns and of `MXCSR`, whose exception flags are not modelled. Only
the lower halves of the registers are, since no instruction moves anything out of the upper
halves.
-/

set_option autoImplicit false

namespace RiaJit.X86

/-- `FE_XMM0` to `FE_XMM15`. -/
abbrev XmmReg := Fin 16

/-- Scalar instructions on singles (`SS`, `PS`) and on doubles (`SD`, `PD`). -/
inductive FpForm where
  | s | d
  deriving DecidableEq, Repr

namespace FpForm

/-- The width of a scalar. -/
def width : FpForm → Nat
  | .s => 32
  | .d => 64

/-- The scalar in a register. -/
def get (form : FpForm) (v : BitVec 64) : BitVec form.width := v.setWidth form.width

/-- A register in which the scalar is replaced. -/
def put (form : FpForm) (v : BitVec 64) (x : BitVec form.width) : BitVec 64 :=
  (v >>> form.width) <<< form.width ||| x.setWidth 64

end FpForm

/-- `ADD`, `SUB`, `MUL` and `DIV` of scalars. -/
inductive SseOp where
  | add | sub | mul | div
  deriving DecidableEq, Repr

/-- What the arithmetic instructions compute, for each value of `MXCSR`. -/
structure SseArithmetic where
  arith : SseOp → (form : FpForm) → BitVec 32 → BitVec form.width → BitVec form.width →
    BitVec form.width
  sqrt : (form : FpForm) → BitVec 32 → BitVec form.width → BitVec form.width

/-- Addition and multiplication commute. -/
structure SseArithmetic.Commutes (ops : SseArithmetic) : Prop where
  add : ∀ form m a b, ops.arith .add form m a b = ops.arith .add form m b a
  mul : ∀ form m a b, ops.arith .mul form m a b = ops.arith .mul form m b a

/-- The translator's variables that this code addresses: the floating-point register file, the
profile, and the words at `get_fctrl_file()`, eight bytes apart. -/
inductive SseCell where
  | fp (reg : Nat)
  | fpUsage (reg : Nat)
  | fctrl (index : Nat)
  deriving DecidableEq, Repr

/-- The machine with its SSE registers. -/
structure SseState where
  host : HostState
  xmm : XmmReg → BitVec 64
  cell : SseCell → BitVec 64
  mxcsr : BitVec 32

/-- The instructions, beside those of the integer part. -/
inductive SseInstr where
  | gp (i : FeInstr)
  | movrr (form : FpForm) (dst src : XmmReg)
  | movsdrm (dst : XmmReg) (src : SseCell)
  | movsdmr (dst : SseCell) (src : XmmReg)
  | arithrr (op : SseOp) (form : FpForm) (dst src : XmmReg)
  | sqrtrr (form : FpForm) (dst src : XmmReg)
  | xorrr (form : FpForm) (dst src : XmmReg)
  | inc64m (dst : SseCell)
  | stmxcsrm (dst : SseCell)
  | ldmxcsrm (src : SseCell)
  | mov32rm (dst : FeReg) (src : SseCell)
  | mov32mr (dst : SseCell) (src : FeReg)
  | and16mi (dst : SseCell) (imm : BitVec 16)
  | and16ri (dst : FeReg) (imm : BitVec 16)
  | or16ri (dst : FeReg) (imm : BitVec 16)
  | or16mr (dst : SseCell) (src : FeReg)

namespace SseState

/-- The state with another value in an SSE register. -/
def setXmm (h : SseState) (r : XmmReg) (v : BitVec 64) : SseState :=
  { h with xmm := Function.update h.xmm r v }

/-- The state with another value in a cell. -/
def setCell (h : SseState) (c : SseCell) (v : BitVec 64) : SseState :=
  { h with cell := Function.update h.cell c v }

/-- The state after an instruction whose flags are not used. -/
def clobberFlags (h : SseState) : SseState := { h with host := h.host.clobberFlags }

/-- The state with another value in an integer register. -/
def setReg (h : SseState) (r : FeReg) (v : BitVec 64) : SseState :=
  { h with host := h.host.setReg r v }

end SseState

/-- An operation on the low `n` bits, which keeps the others. -/
def low (n : Nat) (v : BitVec 64) (x : BitVec n) : BitVec 64 := (v >>> n) <<< n ||| x.setWidth 64

/-- The state after an instruction. -/
def SseInstr.exec (ops : SseArithmetic) : SseInstr → SseState → Option SseState
  | .gp i, h => (i.exec h.host).map fun host => { h with host := host }
  | .movrr form dst src, h => some (h.setXmm dst (form.put (h.xmm dst) (form.get (h.xmm src))))
  | .movsdrm dst src, h => some (h.setXmm dst (h.cell src))
  | .movsdmr dst src, h => some (h.setCell dst (h.xmm src))
  | .arithrr op form dst src, h =>
      some (h.setXmm dst (form.put (h.xmm dst)
        (ops.arith op form h.mxcsr (form.get (h.xmm dst)) (form.get (h.xmm src)))))
  | .sqrtrr form dst src, h =>
      some (h.setXmm dst (form.put (h.xmm dst) (ops.sqrt form h.mxcsr (form.get (h.xmm src)))))
  | .xorrr _ dst src, h => some (h.setXmm dst (h.xmm dst ^^^ h.xmm src))
  | .inc64m dst, h => some (h.setCell dst (h.cell dst + 1#64)).clobberFlags
  | .stmxcsrm dst, h => some (h.setCell dst (low 32 (h.cell dst) h.mxcsr))
  | .ldmxcsrm src, h => some { h with mxcsr := (h.cell src).setWidth 32 }
  | .mov32rm dst src, h => some (h.setReg dst (((h.cell src).setWidth 32).setWidth 64))
  | .mov32mr dst src, h =>
      some (h.setCell dst (low 32 (h.cell dst) ((h.host.reg src).setWidth 32)))
  | .and16mi dst imm, h =>
      some (h.setCell dst (low 16 (h.cell dst) ((h.cell dst).setWidth 16 &&& imm))).clobberFlags
  | .and16ri dst imm, h =>
      some (h.setReg dst (low 16 (h.host.reg dst)
        ((h.host.reg dst).setWidth 16 &&& imm))).clobberFlags
  | .or16ri dst imm, h =>
      some (h.setReg dst (low 16 (h.host.reg dst)
        ((h.host.reg dst).setWidth 16 ||| imm))).clobberFlags
  | .or16mr dst src, h =>
      some (h.setCell dst (low 16 (h.cell dst)
        ((h.cell dst).setWidth 16 ||| (h.host.reg src).setWidth 16))).clobberFlags

/-! ## Scalars -/

@[simp] theorem FpForm.get_put (form : FpForm) (v : BitVec 64) (x : BitVec form.width) :
    form.get (form.put v x) = x := by
  apply BitVec.eq_of_getLsbD_eq
  intro i hi
  have hlt : i < 64 := by
    cases form with
    | s => exact Nat.lt_trans hi (by decide)
    | d => exact hi
  unfold get put
  rw [BitVec.getLsbD_setWidth, BitVec.getLsbD_or, BitVec.getLsbD_shiftLeft,
    BitVec.getLsbD_setWidth]
  simp [hi, hlt]

@[simp] theorem FpForm.get_zero (form : FpForm) : form.get 0#64 = BitVec.ofNat form.width 0 := by
  unfold get
  exact BitVec.setWidth_zero _ _

end RiaJit.X86
