import RiaJit.Guest.Rv64i

/-!
# Atomic memory operations of the guest

The A extension on a single hart, by the RISC-V specification. There is no other hart, so
an operation is a load, a computation and a store. A guest has no reservation in its state:
the effects of programs take each store-conditional with its reservation held. The two
products of the M extension that keep the low part are here too.
-/

set_option autoImplicit false

namespace RiaJit

/-- What an atomic operation stores, given the old value and that of `rs2`. -/
inductive AmoFunction where
  | swap | add | xor | and | or | min | max | minu | maxu
  deriving DecidableEq, Repr

namespace AmoFunction

/-- The function on values of one width. -/
def eval (f : AmoFunction) {w : Nat} (old src : BitVec w) : BitVec w :=
  match f with
  | .swap => src
  | .add => old + src
  | .xor => old ^^^ src
  | .and => old &&& src
  | .or => old ||| src
  | .min => if old.slt src then old else src
  | .max => if src.slt old then old else src
  | .minu => if old.ult src then old else src
  | .maxu => if src.ult old then old else src

/-- The function on the low parts of two registers. -/
def apply (f : AmoFunction) (size : MemSize) (old src : BitVec 64) : BitVec 64 :=
  (f.eval (old.setWidth (8 * size.bytes)) (src.setWidth (8 * size.bytes))).setWidth 64

/-- The functions that compare their operands. -/
def compares : AmoFunction → Bool
  | .min | .max | .minu | .maxu => true
  | _ => false

end AmoFunction

/-- The function and the width of an atomic memory operation. -/
def RiscMnem.amo : RiscMnem → Option (AmoFunction × MemSize)
  | .amoswapw => some (.swap, .m32)
  | .amoaddw => some (.add, .m32)
  | .amoxorw => some (.xor, .m32)
  | .amoandw => some (.and, .m32)
  | .amoorw => some (.or, .m32)
  | .amominw => some (.min, .m32)
  | .amomaxw => some (.max, .m32)
  | .amominuw => some (.minu, .m32)
  | .amomaxuw => some (.maxu, .m32)
  | .amoswapd => some (.swap, .m64)
  | .amoaddd => some (.add, .m64)
  | .amoxord => some (.xor, .m64)
  | .amoandd => some (.and, .m64)
  | .amoord => some (.or, .m64)
  | .amomind => some (.min, .m64)
  | .amomaxd => some (.max, .m64)
  | .amominud => some (.minu, .m64)
  | .amomaxud => some (.maxu, .m64)
  | _ => none

namespace RiscInstr

/-- `LR.W` and `LR.D`. -/
def loadReserved (instr : RiscInstr) (size : MemSize) (g : GuestState) : GuestState :=
  g.write instr.regDest (g.mem.loadSigned size (g.read instr.regSrc1))

/-- `SC.W` and `SC.D`. Without the reservation nothing is stored, and `rd` is not zero. -/
def storeConditional (instr : RiscInstr) (size : MemSize) (held : Bool) (g : GuestState) :
    GuestState :=
  if held then
    { g with mem := g.mem.store size (g.read instr.regSrc1) (g.read instr.regSrc2) }.write
      instr.regDest 0#64
  else g.write instr.regDest 1#64

/-- A store-conditional tells in `rd` whether the reservation was held. -/
theorem storeConditional_lost_ne {instr : RiscInstr} {size : MemSize}
    (hrd : instr.regDest ≠ x0) (g : GuestState) :
    instr.storeConditional size false g ≠ instr.storeConditional size true g := by
  intro heq
  have hreg := congrFun (congrArg GuestState.reg heq) instr.regDest
  have hlost : (instr.storeConditional size false g).reg instr.regDest = 1#64 :=
    g.write_reg_self hrd 1#64
  have hheld : (instr.storeConditional size true g).reg instr.regDest = 0#64 :=
    GuestState.write_reg_self _ hrd 0#64
  rw [hlost, hheld] at hreg
  exact absurd hreg (by decide)

/-- An atomic operation on the word at `a`. -/
def amoAt (instr : RiscInstr) (f : AmoFunction) (size : MemSize) (a : BitVec 64)
    (g : GuestState) : GuestState :=
  { g with
    mem := g.mem.store size a (f.apply size (g.mem.load size a) (g.read instr.regSrc2)) }.write
    instr.regDest (g.mem.loadSigned size a)

/-- `MUL` and `MULW`: the low part of a product, sign extended. -/
def product (instr : RiscInstr) (size : MemSize) (g : GuestState) : GuestState :=
  let a := g.read instr.regSrc1
  let b := g.read instr.regSrc2
  g.write instr.regDest (match size with
    | .m64 => a * b
    | _ => sext32 (a.setWidth 32 * b.setWidth 32))

/-- An atomic operation on the word at the address in `rs1`. -/
def amo (instr : RiscInstr) (f : AmoFunction) (size : MemSize) (g : GuestState) : GuestState :=
  instr.amoAt f size (g.read instr.regSrc1) g

/-- The minima and maxima. -/
def Compares (instr : RiscInstr) : Prop :=
  ∃ f size, instr.mnem.amo = some (f, size) ∧ f.compares = true

/-- The effect of an instruction of the A extension, with the reservation held at each
store-conditional, and of the two products. -/
def atomic (instr : RiscInstr) : Option (GuestState → GuestState) :=
  match instr.mnem with
  | .mul => some (instr.product .m64)
  | .mulw => some (instr.product .m32)
  | .lrw => some (instr.loadReserved .m32)
  | .lrd => some (instr.loadReserved .m64)
  | .scw => some (instr.storeConditional .m32 true)
  | .scd => some (instr.storeConditional .m64 true)
  | mnem => mnem.amo.map fun (f, size) => instr.amo f size

/-- The same as an extension of RV64I: the parser gives these instructions three registers. -/
def rv64ma (instr : RiscInstr) : Option (GuestState → GuestState) :=
  if instr.optype = .regReg then instr.atomic else none

end RiscInstr

end RiaJit
