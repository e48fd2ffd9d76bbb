import RiaJit.Util.Memory

/-!
# The host machine

The x86-64 instructions the translator emits, under the names it passes to the
encoder, and what they do. The translator's own variables are cells of their own
that guest memory does not reach. Flags that no emitted instruction reads are left
unknown.
-/

set_option autoImplicit false

namespace RiaJit.X86

/-- `FeReg`, the general purpose registers. -/
inductive FeReg where
  | ax | cx | dx | bx | sp | bp | si | di | r8 | r9 | r10 | r11 | r12 | r13 | r14 | r15
  deriving DecidableEq, Repr

/-- The translator's variables that emitted code addresses with `FE_MEM_ADDR`. -/
inductive Cell where
  | gp (reg : Nat)
  | gpUsage (reg : Nat)
  | chainEnd
  | chainType
  | rsFront
  | rStack
  | swap (slot : Nat)
  | csr (index : BitVec 64)
  deriving DecidableEq, Repr

/-- The flags that conditional instructions read. -/
structure X86Flags where
  cf : Bool
  zf : Bool
  sf : Bool
  of : Bool
  deriving DecidableEq, Repr

/-- The state that code works on. `none` stands for flags that were left undefined
or that no emitted code relies on. -/
structure HostState where
  reg : FeReg → BitVec 64
  flags : Option X86Flags
  cell : Cell → BitVec 64
  mem : Memory
  stack : List (BitVec 64)

/-- Operand sizes of register operations. A 32-bit result is zero extended. -/
inductive OpSize where
  | s32 | s64
  deriving DecidableEq, Repr

/-- `FE_ADD`, `FE_SUB`, `FE_XOR`, `FE_OR`, `FE_AND`. -/
inductive AluOp where
  | add | sub | xor | or | and
  deriving DecidableEq, Repr

/-- `FE_SHL`, `FE_SHR`, `FE_SAR`. -/
inductive ShiftOp where
  | shl | shr | sar
  deriving DecidableEq, Repr

/-- The conditions of `FE_JZ`, `FE_JNZ`, `FE_JL`, `FE_JGE`, `FE_JC`, `FE_JNC`, `FE_JNS`, of
`FE_SETL8r`, `FE_SETC8r` and of the conditional moves. -/
inductive Cond where
  | z | nz | l | ge | c | nc | ns | g | a
  deriving DecidableEq, Repr

/-- `FE_MEM(base, scale, index, off)`. -/
structure MemOp where
  base : Option FeReg
  index : Option (Nat × FeReg)
  off : BitVec 64
  deriving DecidableEq, Repr

/-- The emitted instructions. A suffix of the encoder's mnemonics that gives an
operand size is an argument here. -/
inductive FeInstr where
  | alurr (op : AluOp) (size : OpSize) (dst src : FeReg)
  | aluri (op : AluOp) (size : OpSize) (dst : FeReg) (imm : BitVec 64)
  | cmp64rr (a b : FeReg)
  | cmp64ri (a : FeReg) (imm : BitVec 64)
  | test64rr (a b : FeReg)
  | movrr (size : OpSize) (dst src : FeReg)
  | mov64ri (dst : FeReg) (imm : BitVec 64)
  | lea (size : OpSize) (dst : FeReg) (src : MemOp)
  | shiftri (op : ShiftOp) (size : OpSize) (dst : FeReg) (imm : BitVec 64)
  | shiftrr (op : ShiftOp) (size : OpSize) (dst src : FeReg)
  | neg (size : OpSize) (dst : FeReg)
  | not64r (dst : FeReg)
  | xchg64rr (a b : FeReg)
  | movsxr64r32 (dst src : FeReg)
  | movzxr32r8 (dst src : FeReg)
  | set8r (cond : Cond) (dst : FeReg)
  | movsxm (size : MemSize) (dst : FeReg) (src : MemOp)
  | movrm (size : MemSize) (dst : FeReg) (src : MemOp)
  | movmr (size : MemSize) (dst : MemOp) (src : FeReg)
  | mov64rmCell (dst : FeReg) (src : Cell)
  | mov32rmCell (dst : FeReg) (src : Cell)
  | mov64mrCell (dst : Cell) (src : FeReg)
  | mov32mrCell (dst : Cell) (src : FeReg)
  | mov64miCell (dst : Cell) (imm : BitVec 64)
  | mov32miCell (dst : Cell) (imm : BitVec 64)
  | inc64mCell (dst : Cell)
  | add64rmCell (dst : FeReg) (src : Cell)
  | movsxr64m32Cell (dst : FeReg) (src : Cell)
  | alu64mrCell (op : AluOp) (dst : Cell) (src : FeReg)
  | alu64miCell (op : AluOp) (dst : Cell) (imm : BitVec 64)
  | imulrr (size : OpSize) (dst src : FeReg)
  | imul64r (src : FeReg)
  | mul64r (src : FeReg)
  | cSep (size : OpSize)
  | idivr (size : OpSize) (src : FeReg)
  | divr (size : OpSize) (src : FeReg)
  | cmp32rr (a b : FeReg)
  | test32rr (a b : FeReg)
  | cmovrr (cond : Cond) (size : OpSize) (dst src : FeReg)
  | alumr (op : AluOp) (size : MemSize) (dst : MemOp) (src : FeReg)
  | alumi (op : AluOp) (size : MemSize) (dst : MemOp) (imm : BitVec 64)
  | push (src : FeReg)
  | pop (dst : FeReg)
  | nop
  | leaRip (dst : FeReg)
  | jmp (long : Bool) (target : BitVec 64)
  | jcc (long : Bool) (cond : Cond) (target : BitVec 64)
  | jmpr (src : FeReg)
  | call (fn : BitVec 64)
  | ret
  deriving DecidableEq, Repr

/-! ## Values -/

/-- An operation of the given size, its result zero extended. -/
def sized (size : OpSize) (f : {n : Nat} → BitVec n → BitVec n → BitVec n)
    (a b : BitVec 64) : BitVec 64 :=
  match size with
  | .s64 => f a b
  | .s32 => (f (a.setWidth 32) (b.setWidth 32)).setWidth 64

/-- The result of an arithmetic instruction. -/
def AluOp.eval (op : AluOp) {n : Nat} (a b : BitVec n) : BitVec n :=
  match op with
  | .add => a + b
  | .sub => a - b
  | .xor => a ^^^ b
  | .or => a ||| b
  | .and => a &&& b

/-- The result of a shift by `n` bits. -/
def ShiftOp.eval (op : ShiftOp) {w : Nat} (a : BitVec w) (n : Nat) : BitVec w :=
  match op with
  | .shl => a <<< n
  | .shr => a >>> n
  | .sar => a.sshiftRight n

/-- A shift of the given size; the count is taken modulo the size. -/
def shifted (op : ShiftOp) (size : OpSize) (a count : BitVec 64) : BitVec 64 :=
  match size with
  | .s64 => op.eval a (count.toNat % 64)
  | .s32 => (op.eval (a.setWidth 32) (count.toNat % 32)).setWidth 64

/-- The flags after a comparison of `a` with `b`. -/
def cmpFlags {w : Nat} (a b : BitVec w) : X86Flags :=
  { cf := a.ult b
    zf := a == b
    sf := (a - b).msb
    of := a.msb != b.msb && (a - b).msb != a.msb }

/-- The flags after a `TEST` of `a` with `b`. -/
def testFlags {w : Nat} (a b : BitVec w) : X86Flags :=
  { cf := false, zf := a &&& b == 0#w, sf := (a &&& b).msb, of := false }

/-- Quotient and remainder of a signed division of `high ++ low`; none where the division
faults, for a divisor of zero and a quotient out of range. -/
def signedDivide {w : Nat} (high low divisor : BitVec w) : Option (BitVec w × BitVec w) :=
  let dividend := (high ++ low).toInt
  let quotient := dividend.tdiv divisor.toInt
  if divisor = 0#w ∨ quotient < -2 ^ (w - 1) ∨ 2 ^ (w - 1) ≤ quotient then none
  else some (BitVec.ofInt w quotient, BitVec.ofInt w (dividend.tmod divisor.toInt))

/-- The same for an unsigned division. -/
def unsignedDivide {w : Nat} (high low divisor : BitVec w) : Option (BitVec w × BitVec w) :=
  let dividend := (high ++ low).toNat
  let quotient := dividend / divisor.toNat
  if divisor = 0#w ∨ 2 ^ w ≤ quotient then none
  else some (BitVec.ofNat w quotient, BitVec.ofNat w (dividend % divisor.toNat))

/-- The sign of a value as a value. -/
def signFill {w : Nat} (a : BitVec w) : BitVec w := if a.msb then BitVec.allOnes w else 0#w

/-- Whether a condition holds. -/
def Cond.holds (cond : Cond) (flags : X86Flags) : Bool :=
  match cond with
  | .z => flags.zf
  | .nz => !flags.zf
  | .l => flags.sf != flags.of
  | .ge => flags.sf == flags.of
  | .c => flags.cf
  | .nc => !flags.cf
  | .ns => !flags.sf
  | .g => !flags.zf && flags.sf == flags.of
  | .a => !flags.cf && !flags.zf

/-! ## Execution -/

namespace HostState

/-- The state with another value in a register. -/
def setReg (h : HostState) (r : FeReg) (v : BitVec 64) : HostState :=
  { h with reg := Function.update h.reg r v }

/-- The state with another value in a cell. -/
def setCell (h : HostState) (c : Cell) (v : BitVec 64) : HostState :=
  { h with cell := Function.update h.cell c v }

/-- The state after an instruction whose flags are not used. -/
def clobberFlags (h : HostState) : HostState := { h with flags := none }

/-- The state with values in `DX` and `AX`, whose flags are not used. -/
def setDxAx (h : HostState) (dx ax : BitVec 64) : HostState :=
  ((h.setReg .dx dx).setReg .ax ax).clobberFlags

/-- The address of a memory operand. -/
def addr (h : HostState) (m : MemOp) : BitVec 64 :=
  (match m.base with | none => 0#64 | some r => h.reg r) +
    (match m.index with | none => 0#64 | some (scale, r) => BitVec.ofNat 64 scale * h.reg r) +
    m.off

end HostState

namespace FeInstr

/-- The state after an instruction that continues with the next one. Jumps, calls
and returns have none, nor has a conditional instruction on unknown flags. -/
def exec : FeInstr → HostState → Option HostState
  | .alurr op size dst src, h =>
      some ((h.setReg dst (sized size op.eval (h.reg dst) (h.reg src))).clobberFlags)
  | .aluri op size dst imm, h =>
      some ((h.setReg dst (sized size op.eval (h.reg dst) imm)).clobberFlags)
  | .cmp64rr a b, h => some { h with flags := some (cmpFlags (h.reg a) (h.reg b)) }
  | .cmp64ri a imm, h => some { h with flags := some (cmpFlags (h.reg a) imm) }
  | .test64rr a b, h => some { h with flags := some (testFlags (h.reg a) (h.reg b)) }
  | .movrr size dst src, h => some (h.setReg dst (sized size (fun a _ => a) (h.reg src) 0#64))
  | .mov64ri dst imm, h => some (h.setReg dst imm)
  | .lea size dst src, h => some (h.setReg dst (sized size (fun a _ => a) (h.addr src) 0#64))
  | .shiftri op size dst imm, h =>
      some ((h.setReg dst (shifted op size (h.reg dst) imm)).clobberFlags)
  | .shiftrr op size dst src, h =>
      some ((h.setReg dst (shifted op size (h.reg dst) (h.reg src))).clobberFlags)
  | .neg size dst, h =>
      some ((h.setReg dst (sized size (fun a _ => -a) (h.reg dst) 0#64)).clobberFlags)
  | .not64r dst, h => some (h.setReg dst (~~~h.reg dst))
  | .xchg64rr a b, h => some ((h.setReg a (h.reg b)).setReg b (h.reg a))
  | .movsxr64r32 dst src, h => some (h.setReg dst (((h.reg src).setWidth 32).signExtend 64))
  | .movzxr32r8 dst src, h => some (h.setReg dst (((h.reg src).setWidth 8).setWidth 64))
  | .set8r cond dst, h =>
      h.flags.map fun flags =>
        h.setReg dst (h.reg dst &&& ~~~0xff#64 ||| (BitVec.ofBool (cond.holds flags)).setWidth 64)
  | .movsxm size dst src, h => some (h.setReg dst (h.mem.loadSigned size (h.addr src)))
  | .movrm size dst src, h => some (h.setReg dst (h.mem.load size (h.addr src)))
  | .movmr size dst src, h => some { h with mem := h.mem.store size (h.addr dst) (h.reg src) }
  | .mov64rmCell dst src, h => some (h.setReg dst (h.cell src))
  | .mov32rmCell dst src, h => some (h.setReg dst (((h.cell src).setWidth 32).setWidth 64))
  | .mov64mrCell dst src, h => some (h.setCell dst (h.reg src))
  | .mov32mrCell dst src, h =>
      some (h.setCell dst ((h.cell dst).extractLsb' 32 32 ++ (h.reg src).setWidth 32))
  | .mov64miCell dst imm, h => some (h.setCell dst imm)
  | .mov32miCell dst imm, h =>
      some (h.setCell dst ((h.cell dst).extractLsb' 32 32 ++ imm.setWidth 32))
  | .inc64mCell dst, h => some ((h.setCell dst (h.cell dst + 1#64)).clobberFlags)
  | .add64rmCell dst src, h => some ((h.setReg dst (h.reg dst + h.cell src)).clobberFlags)
  | .movsxr64m32Cell dst src, h => some (h.setReg dst (((h.cell src).setWidth 32).signExtend 64))
  | .alu64mrCell op dst src, h =>
      some ((h.setCell dst (op.eval (h.cell dst) (h.reg src))).clobberFlags)
  | .alu64miCell op dst imm, h => some ((h.setCell dst (op.eval (h.cell dst) imm)).clobberFlags)
  | .imulrr size dst src, h =>
      some ((h.setReg dst (sized size (fun a b => a * b) (h.reg dst) (h.reg src))).clobberFlags)
  | .imul64r src, h =>
      let product := (h.reg .ax).signExtend 128 * (h.reg src).signExtend 128
      some (h.setDxAx (product.extractLsb' 64 64) (product.setWidth 64))
  | .mul64r src, h =>
      let product := (h.reg .ax).setWidth 128 * (h.reg src).setWidth 128
      some (h.setDxAx (product.extractLsb' 64 64) (product.setWidth 64))
  | .cSep .s64, h => some (h.setReg .dx (signFill (h.reg .ax)))
  | .cSep .s32, h => some (h.setReg .dx ((signFill ((h.reg .ax).setWidth 32)).setWidth 64))
  -- a divide error is no execution
  | .idivr .s64 src, h =>
      (signedDivide (h.reg .dx) (h.reg .ax) (h.reg src)).map fun (quotient, remainder) =>
        h.setDxAx remainder quotient
  | .idivr .s32 src, h =>
      (signedDivide ((h.reg .dx).setWidth 32) ((h.reg .ax).setWidth 32)
        ((h.reg src).setWidth 32)).map fun (quotient, remainder) =>
          h.setDxAx (remainder.setWidth 64) (quotient.setWidth 64)
  | .divr .s64 src, h =>
      (unsignedDivide (h.reg .dx) (h.reg .ax) (h.reg src)).map fun (quotient, remainder) =>
        h.setDxAx remainder quotient
  | .divr .s32 src, h =>
      (unsignedDivide ((h.reg .dx).setWidth 32) ((h.reg .ax).setWidth 32)
        ((h.reg src).setWidth 32)).map fun (quotient, remainder) =>
          h.setDxAx (remainder.setWidth 64) (quotient.setWidth 64)
  | .cmp32rr a b, h =>
      some { h with flags := some (cmpFlags ((h.reg a).setWidth 32) ((h.reg b).setWidth 32)) }
  | .test32rr a b, h =>
      some { h with flags := some (testFlags ((h.reg a).setWidth 32) ((h.reg b).setWidth 32)) }
  | .cmovrr cond size dst src, h =>
      h.flags.map fun flags =>
        h.setReg dst (sized size (fun a _ => a)
          (if cond.holds flags then h.reg src else h.reg dst) 0#64)
  | .alumr op size dst src, h =>
      let old := h.mem.load size (h.addr dst)
      some { h with mem := h.mem.store size (h.addr dst) (op.eval old (h.reg src)) }.clobberFlags
  | .alumi op size dst imm, h =>
      let old := h.mem.load size (h.addr dst)
      some { h with mem := h.mem.store size (h.addr dst) (op.eval old imm) }.clobberFlags
  | .push src, h => some { h with stack := h.reg src :: h.stack }
  | .pop dst, h =>
      match h.stack with
      | [] => none
      | v :: stack => some ({ h with stack := stack }.setReg dst v)
  | .nop, h => some h
  -- these need the address of the instruction
  | .leaRip _, _ | .jmp _ _, _ | .jcc _ _ _, _ | .jmpr _, _ | .call _, _ | .ret, _ => none

/-- Whether a displacement is a sign extended 8-bit value. -/
def fitsInt8 (imm : BitVec 64) : Bool := (imm.setWidth 8).signExtend 64 == imm

/-- Whether an immediate is a sign extended 32-bit value. -/
def fitsInt32 (imm : BitVec 64) : Bool := (imm.setWidth 32).signExtend 64 == imm

/-- Whether the encoder accepts an instruction. Only `MOV` to a register takes an
immediate of 64 bits, and a shift count in a register must be in `CL`. -/
def encodable : FeInstr → Bool
  | .aluri _ _ _ imm | .cmp64ri _ imm | .mov64miCell _ imm | .mov32miCell _ imm
  | .alu64miCell _ _ imm => fitsInt32 imm
  | .lea _ _ m | .movsxm _ _ m | .movrm _ _ m | .movmr _ m _ | .alumr _ _ m _ => fitsInt32 m.off
  | .alumi _ _ m imm => fitsInt32 m.off && fitsInt32 imm
  | .shiftrr _ _ _ src => src == .cx
  | _ => true

end FeInstr

end RiaJit.X86
