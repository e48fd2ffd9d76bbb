import RiaJit.Guest.Rv64i

/-!
# Accesses to control and status registers

What the instructions of Zicsr leave in a CSR, by the RISC-V specification. Each of them
writes the old value of the CSR to `rd`.
-/

set_option autoImplicit false

namespace RiaJit.RiscInstr

/-- The source of an access: `rs1`, or its field as a value of five bits. -/
def csrSource (instr : RiscInstr) (g : GuestState) : BitVec 64 :=
  match instr.mnem with
  | .csrrw | .csrrs | .csrrc => g.read instr.regSrc1
  | _ => BitVec.ofNat 64 instr.regSrc1

/-- The value that an access leaves in the CSR. Setting or clearing no bits is no change, as is
no write at all. -/
def csrResult (instr : RiscInstr) (old src : BitVec 64) : BitVec 64 :=
  match instr.mnem with
  | .csrrw | .csrrwi => src
  | .csrrs | .csrrsi => old ||| src
  | .csrrc | .csrrci => old &&& ~~~src
  | _ => old

/-- Whether an access writes the CSR: setting or clearing with `x0` or no bits does not. -/
def csrWrites (instr : RiscInstr) : Prop :=
  ¬ (instr.mnem ∈ [.csrrs, .csrrsi, .csrrc, .csrrci] ∧ instr.regSrc1 = x0)

instance (instr : RiscInstr) : Decidable instr.csrWrites := inferInstanceAs (Decidable (¬ (_ ∧ _)))

end RiaJit.RiscInstr

namespace RiaJit

/-! ## The floating-point CSR -/

/-- The guest with its floating-point control and status register, `frm << 5 | fflags`. -/
structure FcsrState where
  guest : GuestState
  fcsr : BitVec 8

/-- What is read at `fflags` (1), `frm` (2) and `fcsr` (3). -/
def fcsrView (imm : BitVec 64) (fcsr : BitVec 8) : BitVec 64 :=
  if imm = 1#64 then (fcsr &&& 0x1f#8).setWidth 64
  else if imm = 2#64 then (fcsr >>> 5).setWidth 64
  else fcsr.setWidth 64

/-- The register after a write at one of them. -/
def fcsrInsert (imm : BitVec 64) (fcsr : BitVec 8) (v : BitVec 64) : BitVec 8 :=
  if imm = 1#64 then (fcsr &&& 0xe0#8) ||| (v.setWidth 8 &&& 0x1f#8)
  else if imm = 2#64 then (fcsr &&& 0x1f#8) ||| (v.setWidth 8 <<< 5)
  else v.setWidth 8

/-- An access to one of them. -/
def FcsrState.step (s : FcsrState) (instr : RiscInstr) : FcsrState :=
  let old := fcsrView instr.imm s.fcsr
  { guest := s.guest.write instr.regDest old
    fcsr :=
      if instr.csrWrites then
        fcsrInsert instr.imm s.fcsr (instr.csrResult old (instr.csrSource s.guest))
      else s.fcsr }

/-- A sequence of accesses. -/
def FcsrState.run (s : FcsrState) (instrs : List RiscInstr) : FcsrState :=
  instrs.foldl FcsrState.step s

/-- The rounding mode is one that has a counterpart on the host: `RNE`, `RTZ`, `RDN` or `RUP`. -/
def FcsrState.Rounds (s : FcsrState) : Prop := (s.fcsr >>> 5).toNat < 4

/-- So are all the modes that a sequence of accesses leaves. -/
def FcsrState.RoundsAlong (s : FcsrState) : List RiscInstr → Prop
  | [] => True
  | instr :: instrs => (s.step instr).Rounds ∧ (s.step instr).RoundsAlong instrs

/-- An access to `fflags`, `frm` or `fcsr`. -/
def RiscInstr.IsFcsrAccess (instr : RiscInstr) : Prop :=
  instr.mnem ∈ [.csrrw, .csrrs, .csrrc, .csrrwi, .csrrsi, .csrrci] ∧
    instr.imm ∈ [1#64, 2#64, 3#64]

end RiaJit
