import RiaJit.Lib.HostMemory
import RiaJit.Util.Typedefs
import Mathlib.Data.List.Infix

/-!
# Memory system calls of the guest

The cases `brk`, `munmap` and `mmap` of `emulate_ecall`. The guest and the translator
share one address space; the pages from `TRANSLATOR_BASE - STACK_OFFSET` on hold the
code buffer and the translator.
-/

set_option autoImplicit false

namespace RiaJit.Runtime

open HostMemory

/-- `TRANSLATOR_BASE`. -/
def translatorBase : BitVec 64 := 0x780000000000#64

/-- `STACK_OFFSET`, the size of the code buffer. -/
def stackOffset : BitVec 64 := 0x7f000000#64

/-- `TRANSLATOR_BASE - STACK_OFFSET`, the end of the guest's region. -/
def guestLimit : BitVec 64 := translatorBase - stackOffset

/-- `ALIGN_UP(value, 4096lu)`. -/
def alignUp (value : BitVec 64) : BitVec 64 := (value + 4095#64) &&& ~~~4095#64

/-- `ALIGN_DOWN(value, 4096lu)`. -/
def alignDown (value : BitVec 64) : BitVec 64 := value &&& ~~~4095#64

/-- `a0` to `a7`. -/
abbrev a (n : Nat) : Nat := 10 + n

/-- `-EINVAL`. -/
def einval : BitVec 64 := -22#64

/-- `-EEXIST`. -/
def eexist : BitVec 64 := -17#64

/-- `PROT_READ | PROT_WRITE`. -/
def protReadWrite : BitVec 64 := 3#64

/-- What the modelled cases read and change: the register file, the static variables of
`emulateEcall.c` and the memory. -/
structure EcallState where
  registerValues : Nat → BitVec 64
  lastHint : BitVec 64
  curBrk : BitVec 64
  initialBrk : BitVec 64
  mappedBrk : BitVec 64
  space : Space

namespace EcallState

/-- `registerValues[a0] = value`. -/
def setA0 (s : EcallState) (value : BitVec 64) : EcallState :=
  { s with registerValues := Function.update s.registerValues (a 0) value }

/-- `memset` to zero. -/
def clear (s : EcallState) (addr size : BitVec 64) : EcallState :=
  { s with space := { s.space with
      bytes := fun x => if (x - addr).toNat < size.toNat then 0#8 else s.space.bytes x } }

/-- The state after a system call of the host. -/
def after (s : EcallState) (host : Host) (call : HostCall) : EcallState :=
  { s with space := call.effect (host call s.space) s.space }

/-- `setupBrk`. -/
def setupBrk (s : EcallState) (brk : BitVec 64) : EcallState :=
  { s with curBrk := brk, initialBrk := brk, mappedBrk := brk }

/-- `setupMmapHint`; `reserved` is `stackSize + guard`. -/
def setupMmapHint (s : EcallState) (reserved : BitVec 64) : EcallState :=
  { s with lastHint := guestLimit - reserved }

/-- The `mmap` of the case `brk`. -/
def growCall (s : EcallState) (newMappedBrk : BitVec 64) : HostCall :=
  .mmap s.mappedBrk (newMappedBrk - s.mappedBrk) protReadWrite
    (mapAnonymous ||| mapPrivate ||| mapFixedNoReplace) 0#64 0#64

/-- The break is moved past the pages that are mapped. -/
def growMapped (host : Host) (s : EcallState) (brkAddr : BitVec 64) : EcallState :=
  let newMappedBrk := alignUp brkAddr
  let call := s.growCall newMappedBrk
  let map := (host call s.space).result
  let s' := s.after host call
  if isError map then s'
  else if map ≠ s.mappedBrk then s'.after host (.munmap map (newMappedBrk - s.mappedBrk))
  else { s'.clear s.curBrk (s.mappedBrk - s.curBrk) with
    mappedBrk := newMappedBrk, curBrk := brkAddr }

/-- The break is moved within the pages that are mapped. -/
def moveWithin (s : EcallState) (brkAddr : BitVec 64) : EcallState :=
  { (if brkAddr > s.curBrk then s.clear s.curBrk (brkAddr - s.curBrk) else s) with
    curBrk := brkAddr }

/-- The case `brk`. -/
def emulateBrk (host : Host) (s : EcallState) : EcallState :=
  let brkAddr := s.registerValues (a 0)
  let s' :=
    if brkAddr < s.initialBrk then s
    else if brkAddr ≤ s.mappedBrk then s.moveWithin brkAddr
    else s.growMapped host brkAddr
  s'.setA0 s'.curBrk

/-- A system call whose result is the guest's. -/
def forward (host : Host) (s : EcallState) (call : HostCall) : EcallState :=
  (s.after host call).setA0 (host call s.space).result

/-- The case `munmap`. -/
def emulateMunmap (host : Host) (s : EcallState) : EcallState :=
  let munmapAddr := s.registerValues (a 0)
  let size := s.registerValues (a 1)
  if munmapAddr + size > guestLimit then s.setA0 einval
  else s.forward host (.munmap munmapAddr size)

/-- The guest's `mmap` at an address of the translator's choice. -/
def mmapCall (s : EcallState) (addr : BitVec 64) : HostCall :=
  .mmap addr (s.registerValues (a 1)) (s.registerValues (a 2)) (s.registerValues (a 3))
    (s.registerValues (a 4)) (s.registerValues (a 5))

/-- The case `mmap`. -/
def emulateMmap (host : Host) (s : EcallState) : EcallState :=
  let mmapAddr := s.registerValues (a 0)
  let flags := s.registerValues (a 3)
  if ¬ (hasFlag flags mapFixed ∨ hasFlag flags mapFixedNoReplace) then
    if mmapAddr = 0#64 ∨ mmapAddr > guestLimit then
      let hint := alignDown (s.lastHint - s.registerValues (a 1))
      { s.forward host (s.mmapCall hint) with lastHint := hint }
    else s.forward host (s.mmapCall mmapAddr)
  else if mmapAddr > guestLimit then
    s.setA0 (if hasFlag flags mapFixed then einval else eexist)
  else s.forward host (s.mmapCall mmapAddr)

/-- `emulate_ecall`, for the calls that change the guest's memory. -/
def emulateEcall (host : Host) (s : EcallState) : Option EcallState :=
  match (s.registerValues (a 7)).toNat with
  | 214 => some (s.emulateBrk host)
  | 215 => some (s.emulateMunmap host)
  | 222 => some (s.emulateMmap host)
  | _ => none

end EcallState

/-- `setupInstrMem`: the code buffer is mapped, or the translator stops. -/
def setupInstrMem (host : Host) (space : Space) : Option Space :=
  let call := HostCall.mmap guestLimit stackOffset 7#64
    (mapFixedNoReplace ||| mapAnonymous ||| mapPrivate ||| 0x4000#64) (-1#64) 0#64
  let buf := (host call space).result
  if isError buf ∨ buf ≠ guestLimit then none else some (call.effect (host call space) space)

/-! ## Runs -/

/-- The registers with which the guest makes a system call. -/
abbrev Request := Nat → BitVec 64

/-- Runs of system calls. Before each one the guest sets its registers and writes to its
memory; the kernel answers as it may. -/
inductive Run (k : Kernel) : EcallState → List Request → EcallState → Prop
  | nil (s : EcallState) : Run k s [] s
  | cons {s s₁ s' : EcallState} {request : Request} {requests : List Request}
      {host : Host} {bytes : BitVec 64 → BitVec 8} (hlegal : host.Legal k)
      (hcall : EcallState.emulateEcall host
        { s with registerValues := request, space := { s.space with bytes := bytes } } = some s₁)
      (hrest : Run k s₁ requests s') : Run k s (request :: requests) s'

/-- Whether a page lies at or above the end of the guest's region. -/
def Reserved (p : Nat) : Prop := guestLimit.toNat ≤ p * pageSize

/-- The code buffer is mapped. -/
def CodeBufferMapped (space : Space) : Prop :=
  ∀ p, Reserved p → p * pageSize < translatorBase.toNat → space.page p ≠ none

theorem guestLimit_toNat : guestLimit.toNat = 0x77ff81000000 := by decide

theorem setupInstrMem_mapped {host : Host} {space space' : Space}
    (h : setupInstrMem host space = some space') : CodeBufferMapped space' := by
  unfold setupInstrMem at h
  dsimp only at h
  split at h
  · cases h
  · rename_i hbuf
    obtain ⟨hok, hat⟩ := not_or.1 hbuf
    obtain rfl := Option.some.inj h
    intro p hp hlt
    unfold HostCall.effect
    rw [if_neg hok]
    have htouch : Touches guestLimit.toNat stackOffset.toNat p := by
      unfold Touches
      unfold Reserved at hp
      rw [guestLimit_toNat] at hp ⊢
      change _ < 0x780000000000 at hlt
      change _ ∧ _ < _ + 0x7f000000
      unfold pageSize at *
      omega
    dsimp only
    rw [not_not.1 hat, map_page_inside _ htouch]
    exact Option.some_ne_none _

end RiaJit.Runtime
