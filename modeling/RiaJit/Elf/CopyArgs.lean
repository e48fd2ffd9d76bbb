import RiaJit.Elf.LoadElf
import RiaJit.Lib.WordStack
import RiaJit.Runtime.MmapHints
import RiaJit.Util.Memory

/-!
# The initial stack of the guest

`copyArgsToStack` and `createStack` of `elf/loadElf.c`. The strings stay where they are, only
the pointers to them are copied.
-/

set_option autoImplicit false

namespace RiaJit.Elf

open HostMemory WordStack RiaJit.Runtime

/-! ## Arguments and environment -/

/-- `envp`, without the null pointer that ends it. The pointers are counted by an `int`. -/
structure Environ where
  envp : List (BitVec 64)
  nonNull : ∀ p ∈ envp, p ≠ 0#64
  count : envp.length < 2 ^ 31

/-- `guestArgc` and `guestArgv`, without the null pointer that ends it. -/
structure GuestArgs where
  guestArgv : List (BitVec 64)
  count : guestArgv.length < 2 ^ 31

namespace Environ

/-- `envc`. -/
def envc (env : Environ) : BitVec 32 := BitVec.ofNat 32 env.envp.length

end Environ

namespace GuestArgs

/-- `guestArgc`. -/
def guestArgc (args : GuestArgs) : BitVec 32 := BitVec.ofNat 32 args.guestArgv.length

/-- `guestArgv[0]`. -/
def execFn (args : GuestArgs) : BitVec 64 := args.guestArgv.headD 0#64

end GuestArgs

/-! ## The auxiliary vector -/

/-- `Elf64_auxv_t`: `a_type` and `a_un.a_val`. -/
abbrev AuxEntry := BitVec 64 × BitVec 64

/-- `AT_NULL`. -/
def atNull : BitVec 64 := 0#64
/-- `AT_PHDR`. -/
def atPhdr : BitVec 64 := 3#64
/-- `AT_PHENT`. -/
def atPhent : BitVec 64 := 4#64
/-- `AT_PHNUM`. -/
def atPhnum : BitVec 64 := 5#64
/-- `AT_PAGESZ`. -/
def atPagesz : BitVec 64 := 6#64
/-- `AT_ENTRY`. -/
def atEntry : BitVec 64 := 9#64
/-- `AT_UID`. -/
def atUid : BitVec 64 := 11#64
/-- `AT_EUID`. -/
def atEuid : BitVec 64 := 12#64
/-- `AT_GID`. -/
def atGid : BitVec 64 := 13#64
/-- `AT_EGID`. -/
def atEgid : BitVec 64 := 14#64
/-- `AT_HWCAP`. -/
def atHwcap : BitVec 64 := 16#64
/-- `AT_CLKTCK`. -/
def atClktck : BitVec 64 := 17#64
/-- `AT_SECURE`. -/
def atSecure : BitVec 64 := 23#64
/-- `AT_RANDOM`. -/
def atRandom : BitVec 64 := 25#64
/-- `AT_HWCAP2`. -/
def atHwcap2 : BitVec 64 := 26#64
/-- `AT_EXECFN`. -/
def atExecfn : BitVec 64 := 31#64

/-- `AUXC`. -/
def auxc : Nat := 16

/-- The entries, in the order in which they are put on the stack. -/
def auxEntries (getauxval : BitVec 64 → BitVec 64) (args : GuestArgs) (mapInfo : MapResult) :
    List AuxEntry :=
  [(atNull, 0#64),
    (atEntry, mapInfo.entry),
    (atPhdr, mapInfo.phdr),
    (atPhnum, mapInfo.phCount.setWidth 64),
    (atPhent, mapInfo.phEntsize.setWidth 64),
    (atUid, getauxval atUid),
    (atGid, getauxval atGid),
    (atEgid, getauxval atEgid),
    (atEuid, getauxval atEuid),
    (atClktck, getauxval atClktck),
    (atRandom, getauxval atRandom),
    (atSecure, 0#64),
    (atPagesz, 4096#64),
    (atHwcap, 0#64),
    (atHwcap2, 0#64),
    (atExecfn, args.execFn)]

/-! ## The copy -/

/-- Memory as words of eight bytes. -/
def wordAccess : WordAccess Memory (BitVec 64) 8 where
  load := fun mem a => mem.load .m64 a
  store := fun mem a w => mem.store .m64 a w
  load_same := Memory.load_store
  load_apart := fun _ _ _ _ h h' => Memory.load_store_apart h h'

/-- The stack of the guest. -/
abbrev GuestStack := Stack Memory

namespace GuestStack

/-- A word is put on the stack. -/
def push (s : GuestStack) (w : BitVec 64) : GuestStack := Stack.push wordAccess s w

/-- An entry of the auxiliary vector is put on the stack. -/
def pushAux (s : GuestStack) (entry : AuxEntry) : GuestStack := push (push s entry.2) entry.1

end GuestStack

/-- `ALIGN_UP(value, 16lu)`. -/
def alignUp16 (value : BitVec 64) : BitVec 64 := (value + 15#64) &&& ~~~15#64

/-- `totalStackSize`. -/
def totalStackSize (env : Environ) (args : GuestArgs) : BitVec 64 :=
  BitVec.ofNat 64 (16 * auxc) + 8#64 * (env.envc + 1#32).signExtend 64 +
    8#64 * (args.guestArgc + 1#32).signExtend 64 + 8#64

/-- `copyArgsToStack`: the address that is returned, and the stack. -/
def copyArgsToStack (getauxval : BitVec 64 → BitVec 64) (mem : Memory) (stackPos : BitVec 64)
    (env : Environ) (args : GuestArgs) (mapInfo : MapResult) : BitVec 64 × GuestStack :=
  let total := totalStackSize env args
  let stackOffset := alignUp16 total - total
  let stackPos := stackPos - stackOffset
  let s : GuestStack :=
    (auxEntries getauxval args mapInfo).foldl GuestStack.pushAux ⟨mem, stackPos, []⟩
  -- the size was counted with `AUXC` entries
  if stackPos - BitVec.ofNat 64 (16 * auxc) ≠ s.pos then (0#64, s)
  else
    -- the environment and the arguments end in a null pointer each
    let s := GuestStack.push s 0#64
    let s := env.envp.reverse.foldl GuestStack.push s
    let s := GuestStack.push s 0#64
    let s := args.guestArgv.reverse.foldl GuestStack.push s
    let s := GuestStack.push s (args.guestArgc.signExtend 64)
    (s.pos, s)

/-- `createStack`. -/
def createStack (getauxval : BitVec 64 → BitVec 64) (host : Host) (stackSize : BitVec 64)
    (env : Environ) (args : GuestArgs) (mapInfo : MapResult) (space : Space) :
    BitVec 64 × Memory :=
  let (stack, space) := allocateStack host stackSize space
  if stack = 0#64 then (invalidStack, space.bytes)
  else
    let (pos, s) := copyArgsToStack getauxval space.bytes stack env args mapInfo
    (pos, s.mem)

end RiaJit.Elf
