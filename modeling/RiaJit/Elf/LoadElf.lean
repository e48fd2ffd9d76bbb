import RiaJit.Parser.Parser
import RiaJit.Runtime.ProgramBreak

/-!
# The ELF loader

`mapIntoMemory` of `elf/loadElf.c`. The file does not change while it is loaded. What the
system answers is a parameter: opening, seeking and reading may fail, and a read may end early.
A struct that is read into holds whatever the stack held where the read ended early.
-/

set_option autoImplicit false

namespace RiaJit.Elf

open HostMemory RiaJit.Runtime

/-! ## Files and structs -/

/-- The contents of a file. -/
abbrev File := List (BitVec 8)

/-- The bytes of a struct. -/
abbrev Buffer := Nat → BitVec 8

/-- The little-endian number of `n` bytes at an offset. -/
def Buffer.le (b : Buffer) (off : Nat) : Nat → Nat
  | 0 => 0
  | n + 1 => (b off).toNat + 256 * b.le (off + 1) n

/-- `Elf64_Ehdr`. -/
structure Ehdr where
  eiClass : BitVec 8
  eType : BitVec 16
  eMachine : BitVec 16
  eEntry : BitVec 64
  ePhoff : BitVec 64
  eShoff : BitVec 64
  eFlags : BitVec 32
  ePhentsize : BitVec 16
  ePhnum : BitVec 16
  eShnum : BitVec 16

/-- The header that a buffer holds. -/
def Ehdr.ofBuffer (b : Buffer) : Ehdr where
  eiClass := b 4
  eType := BitVec.ofNat 16 (b.le 16 2)
  eMachine := BitVec.ofNat 16 (b.le 18 2)
  eEntry := BitVec.ofNat 64 (b.le 24 8)
  ePhoff := BitVec.ofNat 64 (b.le 32 8)
  eShoff := BitVec.ofNat 64 (b.le 40 8)
  eFlags := BitVec.ofNat 32 (b.le 48 4)
  ePhentsize := BitVec.ofNat 16 (b.le 54 2)
  ePhnum := BitVec.ofNat 16 (b.le 56 2)
  eShnum := BitVec.ofNat 16 (b.le 60 2)

/-- `sizeof(Elf64_Ehdr)`. -/
def ehdrSize : Nat := 64

/-- `Elf64_Shdr`. -/
structure Shdr where
  shFlags : BitVec 64
  shAddr : BitVec 64
  shSize : BitVec 64

/-- The section header that a buffer holds. -/
def Shdr.ofBuffer (b : Buffer) : Shdr where
  shFlags := BitVec.ofNat 64 (b.le 8 8)
  shAddr := BitVec.ofNat 64 (b.le 16 8)
  shSize := BitVec.ofNat 64 (b.le 32 8)

/-- `sizeof(Elf64_Shdr)`. -/
def shdrSize : Nat := 64

/-- `Elf64_Phdr`. -/
structure Phdr where
  pType : BitVec 32
  pOffset : BitVec 64
  pVaddr : BitVec 64
  pFilesz : BitVec 64
  pMemsz : BitVec 64

/-- The program header that a buffer holds. -/
def Phdr.ofBuffer (b : Buffer) : Phdr where
  pType := BitVec.ofNat 32 (b.le 0 4)
  pOffset := BitVec.ofNat 64 (b.le 8 8)
  pVaddr := BitVec.ofNat 64 (b.le 16 8)
  pFilesz := BitVec.ofNat 64 (b.le 32 8)
  pMemsz := BitVec.ofNat 64 (b.le 40 8)

/-- `sizeof(Elf64_Phdr)`. -/
def phdrSize : Nat := 56

/-- `PT_LOAD`. -/
def ptLoad : BitVec 32 := 1#32

/-- `PT_INTERP`. -/
def ptInterp : BitVec 32 := 3#32

/-! ## The system -/

/-- How a `read_full` goes: how many bytes it transfers at most, and whether it fails after
them. -/
structure Answer where
  limit : Nat
  failed : Bool

/-- The bytes that are transferred. -/
def Answer.transferred (ans : Answer) (file : File) (pos count : Nat) : Nat :=
  min (min ans.limit count) (file.length - pos)

/-- The result of `read_full`: the number of bytes read, or a negative error. -/
def Answer.result (ans : Answer) (file : File) (pos count : Nat) : Int :=
  if ans.failed then -5 else ans.transferred file pos count

/-- How a `read_full` into a struct goes, and what the struct held before. -/
structure StructAnswer extends Answer where
  stale : Buffer

/-- What the struct holds afterwards. -/
def StructAnswer.buffer (ans : StructAnswer) (file : File) (pos count : Nat) : Buffer := fun i =>
  if i < ans.transferred file pos count then file.getD (pos + i) 0#8 else ans.stale i

/-- The answers to the calls of `mapIntoMemory`, by where they are made. -/
structure Os where
  fd : Int
  fd2 : Int
  readEhdr : StructAnswer
  seekSh : Bool
  readShdr : Nat → StructAnswer
  seekPh : Bool
  readPhdr : Nat → StructAnswer
  seekPh2 : Bool
  readPhdr2 : Nat → StructAnswer
  seekSegment : Nat → Bool
  readSegment : Nat → Answer

/-- `lseek` to an offset: whether it succeeds. -/
def seek (ok : Bool) (offset : BitVec 64) : Prop := ok = true ∧ 0 ≤ offset.toInt

instance (ok : Bool) (offset : BitVec 64) : Decidable (seek ok offset) :=
  inferInstanceAs (Decidable (_ ∧ _))

/-! ## The layout pass -/

/-- Why nothing is loaded: `INVALID_ELF_MAP` is returned, or the translator panics. -/
inductive Refusal where
  | invalidElfMap
  | panic (reason : ExitCode)
  deriving DecidableEq, Repr

/-- `critical_not_yet_implemented` where the ABI is not supported. -/
def unsupported (flags : Flags) : Refusal :=
  if flags.failSilently then .invalidElfMap else .panic .failNotImpl

/-- The header and its checks. -/
def readHeader (flags : Flags) (os : Os) (file : File) : Except Refusal Ehdr :=
  if os.fd ≤ 0 then .error .invalidElfMap
  else if os.readEhdr.result file 0 ehdrSize ≤ 0 then .error .invalidElfMap
  else
    let header := Ehdr.ofBuffer (os.readEhdr.buffer file 0 ehdrSize)
    if header.eMachine ≠ 243#16 then .error (.panic .failIncompatible)
    else if header.eiClass ≠ 2#8 then .error (.panic .failIncompatible)
    else if header.eType ≠ 2#16 then .error (.panic .failIncompatible)
    else if header.eFlags &&& 0x1#32 ≠ 0#32 ∨ header.eFlags &&& 0x8#32 ≠ 0#32 ∨
        header.eFlags &&& 0x10#32 ≠ 0#32 then .error (unsupported flags)
    else .ok header

/-- `floatBinary`. -/
def Ehdr.floatBinary (header : Ehdr) : Prop :=
  header.eFlags &&& 0x6#32 ≠ 0#32 ∨ header.eFlags &&& 0x4#32 ≠ 0#32 ∨
    header.eFlags &&& 0x2#32 ≠ 0#32

instance (header : Ehdr) : Decidable header.floatBinary := inferInstanceAs (Decidable (_ ∨ _))

/-- `minAddrExec` and `maxAddrExec`. -/
structure ExecRange where
  minAddrExec : BitVec 64
  maxAddrExec : BitVec 64

/-- A section is taken into account. -/
def ExecRange.add (r : ExecRange) (shdr : Shdr) : ExecRange :=
  if shdr.shFlags &&& 0x4#64 ≠ 0#64 then
    { minAddrExec :=
        if r.minAddrExec = 0#64 ∨ r.minAddrExec > shdr.shAddr then shdr.shAddr
        else r.minAddrExec
      maxAddrExec :=
        if r.maxAddrExec = 0#64 ∨ r.maxAddrExec < shdr.shAddr + shdr.shSize then
          shdr.shAddr + shdr.shSize
        else r.maxAddrExec }
  else r

/-- The loop over the section headers, from the `i`-th on, which is read at `pos`. -/
def sectionLoop (os : Os) (file : File) : Nat → Nat → Nat → ExecRange → Except Refusal ExecRange
  | 0, _, _, r => .ok r
  | n + 1, i, pos, r =>
      let ans := os.readShdr i
      if ans.result file pos shdrSize ≤ 0 then .error .invalidElfMap
      else
        sectionLoop os file n (i + 1) (pos + ans.transferred file pos shdrSize)
          (r.add (Shdr.ofBuffer (ans.buffer file pos shdrSize)))

/-- `minAddr`, `maxAddr` and `load_addr`. -/
structure Layout where
  minAddr : BitVec 64
  maxAddr : BitVec 64
  loadAddr : BitVec 64

/-- The layout before the loop. -/
def Layout.init : Layout := ⟨0#64, 0#64, 0#64⟩

/-- A segment is taken into account; zero stands for what is not set. -/
def Layout.add (l : Layout) (segment : Phdr) : Layout where
  loadAddr := if l.loadAddr = 0#64 then segment.pVaddr - segment.pOffset else l.loadAddr
  minAddr :=
    if l.minAddr = 0#64 ∨ l.minAddr > segment.pVaddr then segment.pVaddr else l.minAddr
  maxAddr :=
    if l.maxAddr = 0#64 ∨ l.maxAddr < segment.pVaddr + segment.pMemsz then
      segment.pVaddr + segment.pMemsz
    else l.maxAddr

/-- The first loop over the program headers. -/
def layoutLoop (os : Os) (file : File) : Nat → Nat → Nat → Layout → Except Refusal Layout
  | 0, _, _, l => .ok l
  | n + 1, i, pos, l =>
      let ans := os.readPhdr i
      if ans.result file pos phdrSize ≤ 0 then .error .invalidElfMap
      else
        let segment := Phdr.ofBuffer (ans.buffer file pos phdrSize)
        let pos := pos + ans.transferred file pos phdrSize
        if segment.pType = ptLoad then
          if segment.pVaddr + segment.pMemsz > translatorBase then .error .invalidElfMap
          else layoutLoop os file n (i + 1) pos (l.add segment)
        else if segment.pType = ptInterp then .error .invalidElfMap
        else layoutLoop os file n (i + 1) pos l

/-- What is known before anything is mapped. -/
structure Plan where
  header : Ehdr
  exec : ExecRange
  layout : Layout

/-- `mapIntoMemory` up to the mapping. -/
def layoutPass (flags : Flags) (os : Os) (file : File) : Except Refusal Plan := do
  let header ← readHeader flags os file
  if ¬ seek os.seekSh header.eShoff then .error .invalidElfMap
  let exec ← sectionLoop os file header.eShnum.toNat 0 header.eShoff.toNat ⟨0#64, 0#64⟩
  if ¬ seek os.seekPh header.ePhoff then .error .invalidElfMap
  let layout ← layoutLoop os file header.ePhnum.toNat 0 header.ePhoff.toNat .init
  return ⟨header, exec, layout⟩

namespace Layout

/-- `startAddr`. -/
def startAddr (l : Layout) : BitVec 64 := alignDown l.minAddr

/-- `endAddr`. -/
def endAddr (l : Layout) : BitVec 64 := alignUp l.maxAddr

/-- The `mmap` of `mapIntoMemory`. -/
def call (l : Layout) : HostCall :=
  .mmap l.startAddr (l.endAddr - l.startAddr) protReadWrite
    (mapFixedNoReplace ||| mapPrivate ||| mapAnonymous) (-1#64) 0#64

end Layout

/-! ## The load pass -/

/-- The memory while segments are loaded, with the range that was mapped for them and the
ranges that were written, the latest first. -/
structure LoadState where
  space : Space
  mapped : Nat × Nat
  written : List (BitVec 64 × Nat)

/-- `read_full` into memory. -/
def LoadState.readFull (s : LoadState) (file : File) (pos : Nat) (vaddr : BitVec 64) (n : Nat) :
    LoadState where
  mapped := s.mapped
  space := { s.space with
    bytes := fun x =>
      if (x - vaddr).toNat < n then file.getD (pos + (x - vaddr).toNat) 0#8
      else s.space.bytes x }
  written := (vaddr, n) :: s.written

/-- The second loop over the program headers. The check after the read of a segment looks at
the result of the read before it, which is positive. -/
def loadLoop (os : Os) (file : File) : Nat → Nat → Nat → LoadState → Except Refusal Unit × LoadState
  | 0, _, _, s => (.ok (), s)
  | n + 1, i, pos, s =>
      let ans := os.readPhdr2 i
      let segmentBytes := ans.result file pos phdrSize
      if segmentBytes ≤ 0 then (.error .invalidElfMap, s)
      else
        let segment := Phdr.ofBuffer (ans.buffer file pos phdrSize)
        let pos := pos + ans.transferred file pos phdrSize
        if segment.pType = ptLoad then
          if ¬ seek (os.seekSegment i) segment.pOffset then (.error .invalidElfMap, s)
          else
            let transferred := (os.readSegment i).transferred file segment.pOffset.toNat
              segment.pFilesz.toNat
            let s := s.readFull file segment.pOffset.toNat segment.pVaddr transferred
            -- the header's count is tested again, and not that of the segment
            if segmentBytes ≤ 0 then (.error .invalidElfMap, s)
            else loadLoop os file n (i + 1) pos s
        else loadLoop os file n (i + 1) pos s

/-- `t_risc_elf_map_result`, where `valid` is true. -/
structure MapResult where
  entry : BitVec 64
  phdr : BitVec 64
  phCount : BitVec 16
  phEntsize : BitVec 16
  dataEnd : BitVec 64
  execStart : BitVec 64
  execEnd : BitVec 64
  floatBinary : Bool

/-- The result of a plan that was carried out. -/
def Plan.result (plan : Plan) : MapResult where
  entry := plan.header.eEntry
  phdr := plan.layout.loadAddr + plan.header.ePhoff
  phCount := plan.header.ePhnum
  phEntsize := plan.header.ePhentsize
  dataEnd := plan.layout.endAddr
  execStart := plan.exec.minAddrExec
  execEnd := plan.exec.maxAddrExec
  floatBinary := plan.header.floatBinary

/-- `mapIntoMemory` after the mapping. -/
def loadPass (os : Os) (file : File) (plan : Plan) (s : LoadState) :
    Except Refusal MapResult × LoadState :=
  if ¬ seek os.seekPh2 plan.header.ePhoff then (.error .invalidElfMap, s)
  else if os.fd2 ≤ 0 then (.error .invalidElfMap, s)
  else
    let (r, s) := loadLoop os file plan.header.ePhnum.toNat 0 plan.header.ePhoff.toNat s
    (r.map fun _ => plan.result, s)

/-- `mapIntoMemory`: the result, and the memory with the ranges that were written. -/
def mapIntoMemory (flags : Flags) (os : Os) (host : Host) (file : File) (space : Space) :
    Except Refusal MapResult × LoadState :=
  match layoutPass flags os file with
  | .error reason => (.error reason, ⟨space, (0, 0), []⟩)
  | .ok plan =>
      let elf := (host plan.layout.call space).result
      let s : LoadState :=
        ⟨plan.layout.call.effect (host plan.layout.call space) space,
          (elf.toNat, (plan.layout.endAddr - plan.layout.startAddr).toNat), []⟩
      if isError elf then (.error .invalidElfMap, s)
      else if elf ≠ plan.layout.startAddr then (.error .invalidElfMap, s)
      else loadPass os file plan s

end RiaJit.Elf
