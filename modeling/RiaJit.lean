import RiaJit.Cache.Refinement
import RiaJit.Parser.Encoding
import RiaJit.Gen.Arithmetic
import RiaJit.Guest.Rv64i
import RiaJit.X86.Code
import RiaJit.Gen.Emit
import RiaJit.Gen.ControlFlow
import RiaJit.Gen.Translate
import RiaJit.Gen.ParseBlock
import RiaJit.Gen.InProgress
import RiaJit.Gen.Termination
import RiaJit.Gen.EmittedCode
import RiaJit.Gen.JumpTargets
import RiaJit.Gen.TranscodeLoop
import RiaJit.Gen.Operands
import RiaJit.Lib.HostMemory
import RiaJit.Runtime.EmulateEcall
import RiaJit.X86.Conditions
import RiaJit.Runtime.GuestMappings
import RiaJit.Runtime.ProgramBreak
import RiaJit.Gen.Fusion
import RiaJit.Gen.Computation
import RiaJit.Gen.BlockSimulation
import RiaJit.Gen.LocalJumps
import RiaJit.Guest.Rv64m
import RiaJit.Gen.MulDiv
import RiaJit.Gen.CodeLength
import RiaJit.Gen.PairOperands
import RiaJit.Gen.Division
import RiaJit.Gen.UpperProduct
import RiaJit.Gen.IncrementFusion
import RiaJit.Gen.ConstantFusion
import RiaJit.Gen.Idioms
import RiaJit.Gen.UpperFusion
import RiaJit.Gen.Csr
import RiaJit.Runtime.ManualCsrr
import RiaJit.Parser.Rejected
import RiaJit.Gen.Speculation
import RiaJit.Runtime.MmapHints
import RiaJit.Elf.LoadElf
import RiaJit.Elf.Refused
import RiaJit.Elf.Loading
import RiaJit.Elf.CopyArgs
import RiaJit.Elf.InitialStack
import RiaJit.Gen.FpArithmetic
import RiaJit.Gen.FpRouting
import RiaJit.Cache.Probing
import RiaJit.Gen.Allocator
import RiaJit.Lib.ForwardJumps
import RiaJit.Lib.Ieee
import RiaJit.X86.FpMachine
import RiaJit.Gen.FpCode
import RiaJit.Guest.Rv64fd
import RiaJit.Gen.FpCompare
import RiaJit.Gen.FpInject
import RiaJit.Gen.FpClass
import RiaJit.Gen.FpExtremum
import RiaJit.Gen.FpRound
import RiaJit.Gen.FpConvert
import RiaJit.Lib.Rounding
import RiaJit.X86.RoundedArithmetic
import RiaJit.Gen.FpOfInt
import RiaJit.Gen.FpToInt
import RiaJit.Gen.FpDependence
import RiaJit.Gen.FpSaturation
import RiaJit.Gen.FpRouted
import RiaJit.Gen.FpScope
import RiaJit.Lib.Checkpoints
import RiaJit.Guest.ControlFlow
import RiaJit.Parser.RegisterOperands
import RiaJit.X86.LinkedCode
import RiaJit.Gen.Exits
import RiaJit.Gen.Tails
import RiaJit.Gen.JumpTails
import RiaJit.Gen.BranchTail
import RiaJit.Gen.Assembly
import RiaJit.Gen.Lookahead
import RiaJit.Gen.LinkedBlock
import RiaJit.Gen.LaidOut
import RiaJit.Lib.Moves
import RiaJit.Main.Context
import RiaJit.Main.Dispatcher
import RiaJit.Main.Execution
import RiaJit.Main.Runs
import RiaJit.Guest.Rv64a
import RiaJit.Gen.AtomicBlocks
