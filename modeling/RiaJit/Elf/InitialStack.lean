import RiaJit.Elf.CopyArgs

/-!
# Reading the initial stack

What a program that follows the System V ABI finds on the stack that `copyArgsToStack` sets up.
-/

set_option autoImplicit false

namespace RiaJit.Elf

open WordStack RiaJit.Runtime

/-! ## Reading the stack -/

/-- What a program finds on its stack. -/
structure InitialStack where
  argc : BitVec 64
  argv : List (BitVec 64)
  envp : List (BitVec 64)
  auxv : List AuxEntry

/-- `n` words from an address on. -/
def readWords (mem : Memory) : Nat → BitVec 64 → List (BitVec 64)
  | 0, _ => []
  | n + 1, a => mem.load .m64 a :: readWords mem n (a + 8#64)

/-- Pointers up to a null pointer, and the address after it. -/
def readPointers (mem : Memory) : Nat → BitVec 64 → Option (List (BitVec 64) × BitVec 64)
  | 0, _ => none
  | fuel + 1, a =>
      if mem.load .m64 a = 0#64 then some ([], a + 8#64)
      else (readPointers mem fuel (a + 8#64)).map fun (ps, a') => (mem.load .m64 a :: ps, a')

/-- The entries of an auxiliary vector, `AT_NULL` included. -/
def readAuxv (mem : Memory) : Nat → BitVec 64 → Option (List AuxEntry)
  | 0, _ => none
  | fuel + 1, a =>
      let entry := (mem.load .m64 a, mem.load .m64 (a + 8#64))
      if entry.1 = atNull then some [entry]
      else (readAuxv mem fuel (a + 16#64)).map (entry :: ·)

/-- The layout of the System V ABI, from the stack pointer upwards. -/
def readStack (mem : Memory) (fuel : Nat) (sp : BitVec 64) : Option InitialStack :=
  let argc := mem.load .m64 sp
  let argv := readWords mem argc.toNat (sp + 8#64)
  let afterArgv := sp + 8#64 + 8#64 * argc
  if mem.load .m64 afterArgv = 0#64 then
    (readPointers mem fuel (afterArgv + 8#64)).bind fun (envp, a) =>
      (readAuxv mem fuel a).map fun auxv => ⟨argc, argv, envp, auxv⟩
  else none

/-! ## From words to what is read -/

section Reading

variable {mem : Memory}

/-- The words of an auxiliary vector, upwards. -/
def auxWords (entries : List AuxEntry) : List (BitVec 64) := entries.flatMap fun e => [e.1, e.2]

theorem word_after (a : BitVec 64) (n : Nat) :
    a + 8#64 + BitVec.ofNat 64 (8 * n) = a + BitVec.ofNat 64 (8 * (n + 1)) := by
  rw [BitVec.add_assoc, ← BitVec.ofNat_add, Nat.mul_succ, Nat.add_comm]

theorem readPointers_succ (mem : Memory) (fuel : Nat) (a : BitVec 64) :
    readPointers mem (fuel + 1) a =
      if mem.load .m64 a = 0#64 then some ([], a + 8#64)
      else (readPointers mem fuel (a + 8#64)).map fun r => (mem.load .m64 a :: r.1, r.2) := rfl

theorem readAuxv_succ (mem : Memory) (fuel : Nat) (a : BitVec 64) :
    readAuxv mem (fuel + 1) a =
      if mem.load .m64 a = atNull then some [(mem.load .m64 a, mem.load .m64 (a + 8#64))]
      else (readAuxv mem fuel (a + 16#64)).map
        ((mem.load .m64 a, mem.load .m64 (a + 8#64)) :: ·) := rfl

theorem readWords_of_words {ws vs : List (BitVec 64)} {a : BitVec 64}
    (h : Words wordAccess mem a (ws ++ vs)) : readWords mem ws.length a = ws := by
  induction ws generalizing a with
  | nil => rfl
  | cons w ws ih =>
      obtain ⟨hhead, htail⟩ := h
      unfold List.length readWords
      rw [ih htail]
      exact congrArg (· :: ws) hhead

theorem readPointers_of_words {ps vs : List (BitVec 64)} {a : BitVec 64} {fuel : Nat}
    (h : Words wordAccess mem a (ps ++ 0#64 :: vs)) (hps : ∀ p ∈ ps, p ≠ 0#64)
    (hfuel : ps.length < fuel) :
    readPointers mem fuel a = some (ps, a + BitVec.ofNat 64 (8 * (ps.length + 1))) := by
  induction ps generalizing a fuel with
  | nil =>
      cases fuel with
      | zero => exact absurd hfuel (Nat.lt_irrefl 0)
      | succ fuel => exact if_pos h.1
  | cons p ps ih =>
      cases fuel with
      | zero => exact absurd hfuel (Nat.not_lt_zero _)
      | succ fuel =>
          obtain ⟨hhead, htail⟩ := h
          have hp := hps p List.mem_cons_self
          have hload : mem.load .m64 a = p := hhead
          have hrest := ih htail (fun q hq => hps q (List.mem_cons_of_mem p hq))
            (Nat.lt_of_succ_lt_succ hfuel)
          rw [readPointers_succ, hload, if_neg hp, hrest, word_after]
          rfl

theorem readAuxv_of_words {entries : List AuxEntry} {last : AuxEntry} {a : BitVec 64} {fuel : Nat}
    (h : Words wordAccess mem a (auxWords (entries ++ [last]))) (hlast : last.1 = atNull)
    (hentries : ∀ e ∈ entries, e.1 ≠ atNull) (hfuel : entries.length < fuel) :
    readAuxv mem fuel a = some (entries ++ [last]) := by
  induction entries generalizing a fuel with
  | nil =>
      cases fuel with
      | zero => exact absurd hfuel (Nat.lt_irrefl 0)
      | succ fuel =>
          obtain ⟨htype, hvalue, -⟩ := h
          have htype : mem.load .m64 a = last.1 := htype
          have hvalue : mem.load .m64 (a + 8#64) = last.2 := hvalue
          rw [readAuxv_succ, htype, hvalue, if_pos hlast]
          rfl
  | cons entry entries ih =>
      cases fuel with
      | zero => exact absurd hfuel (Nat.not_lt_zero _)
      | succ fuel =>
          obtain ⟨htype, hvalue, hrest⟩ := h
          have htype : mem.load .m64 a = entry.1 := htype
          have hvalue : mem.load .m64 (a + 8#64) = entry.2 := hvalue
          have hnext : a + BitVec.ofNat 64 8 + BitVec.ofNat 64 8 = a + 16#64 :=
            BitVec.add_assoc _ _ _
          rw [hnext] at hrest
          have htail := ih hrest (fun e he => hentries e (List.mem_cons_of_mem entry he))
            (Nat.lt_of_succ_lt_succ hfuel)
          rw [readAuxv_succ, htype, hvalue, if_neg (hentries entry List.mem_cons_self), htail]
          rfl

/-- Words that are laid out as the ABI wants them are read as what they stand for. -/
theorem readStack_of_words {sp : BitVec 64} {argv envp : List (BitVec 64)}
    {entries : List AuxEntry} {last : AuxEntry} {fuel : Nat} (hargv : argv.length < 2 ^ 31)
    (h : Words wordAccess mem sp (BitVec.ofNat 64 argv.length ::
      (argv ++ 0#64 :: (envp ++ 0#64 :: auxWords (entries ++ [last])))))
    (henvp : ∀ p ∈ envp, p ≠ 0#64) (hlast : last.1 = atNull)
    (hentries : ∀ e ∈ entries, e.1 ≠ atNull) (hfuel : envp.length < fuel)
    (hfuel' : entries.length < fuel) :
    readStack mem fuel sp =
      some ⟨BitVec.ofNat 64 argv.length, argv, envp, entries ++ [last]⟩ := by
  obtain ⟨hargc, hafter⟩ := h
  have hload : mem.load .m64 sp = BitVec.ofNat 64 argv.length := hargc
  have hcount : (BitVec.ofNat 64 argv.length).toNat = argv.length := by
    rw [BitVec.toNat_ofNat]
    omega
  have hread := readWords_of_words hafter
  obtain ⟨-, hnull, henv⟩ := words_append.1 hafter
  -- where the reader goes on after the arguments, and after the environment
  have hpast : sp + BitVec.ofNat 64 8 + BitVec.ofNat 64 (8 * argv.length) =
      sp + 8#64 + 8#64 * BitVec.ofNat 64 argv.length := by
    rw [BitVec.ofNat_mul]
  rw [hpast] at hnull henv
  have hpointers := readPointers_of_words henv henvp hfuel
  rw [words_append] at henv
  obtain ⟨-, -, haux⟩ := henv
  have hauxv := readAuxv_of_words haux hlast hentries hfuel'
  have hstart : sp + 8#64 + 8#64 * BitVec.ofNat 64 argv.length + 8#64 +
      BitVec.ofNat 64 (8 * envp.length) + BitVec.ofNat 64 8 =
      sp + 8#64 + 8#64 * BitVec.ofNat 64 argv.length + 8#64 +
        BitVec.ofNat 64 (8 * (envp.length + 1)) := by
    rw [Nat.mul_succ, BitVec.ofNat_add, BitVec.add_assoc]
  rw [hstart] at hauxv
  unfold readStack
  dsimp only
  rw [hload, hcount, hread]
  have hnull' : mem.load .m64 (sp + 8#64 + 8#64 * BitVec.ofNat 64 argv.length) = 0#64 := hnull
  rw [if_pos hnull']
  change (readPointers mem fuel (_ + 8#64)).bind _ = _
  rw [hpointers]
  change (readAuxv mem fuel _).map _ = _
  rw [hauxv]
  rfl

end Reading

/-! ## The words that are pushed -/

section Pushed

variable {getauxval : BitVec 64 → BitVec 64} {env : Environ} {args : GuestArgs}
  {mapInfo : MapResult}

/-- What is put on the stack, upwards. -/
def stackWords (getauxval : BitVec 64 → BitVec 64) (env : Environ) (args : GuestArgs)
    (mapInfo : MapResult) : List (BitVec 64) :=
  BitVec.ofNat 64 args.guestArgv.length ::
    (args.guestArgv ++ 0#64 ::
      (env.envp ++ 0#64 :: auxWords (auxEntries getauxval args mapInfo).reverse))

/-- No entry but the first that is pushed ends the vector. -/
theorem auxEntries_ne_null (getauxval : BitVec 64 → BitVec 64) (args : GuestArgs)
    (mapInfo : MapResult) :
    ∀ e ∈ (auxEntries getauxval args mapInfo).tail.reverse, e.1 ≠ atNull := by
  intro e he
  obtain ⟨types, htypes, hall⟩ : ∃ types, (auxEntries getauxval args mapInfo).tail.map Prod.fst =
      types ∧ atNull ∉ types :=
    ⟨[atEntry, atPhdr, atPhnum, atPhent, atUid, atGid, atEgid, atEuid, atClktck, atRandom,
      atSecure, atPagesz, atHwcap, atHwcap2, atExecfn], rfl, by decide⟩
  intro hnull
  apply hall
  rw [← htypes, ← hnull]
  exact List.mem_map_of_mem (List.mem_reverse.1 he)

theorem auxWords_length (entries : List AuxEntry) :
    (auxWords entries).length = 2 * entries.length := by
  induction entries with
  | nil => rfl
  | cons e entries ih =>
      show (auxWords entries).length + 1 + 1 = _
      rw [ih, List.length_cons]
      omega

/-- The number of words on the stack. -/
theorem stackWords_length :
    (stackWords getauxval env args mapInfo).length =
      2 * auxc + (env.envp.length + 1) + (args.guestArgv.length + 1) + 1 := by
  simp only [stackWords, List.length_cons, List.length_append, auxWords_length,
    List.length_reverse]
  show args.guestArgv.length + (env.envp.length + (2 * 16 + 1) + 1) + 1 = _
  unfold auxc
  omega

theorem foldl_pushAux (s : GuestStack) (entries : List AuxEntry) :
    entries.foldl GuestStack.pushAux s =
      s.pushAll wordAccess (auxWords entries.reverse).reverse := by
  induction entries generalizing s with
  | nil => rfl
  | cons e entries ih =>
      have hwords : (auxWords (e :: entries).reverse).reverse =
          [e.2, e.1] ++ (auxWords entries.reverse).reverse := by
        simp [auxWords]
      rw [List.foldl_cons, ih, hwords, Stack.pushAll_append]
      rfl

/-- The value that is pushed for `guestArgc`. -/
theorem GuestArgs.guestArgc_signExtend (args : GuestArgs) :
    args.guestArgc.signExtend 64 = BitVec.ofNat 64 args.guestArgv.length := by
  have hcount := args.count
  have hnat : args.guestArgc.toNat = args.guestArgv.length := by
    unfold guestArgc
    rw [BitVec.toNat_ofNat]
    omega
  have hmsb : args.guestArgc.msb = false := by
    rw [BitVec.msb_eq_false_iff_two_mul_lt, hnat]
    omega
  rw [BitVec.signExtend_eq_setWidth_of_msb_false hmsb]
  apply BitVec.eq_of_toNat_eq
  rw [BitVec.toNat_setWidth, hnat, BitVec.toNat_ofNat]

/-- The check of the auxiliary vector passes, and all words are pushed. -/
theorem copyArgsToStack_eq (mem : Memory) (stackPos : BitVec 64) :
    copyArgsToStack getauxval mem stackPos env args mapInfo =
      let s := Stack.pushAll wordAccess
        ⟨mem, stackPos - (alignUp16 (totalStackSize env args) - totalStackSize env args), []⟩
        (stackWords getauxval env args mapInfo).reverse
      (s.pos, s) := by
  have hreverse : (stackWords getauxval env args mapInfo).reverse =
      (auxWords (auxEntries getauxval args mapInfo).reverse).reverse ++ ([0#64] ++
        (env.envp.reverse ++ ([0#64] ++ (args.guestArgv.reverse ++
          [BitVec.ofNat 64 args.guestArgv.length])))) := by
    simp [stackWords]
  unfold copyArgsToStack
  dsimp only
  rw [foldl_pushAux, Stack.pushAll_pos, List.length_reverse, auxWords_length,
    args.guestArgc_signExtend, hreverse]
  have hcheck : 8 * (2 * (auxEntries getauxval args mapInfo).reverse.length) = 16 * auxc := rfl
  rw [hcheck, if_neg (not_not.2 rfl)]
  simp only [Stack.pushAll_append]
  rfl

/-! ## Padding -/

/-- The bytes on the stack before padding. -/
def stackBytes (env : Environ) (args : GuestArgs) : Nat :=
  8 * (2 * auxc + (env.envp.length + 1) + (args.guestArgv.length + 1) + 1)

/-- The bytes between the stack pointer and the top of the stack. -/
def frameSize (env : Environ) (args : GuestArgs) : Nat :=
  stackBytes env args + (16 - stackBytes env args % 16) % 16

/-- What is missing to a multiple of 16, also where the sum wraps. -/
theorem alignUp16_sub (t : BitVec 64) :
    (alignUp16 t - t).toNat = (16 - t.toNat % 16) % 16 := by
  have hclear : (alignUp16 t).toNat = (t + 15#64).toNat / 16 * 16 := and_not_low (t + 15#64) 4
  have hlt := t.isLt
  rw [BitVec.toNat_sub, hclear, BitVec.toNat_add, show (15#64).toNat = 15 from rfl]
  omega

/-- A count of pointers as the code computes it: the sum is an `int`, and only its lowest bit
matters for the padding. -/
theorem countBytes_mod {n : Nat} (h : n < 2 ^ 31) :
    (8#64 * (BitVec.ofNat 32 n + 1#32).signExtend 64).toNat % 16 = 8 * (n + 1) % 16 := by
  have hsum : (BitVec.ofNat 32 n + 1#32).toNat = n + 1 := by
    rw [BitVec.toNat_add, BitVec.toNat_ofNat, show (1#32).toNat = 1 from rfl]
    omega
  rw [BitVec.toNat_mul, BitVec.toNat_signExtend, BitVec.toNat_setWidth, hsum,
    show (8#64).toNat = 8 from rfl]
  split
  · omega
  · omega

theorem totalStackSize_mod (env : Environ) (args : GuestArgs) :
    (totalStackSize env args).toNat % 16 = stackBytes env args % 16 := by
  have henv := countBytes_mod env.count
  have hargs := countBytes_mod args.count
  unfold totalStackSize stackBytes Environ.envc GuestArgs.guestArgc auxc
  rw [BitVec.toNat_add, BitVec.toNat_add, BitVec.toNat_add,
    show (BitVec.ofNat 64 (16 * 16)).toNat = 256 from rfl, show (8#64).toNat = 8 from rfl]
  omega

theorem frameSize_lt (env : Environ) (args : GuestArgs) : frameSize env args < 2 ^ 64 := by
  have henv := env.count
  have hargs := args.count
  unfold frameSize stackBytes auxc
  omega

end Pushed

/-! ## The round trip -/

/-- The stack pointer `r.1` is aligned, the stack of `r.2` reads as what was copied, and all
words were written between the two, by addresses that do not wrap if the stack is large
enough. -/
structure Copied (stackPos : BitVec 64) (env : Environ) (args : GuestArgs) (mapInfo : MapResult)
    (r : BitVec 64 × GuestStack) : Prop where
  aligned : 16 ∣ r.1.toNat
  read : ∃ auxv, (∀ fuel, env.envp.length < fuel → auxc ≤ fuel →
      readStack r.2.mem fuel r.1 =
        some ⟨BitVec.ofNat 64 args.guestArgv.length, args.guestArgv, env.envp, auxv⟩) ∧
    auxv.length = auxc ∧ auxv.lookup atEntry = some mapInfo.entry ∧
    auxv.lookup atPhdr = some mapInfo.phdr ∧
    auxv.lookup atPhnum = some (mapInfo.phCount.setWidth 64) ∧
    auxv.lookup atPhent = some (mapInfo.phEntsize.setWidth 64)
  written : ∀ a ∈ r.2.written, (a - r.1).toNat + 8 ≤ (stackPos - r.1).toNat
  unwrapped : frameSize env args ≤ stackPos.toNat →
    ∀ a ∈ r.2.written, r.1.toNat ≤ a.toNat ∧ a.toNat + 8 ≤ stackPos.toNat

/-- The padding is what the frame has more than the words. -/
theorem padding_toNat (env : Environ) (args : GuestArgs) :
    (alignUp16 (totalStackSize env args) - totalStackSize env args).toNat + stackBytes env args =
      frameSize env args := by
  rw [alignUp16_sub, totalStackSize_mod, Nat.add_comm]
  rfl

theorem stackBytes_le (env : Environ) (args : GuestArgs) :
    stackBytes env args ≤ frameSize env args := Nat.le_add_right _ _

/-- The stack that is returned: all words lie at its end, and none was written elsewhere. -/
theorem copyArgsToStack_stack (getauxval : BitVec 64 → BitVec 64) (mem : Memory)
    (stackPos : BitVec 64) (env : Environ) (args : GuestArgs) (mapInfo : MapResult) :
    ∃ s : GuestStack, copyArgsToStack getauxval mem stackPos env args mapInfo = (s.pos, s) ∧
      s.pos = stackPos - BitVec.ofNat 64 (frameSize env args) ∧
      Words wordAccess s.mem s.pos (stackWords getauxval env args mapInfo) ∧
      ∀ a ∈ s.written, (a - s.pos).toNat + 8 ≤ frameSize env args := by
  have hpad := padding_toNat env args
  have hbytes := stackBytes_le env args
  have hframe := frameSize_lt env args
  have hlength : 8 * (stackWords getauxval env args mapInfo).reverse.length =
      stackBytes env args := by
    rw [List.length_reverse, stackWords_length]
    rfl
  refine ⟨_, copyArgsToStack_eq mem stackPos, ?_, ?_, fun a ha => ?_⟩
  · rw [Stack.pushAll_pos, hlength]
    bv_omega
  · apply words_pushAll_reverse
    rw [List.length_reverse] at hlength
    omega
  · -- nothing was written before the first word
    rcases Stack.pushAll_written (by omega) ha with hnone | hafter
    · exact absurd hnone List.not_mem_nil
    · rw [hlength] at hafter
      exact hafter.trans hbytes

/-- Words laid out as `copyArgsToStack` does are read as what was copied. -/
theorem readStack_stackWords {getauxval : BitVec 64 → BitVec 64} {mem : Memory} {sp : BitVec 64}
    {env : Environ} {args : GuestArgs} {mapInfo : MapResult} {fuel : Nat}
    (h : Words wordAccess mem sp (stackWords getauxval env args mapInfo))
    (hfuel : env.envp.length < fuel) (hfuel' : auxc ≤ fuel) :
    readStack mem fuel sp = some ⟨BitVec.ofNat 64 args.guestArgv.length, args.guestArgv, env.envp,
      (auxEntries getauxval args mapInfo).reverse⟩ := by
  -- the entry that ends the vector was pushed first
  have hsplit : (auxEntries getauxval args mapInfo).reverse =
      (auxEntries getauxval args mapInfo).tail.reverse ++ [(atNull, 0#64)] := rfl
  unfold stackWords at h
  rw [hsplit] at h ⊢
  apply readStack_of_words args.count h env.nonNull rfl
  · exact auxEntries_ne_null getauxval args mapInfo
  · exact hfuel
  · exact hfuel'

/-- Whatever is copied to an aligned stack is read back from the address that is returned. -/
theorem copyArgsToStack_roundTrip (getauxval : BitVec 64 → BitVec 64) (mem : Memory)
    (stackPos : BitVec 64) (env : Environ) (args : GuestArgs) (mapInfo : MapResult)
    (haligned : 16 ∣ stackPos.toNat) :
    Copied stackPos env args mapInfo
      (copyArgsToStack getauxval mem stackPos env args mapInfo) := by
  obtain ⟨s, heq, hpos, hwords, hwritten⟩ :=
    copyArgsToStack_stack getauxval mem stackPos env args mapInfo
  have hframe := frameSize_lt env args
  have hdvd : frameSize env args % 16 = 0 := by
    unfold frameSize
    omega
  have hsub : (stackPos - s.pos).toNat = frameSize env args := by
    rw [hpos]
    bv_omega
  rw [heq]
  constructor
  · dsimp only
    rw [hpos, BitVec.toNat_sub, BitVec.toNat_ofNat]
    omega
  · exact ⟨_, fun fuel hfuel hfuel' => readStack_stackWords hwords hfuel hfuel', rfl, rfl, rfl, rfl,
      rfl⟩
  · intro a ha
    dsimp only
    rw [hsub]
    exact hwritten a ha
  · intro hfits a ha
    have hoff := hwritten a ha
    dsimp only
    bv_omega

theorem copyArgsToStack_roundTrip_small :
    Copied 0x10000#64 ⟨[0x100#64], by simp, by decide⟩ ⟨[0x200#64, 0x210#64], by decide⟩
      ⟨0x10078#64, 0x10040#64, 3, 56, 0x20000#64, 0#64, 0#64, false⟩
      (copyArgsToStack (fun _ => 1000#64) (fun _ => 0#8) 0x10000#64
        ⟨[0x100#64], by simp, by decide⟩ ⟨[0x200#64, 0x210#64], by decide⟩
        ⟨0x10078#64, 0x10040#64, 3, 56, 0x20000#64, 0#64, 0#64, false⟩) :=
  copyArgsToStack_roundTrip _ _ _ _ _ _ (by decide)

end RiaJit.Elf
