import RiaJit.Gen.BranchTail
import RiaJit.X86.CodeMemory

/-!
# Code that the assembler accepts

The assembler rejects an instruction for an immediate, an address or a displacement that does
not fit 32 bits. A jump from one place of the instruction memory to another fits, and so does
what the parser leaves in an entry; what is left are the guest addresses that an exit of a block
stores. Together with the number of instructions that every emitter takes at most, this says
which blocks are emitted without an error and how much of the instruction memory they need.
-/

set_option autoImplicit false

namespace RiaJit

open EmitLogic X86

namespace X86

/-! ## Displacements -/

/-- A displacement within two gibibytes fits into 32 bits. -/
theorem fitsInt32_of_toInt {x : BitVec 64} (hlo : -2147483648 ≤ x.toInt)
    (hhi : x.toInt < 2147483648) : FeInstr.fitsInt32 x = true := by
  refine beq_iff_eq.2 (BitVec.eq_of_toInt_eq ?_)
  rw [BitVec.toInt_signExtend_of_le (by decide), BitVec.toInt_setWidth]
  have hlt := x.isLt
  rw [BitVec.toInt_eq_toNat_cond] at hlo hhi ⊢
  rw [Int.bmod_def]
  split at hlo <;> omega

/-- A jump reaches from an address to one that is less than 2 GiB away. -/
theorem jumpForm_near (enc : Encoder) {a target : BitVec 64} {lo hi : Nat}
    (hlo : lo ≤ a.toNat ∧ lo ≤ target.toNat) (hhi : a.toNat ≤ hi ∧ target.toNat ≤ hi)
    (hnear : hi + 16 ≤ lo + 2147483648) (hbound : hi + 16 < 2 ^ 63) (cond : Option Cond)
    (jmpl : Bool) : ∃ long, enc.jumpForm a cond jmpl target = some (.jump cond long target) := by
  have hfits : FeInstr.fitsInt32
      (target - (a + BitVec.ofNat 64 (enc.size (.jump cond true target)))) = true := by
    have hsize := enc.size_le (.jump cond true target)
    have hnext : (a + BitVec.ofNat 64 (enc.size (.jump cond true target))).toNat =
        a.toNat + enc.size (.jump cond true target) := by
      rw [BitVec.toNat_add, BitVec.toNat_ofNat, Nat.add_mod_mod, Nat.mod_eq_of_lt (by omega)]
    apply fitsInt32_of_toInt
    · rw [BitVec.toInt_eq_toNat_cond, BitVec.toNat_sub, hnext]
      split <;> omega
    · rw [BitVec.toInt_eq_toNat_cond, BitVec.toNat_sub, hnext]
      split <;> omega
  unfold Encoder.jumpForm
  dsimp only
  rw [if_pos hfits]
  split
  · exact ⟨false, rfl⟩
  · exact ⟨true, rfl⟩

end X86

namespace Translate

open StateExcept CodeCache

/-! ## What only appends -/

/-- Nothing has been rejected, and `r_info` is as the allocator leaves it. -/
structure Assembled (s : GenState) : Prop where
  err : s.err = false
  wf : s.rInfo.WellFormed

section Appending

variable {α : Type} {I : GenState → Prop} {n : Nat} {entry : RiscInstr} (env : Env)

/-- A single instruction takes one place, if the assembler encodes it. -/
theorem takes_feEnc64 {i : FeInstr} (h : i.encodable = true) : Takes I 1 (feEnc64 i) := by
  unfold feEnc64
  rw [if_pos h]
  exact ⟨.emit i, fun _ hI => hI⟩

/-- A step that is left out takes no place. -/
theorem takes_onlyIf {c : Prop} [Decidable c] {g : Gen Unit} (hg : c → Takes I n g) :
    Takes I n (onlyIf c g) :=
  Takes.ite hg fun _ => (Takes.ret ()).mono (Nat.zero_le n)

/-- Code that simulates an instruction has been accepted. -/
theorem Simulates.takes {gen : Gen Unit} {f : GuestState → GuestState} (hs : Simulates gen f)
    (hb : Bounded n gen) : Takes Assembled n gen := by
  refine ⟨hb, ?_⟩
  rintro ⟨r, e⟩ ⟨herr, hwf⟩
  obtain ⟨code, r', hgen, hwf', -⟩ := hs.emission hwf e
  rw [hgen]
  exact ⟨herr, hwf'⟩

/-- Writing back the three replacements takes three instructions at most. -/
theorem takes_invalidateAll : Takes Assembled 3 invalidateAllReplacements :=
  simulates_invalidateAll.takes bounded_invalidateAll

theorem takes_recordGpProfiler (flags : Flags) (x : Nat) :
    Takes Assembled 1 (recordGpProfiler flags x) :=
  (simulates_profiler flags x).takes (bounded_recordGpProfiler flags x)

/-- Writing back a replacement takes one instruction at most. -/
theorem takes_invalidateReplacement (i : Fin 3) :
    Takes Assembled 1 (invalidateReplacement i) := by
  have hs : Simulates (invalidateReplacement i) id := fun g r h e hrep =>
    ⟨_, _, invalidateReplacement_runs r h e i, hrep.invalidate i,
      (frame_writtenBack hrep.wf i).outside⟩
  exact hs.takes (bounded_invalidateReplacement i)

/-- The end of a basic block writes back what is cached. -/
theorem takes_boundary : Takes Assembled 3 boundary :=
  (takes_feEnc64 rfl).bind fun _ => (takes_feEnc64 rfl).bind fun _ => takes_feEnc64 rfl

/-- The code of an instruction that the guest executes has a bounded length, and the assembler
accepts all of it. -/
theorem takes_coreEmitter (hd : entry.Decoded) {emitter : Flags → RiscInstr → Gen Unit}
    (hem : coreEmitter entry.mnem = some emitter) :
    Takes Assembled maxEmitted (emitter env.flags entry) := by
  obtain ⟨emitter', hem', hs⟩ := simulates_coreEmitter env.flags hd
  obtain rfl : emitter' = emitter := Option.some.inj (hem'.symm.trans hem)
  exact hs.takes (bounded_coreEmitter env.flags entry hem)

/-- A comparison loads at most two operands. -/
theorem takes_cmpRs1Rs2 (hrs1 : entry.regSrc1 < 32) (hrs2 : entry.regSrc2 < 32) :
    Takes Assembled 12 (cmpRs1Rs2 env entry) := by
  have hs : Simulates (cmpRs1Rs2 env entry) id := by
    intro g r h e hrep
    obtain ⟨r', h', hrun, hb, hout, -⟩ := cmpRs1Rs2_runs env e hrep hrs1 hrs2
    exact ⟨cleared r', h', hrun,
      (represents_iff_atBoundary (cleared_wellFormed r') (cleared_empty r')).2 hb, hout⟩
  have hcompare : ∀ R, Bounded 4 (compareWithRs2 env entry R) := fun R =>
    .ite ((bounded_feEnc64 _).mono (by decide))
      (.bind (bounded_getSrc env.flags _) fun _ => bounded_feEnc64 _)
  refine hs.takes (Bounded.mono (n := 1 + (1 + (3 + (4 + 3)))) ?_ (by decide))
  exact .bind (bounded_recordGpProfiler _ _) fun _ => .bind (bounded_recordGpProfiler _ _) fun _ =>
    .bind (bounded_getSrc _ _) fun R => .bind (hcompare R) fun _ => bounded_invalidateAll

/-! ### Exits -/

/-- The `pc` is stored as an immediate, if the address fits into 32 bits. -/
theorem takes_setPc {target : RiscAddr} (h : FeInstr.fitsInt32 target = true) :
    Takes Assembled 1 (setPc target) :=
  takes_feEnc64 h

/-- What the dispatcher is told about a jump are two stores. -/
theorem takes_noteChain (cond : Option Cond) : Takes Assembled 2 (noteChain env cond) := by
  have hmnem : (FeInstr.mov32miCell .chainType (env.enc.jumpMnem cond)).encodable = true :=
    env.enc.jumpMnem_fits cond
  exact (takes_feEnc64 rfl).bind fun _ => takes_feEnc64 hmnem

theorem takes_chainHere : Takes Assembled 3 (chainHere env) :=
  (takes_feEnc64 rfl).bind fun _ => takes_noteChain env none

/-- A jump that lies ahead is noted by its address and its condition. -/
theorem takes_chainAt (jump : BitVec 64) (cond : Cond) :
    Takes Assembled 3 (chainAt env jump cond) :=
  (takes_feEnc64 rfl).bind fun _ => takes_noteChain env (some cond)

/-- The exit to a target without finished code. -/
theorem takes_stub {target : RiscAddr} (h : FeInstr.fitsInt32 target = true) :
    Takes Assembled 4 (do
      onlyIf env.flags.translateOptChain (chainHere env)
      setPc target) :=
  (takes_onlyIf fun _ => takes_chainHere env).bind fun _ => takes_setPc h

/-- A push writes the address of the guest and that of its block. -/
theorem takes_pushEntry (loc : CacheLoc) (saveRax : Bool) :
    Takes Assembled 12 (pushEntry entry loc saveRax) := by
  refine Takes.bind (n := 1) (m := 11) (takes_onlyIf fun _ => takes_feEnc64 rfl) fun _ => ?_
  refine Takes.bind (n := 1) (m := 10) (takes_feEnc64 rfl) fun _ => ?_
  refine Takes.bind (n := 1) (m := 9) (takes_feEnc64 rfl) fun _ => ?_
  refine Takes.bind (n := 1) (m := 8) (takes_feEnc64 rfl) fun _ => ?_
  refine Takes.bind (n := 1) (m := 7) (takes_feEnc64 rfl) fun _ => ?_
  refine Takes.bind (n := 1) (m := 6) (takes_feEnc64 rfl) fun _ => ?_
  refine Takes.bind (n := 1) (m := 5) (takes_feEnc64 rfl) fun _ => ?_
  refine Takes.bind (n := 1) (m := 4) (takes_feEnc64 rfl) fun _ => ?_
  refine Takes.bind (n := 1) (m := 3) (takes_feEnc64 rfl) fun _ => ?_
  refine Takes.bind (n := 1) (m := 2) (takes_feEnc64 rfl) fun _ => ?_
  exact Takes.bind (takes_feEnc64 rfl) fun _ => takes_onlyIf fun _ => takes_feEnc64 rfl

/-- The front of the stack is compared with the address in `rax`. -/
theorem takes_compareFront : Takes Assembled 5 compareFront :=
  (takes_feEnc64 rfl).bind fun _ => (takes_feEnc64 rfl).bind fun _ =>
    (takes_feEnc64 rfl).bind fun _ => (takes_feEnc64 rfl).bind fun _ => takes_feEnc64 rfl

theorem takes_popFront : Takes Assembled 5 popFront :=
  (takes_feEnc64 rfl).bind fun _ => (takes_feEnc64 rfl).bind fun _ =>
    (takes_feEnc64 rfl).bind fun _ => (takes_feEnc64 rfl).bind fun _ => takes_feEnc64 rfl

theorem takes_moveRs1ToAx : Takes Assembled 1 (moveRs1ToAx entry) := by
  unfold moveRs1ToAx
  split
  · exact takes_feEnc64 rfl
  · exact takes_feEnc64 rfl

/-- The target of a `JALR` is computed from its short immediate. -/
theorem takes_jalrTarget (himm : ShortImm entry.imm) : Takes Assembled 6 (jalrTarget entry) := by
  have hadd : (FeInstr.aluri .add .s64 .ax entry.imm).encodable = true := himm.fits
  exact takes_invalidateAll.bind fun _ => takes_moveRs1ToAx.bind fun _ =>
    (takes_feEnc64 hadd).bind fun _ => takes_feEnc64 rfl

/-- The link address is an immediate of 32 bits where it is stored to a slot. -/
def LinkFits (entry : RiscInstr) : Prop :=
  entry.regDest ≠ x0 → gpMap entry.regDest = none →
    FeInstr.fitsInt32 (entry.addr + 4#64) = true

/-- The link register receives the next address, if that fits. -/
theorem takes_jalrLink (h : LinkFits entry) : Takes Assembled 1 (jalrLink entry) := by
  unfold jalrLink
  refine takes_onlyIf fun hrd => ?_
  split
  · exact takes_feEnc64 rfl
  · rename_i hmap
    exact takes_feEnc64 (h hrd hmap)

theorem takes_setPcFromAx : Takes Assembled 1 setPcFromAx := takes_feEnc64 rfl

/-- The `AUIPC` that sets the link register. -/
theorem takes_linkInstr (hrd : entry.regDest < 32) :
    Takes Assembled maxEmitted (translateAUIPC env.flags (linkInstr entry)) := by
  have hs : Simulates (translateAUIPC env.flags (linkInstr entry)) fun g =>
      g.step (linkInstr entry) := simulates_AUIPC env.flags rfl hrd
  have hem : coreEmitter .auipc = some translateAUIPC := rfl
  exact hs.takes (bounded_coreEmitter env.flags (linkInstr entry) hem)

/-! ### Whole entries -/

/-- An invalid instruction calls the handler of the runtime, with its address and its word. -/
theorem takes_INVALID : Takes Assembled 7 (translateINVALID env entry) :=
  (takes_invalidateReplacement 1).bind fun _ => (takes_feEnc64 rfl).bind fun _ =>
    (takes_feEnc64 rfl).bind fun _ => (takes_feEnc64 rfl).bind fun _ =>
      (takes_feEnc64 rfl).bind fun _ => (takes_feEnc64 rfl).bind fun _ => takes_feEnc64 rfl

/-- A block that was cut off leaves with the `pc` of the next instruction. -/
theorem takes_PC_NEXT_INST (addr : RiscAddr) :
    Takes Assembled 8 (translatePC_NEXT_INST env addr) :=
  takes_invalidateAll.bind fun _ => (takes_onlyIf fun _ => takes_chainHere env).bind fun _ =>
    (takes_feEnc64 rfl).bind fun _ => takes_feEnc64 rfl

/-- A system call saves the context, calls the runtime and loads the context again. -/
theorem takes_ECALL : Takes Assembled 9 (translateECALL env entry) :=
  takes_invalidateAll.bind fun _ => (takes_feEnc64 rfl).bind fun _ =>
    (takes_feEnc64 rfl).bind fun _ => (takes_feEnc64 rfl).bind fun _ =>
      (takes_feEnc64 rfl).bind fun _ => (takes_feEnc64 rfl).bind fun _ => takes_feEnc64 rfl

end Appending

/-! ## Room in the instruction memory -/

/-- What the cache knows is a mark or lies in the instruction memory. -/
def CodeOrMark (f : RiscAddr → Option CacheLoc) : Prop :=
  ∀ a loc, f a = some loc → loc = translationStarted ∨ InInstrMem loc

/-- While an entry is emitted from `start` on, nothing has been rejected and `k` more
instructions fit the instruction memory. -/
structure InBlock (f : RiscAddr → Option CacheLoc) (start : BitVec 64) (k : Nat) (s : EmitState) :
    Prop where
  cache : Inv s.cache f
  gen : Assembled s.gen
  origin : s.start = start
  low : instrMemBase ≤ start.toNat
  room : start.toNat + 15 * (s.code.length + k) ≤ translatorBase

/-- The step takes at most `n` instructions of the room that there is, does not fail, and its
result satisfies `p`. -/
def Fine {α : Type} (f : RiscAddr → Option CacheLoc) (n : Nat) (x : Emit α) (p : α → Prop) :
    Prop :=
  ∀ start k, Spec (InBlock f start (n + k)) x (fun a s => InBlock f start k s ∧ p a)
    fun _ => False

section Room

variable {α β : Type} {env : Env} {f : RiscAddr → Option CacheLoc} {n m k : Nat}
  {p : α → Prop} {q : β → Prop} {s : EmitState} {start : BitVec 64}

/-- What has room for more instructions has room for fewer. -/
theorem InBlock.mono (h : InBlock f start m s) (hnm : n ≤ m) : InBlock f start n s :=
  ⟨h.cache, h.gen, h.origin, h.low, by have := h.room; omega⟩

/-- A place among the instructions that have been emitted lies in the instruction memory. -/
theorem InBlock.place (h : InBlock f start k s) (is : List FeInstr)
    (hlen : is.length ≤ s.code.length) : InInstrMem (env.enc.after s.start is) := by
  have hsize := env.enc.codeSize_le is
  have hlow := h.low
  have hroom := h.room
  have hbase : translatorBase < 2 ^ 63 := by decide
  have hplace : (env.enc.after start is).toNat = start.toNat + env.enc.codeSize is :=
    toNat_after (by omega)
  unfold InInstrMem
  rw [h.origin, hplace]
  omega

/-- Between two addresses of the buffer the assembler finds a form for every jump. -/
theorem jumpForm_inInstrMem {a target : BitVec 64} (ha : InInstrMem a) (ht : InInstrMem target)
    (enc : Encoder) (cond : Option Cond) (jmpl : Bool) :
    ∃ long, enc.jumpForm a cond jmpl target = some (.jump cond long target) :=
  jumpForm_near enc ⟨ha.1, ht.1⟩ ⟨ha.2, ht.2⟩ (by decide) (by decide) cond jmpl

/-- The bound may be raised. -/
theorem Fine.mono {x : Emit α} (hx : Fine f n x p) (hnm : n ≤ m) : Fine f m x p := by
  intro start k
  refine (hx start (m - n + k)).conseq (fun s h => ?_) fun a s h => ⟨h.1.mono (by omega), h.2⟩
  rwa [← Nat.add_assoc, Nat.add_sub_cancel' hnm]

/-- Returning a value takes no place. -/
theorem Fine.ret {a : α} (ha : p a) : Fine f 0 (pure a : Emit α) p :=
  fun _ k => Spec.ret fun s h => ⟨by rwa [Nat.zero_add] at h, ha⟩

/-- The bounds of two steps add up. -/
theorem Fine.bind {x : Emit α} {g : α → Emit β} (hx : Fine f n x p)
    (hg : ∀ a, p a → Fine f m (g a) q) : Fine f (n + m) (x >>= g) q := by
  intro start k
  have hx' := hx start (m + k)
  rw [← Nat.add_assoc] at hx'
  exact hx'.bind fun a => Spec.of_fact fun ha => hg a ha start k

/-- The result of the first step does not matter. -/
theorem Fine.next {x : Emit α} {g : α → Emit β} (hx : Fine f n x p)
    (hg : ∀ a, Fine f m (g a) q) : Fine f (n + m) (x >>= g) q :=
  hx.bind fun a _ => hg a

/-- A choice takes what the taken branch takes. -/
theorem Fine.ite {c : Prop} [Decidable c] {x y : Emit α} (hx : c → Fine f n x p)
    (hy : ¬ c → Fine f n y p) : Fine f n (if c then x else y) p :=
  fun start k => Spec.ite (fun hc => hx hc start k) fun hc => hy hc start k

theorem fine_onlyIf {c : Prop} [Decidable c] {x : Emit Unit}
    (hx : c → Fine f n x fun _ => True) : Fine f n (Emit.onlyIf c x) fun _ => True :=
  Fine.ite hx fun _ => (Fine.ret trivial).mono (Nat.zero_le n)

/-! ### The primitive steps -/

theorem fine_get : Fine f 0 (get : Emit EmitState) fun _ => True := by
  intro start k s h
  rw [Nat.zero_add] at h
  refine ⟨fun a s' hrun => ?_, fun e hrun => absurd hrun nofun⟩
  obtain ⟨-, rfl⟩ := Prod.mk.inj (Except.ok.inj hrun)
  exact ⟨h, trivial⟩

/-- Code of the register cache is accepted within its bound. -/
theorem fine_lift {g : Gen α} (hg : Takes Assembled n g) :
    Fine f n (Emit.lift g) fun _ => True := by
  intro start k s h
  refine ⟨fun a s' hrun => ?_, fun e hrun => absurd hrun nofun⟩
  obtain ⟨-, rfl⟩ := Prod.mk.inj (Except.ok.inj hrun)
  refine ⟨⟨h.cache, hg.keeps _ h.gen, h.origin, h.low, ?_⟩, trivial⟩
  have hlen := hg.bounded s.gen
  have hroom := h.room
  show start.toNat + 15 * ((s.code ++ (g s.gen).2.1).length + k) ≤ translatorBase
  rw [List.length_append]
  omega

/-- A lookup emits nothing. -/
theorem fine_lookupCacheEntry (a : RiscAddr) :
    Fine f 0 (Emit.lookupCacheEntry a) fun _ => True := by
  intro start k s h
  rw [Nat.zero_add] at h
  obtain ⟨c', hlookup, hcache⟩ := h.cache.lookupCacheEntry a
  unfold Emit.lookupCacheEntry
  rw [hlookup]
  refine ⟨fun loc s' hrun => ?_, fun e hrun => absurd hrun nofun⟩
  obtain ⟨-, rfl⟩ := Prod.mk.inj (Except.ok.inj hrun)
  exact ⟨⟨hcache, h.gen, h.origin, h.low, h.room⟩, trivial⟩

/-- A finished block lies in the buffer. -/
theorem fine_lookupFinished (hf : CodeOrMark f) (target : RiscAddr) :
    Fine f 0 (lookupFinished env target) fun o => ∀ loc, o = some loc → InInstrMem loc := by
  intro start k s h
  rw [Nat.zero_add] at h
  obtain ⟨o, ⟨c', hrun, hcache⟩, hfound⟩ := lookupFinished_adds env h.cache target
  rw [hrun]
  refine ⟨fun o' s' hok => ?_, fun e herr => absurd herr nofun⟩
  obtain ⟨rfl, rfl⟩ := Prod.mk.inj (Except.ok.inj hok)
  refine ⟨⟨hcache f h.cache, h.gen, h.origin, h.low, ?_⟩, fun loc hloc => ?_⟩
  · rw [List.append_nil]
    exact h.room
  · obtain ⟨-, hknown, hne⟩ := hfound loc hloc
    exact (hf target loc hknown).resolve_left hne

/-- A jump to code of the buffer is one instruction. -/
theorem fine_encJump {target : BitVec 64} (ht : InInstrMem target) (cond : Option Cond)
    (jmpl : Bool) : Fine f 1 (Emit.encJump env cond jmpl target) fun _ => True := by
  intro start k s h
  obtain ⟨long, hform⟩ :=
    jumpForm_inInstrMem (h.place s.code (Nat.le_refl _)) ht env.enc cond jmpl
  unfold Emit.encJump Emit.current
  rw [hform]
  refine ⟨fun a s' hrun => ?_, fun e hrun => absurd hrun nofun⟩
  obtain ⟨-, rfl⟩ := Prod.mk.inj (Except.ok.inj hrun)
  refine ⟨⟨h.cache, h.gen, h.origin, h.low, ?_⟩, trivial⟩
  have hroom := h.room
  show start.toNat + 15 * ((s.code ++ [_]).length + k) ≤ translatorBase
  rw [List.length_append, List.length_singleton]
  omega

/-- A jump that is written over later is one instruction. -/
theorem fine_encDummy (cond : Option Cond) (jmpl : Bool) :
    Fine f 1 (Emit.encDummy env cond jmpl) fun _ => True := by
  intro start k s h
  have hcurrent : InInstrMem (Emit.current env s) := h.place s.code (Nat.le_refl _)
  have hjump := @fine_encJump env f _ hcurrent cond jmpl start k s h
  unfold Emit.encDummy
  cases hrun : Emit.encJump env cond jmpl (Emit.current env s) s with
  | error e => exact absurd (hjump.2 e hrun) id
  | ok r =>
      refine ⟨fun slot s' hok => ?_, fun e herr => absurd herr nofun⟩
      obtain ⟨-, rfl⟩ := Prod.mk.inj (Except.ok.inj hok)
      exact ⟨(hjump.1 r.1 r.2 hrun).1, trivial⟩

/-- A dummy can be sent to all code of the buffer. -/
theorem fine_replaceJump {target : BitVec 64} (ht : InInstrMem target) (slot : Nat)
    (cond : Option Cond) (jmpl : Bool) :
    Fine f 0 (Emit.replaceJump env slot cond jmpl target) fun _ => True := by
  intro start k s h
  rw [Nat.zero_add] at h
  have hslot : InInstrMem (Emit.addressOf env s slot) :=
    h.place _ (by rw [List.length_take]; exact Nat.min_le_right _ _)
  obtain ⟨long, hform⟩ := jumpForm_inInstrMem hslot ht env.enc cond jmpl
  unfold Emit.replaceJump
  rw [hform]
  show (∀ a s', Emit.overwrite env slot _ s = _ → _) ∧ ∀ e, Emit.overwrite env slot _ s = _ → _
  unfold Emit.overwrite
  split
  · refine ⟨fun a s' hrun => ?_, fun e hrun => absurd hrun nofun⟩
    obtain ⟨-, rfl⟩ := Prod.mk.inj (Except.ok.inj hrun)
    refine ⟨⟨h.cache, h.gen, h.origin, h.low, ?_⟩, trivial⟩
    rw [List.length_set]
    exact h.room
  · refine ⟨fun a s' hrun => ?_, fun e hrun => absurd hrun nofun⟩
    obtain ⟨-, rfl⟩ := Prod.mk.inj (Except.ok.inj hrun)
    exact ⟨⟨h.cache, h.gen, h.origin, h.low, h.room⟩, trivial⟩

/-- A dummy can be sent to the code that follows, which lies in the buffer too. -/
theorem fine_replaceJumpHere (slot : Nat) (cond : Option Cond) (jmpl : Bool) :
    Fine f 0 (Emit.replaceJumpHere env slot cond jmpl) fun _ => True := by
  intro start k s h
  have hcurrent : InInstrMem (Emit.current env s) := h.place s.code (Nat.le_refl _)
  exact fine_replaceJump hcurrent slot cond jmpl start k s h

end Room

/-! ## Jumps and branches -/

section Exits

variable {env : Env} {f : RiscAddr → Option CacheLoc} {entry : RiscInstr} {target : RiscAddr}

/-- A push, whatever the lookup finds. -/
theorem fine_rsEmitPush (saveRax : Bool) :
    Fine f 15 (rsEmitPush entry saveRax) fun _ => True :=
  Fine.next (n := 3) (m := 12) (fine_lift takes_invalidateAll) fun _ =>
    Fine.next (n := 0) (m := 12) (fine_lookupCacheEntry _) fun loc =>
      fine_onlyIf fun _ => fine_lift (takes_pushEntry loc saveRax)

/-- A pop with the jumps of a hit and of a miss. -/
theorem fine_rsEmitPopRAX (jumpOrPush : Bool) :
    Fine f 18 (rsEmitPopRAX env jumpOrPush) fun _ => True := by
  have hjump : ∀ slot, Fine f 1 (popJump env slot) fun _ => True := fun slot =>
    (fine_lift (takes_feEnc64 rfl)).next fun _ => fine_replaceJumpHere slot _ _
  have hsave : ∀ slot, Fine f 4 (popSave env slot) fun _ => True := fun slot =>
    Fine.next (n := 1) (m := 3) (fine_lift (takes_feEnc64 rfl)) fun _ =>
      Fine.next (n := 1) (m := 2) (fine_encDummy _ _) fun other =>
        Fine.next (n := 0) (m := 2) (fine_replaceJumpHere slot _ _) fun _ =>
          Fine.next (n := 1) (m := 1) (fine_lift (takes_feEnc64 rfl)) fun _ =>
            Fine.next (n := 1) (m := 0) (fine_lift (takes_feEnc64 rfl)) fun _ =>
              fine_replaceJumpHere other _ _
  refine Fine.next (n := 3) (m := 15) (fine_lift takes_invalidateAll) fun _ => ?_
  refine Fine.next (n := 5) (m := 10) (fine_lift takes_compareFront) fun _ => ?_
  refine Fine.next (n := 1) (m := 9) (fine_encDummy _ _) fun slot => ?_
  refine Fine.next (n := 5) (m := 4) (fine_lift takes_popFront) fun _ => ?_
  exact Fine.ite (fun _ => (hjump slot).mono (by decide)) fun _ => hsave slot

/-- The jump to a saved target, and past it. -/
theorem fine_rsJumpStack : Fine f 7 (rsJumpStack env) fun _ => True := by
  refine Fine.next (n := 3) (m := 4) (fine_lift takes_invalidateAll) fun _ => ?_
  refine Fine.next (n := 1) (m := 3) (fine_lift (takes_feEnc64 rfl)) fun _ => ?_
  refine Fine.next (n := 1) (m := 2) (fine_lift (takes_feEnc64 rfl)) fun _ => ?_
  refine Fine.next (n := 1) (m := 1) (fine_encDummy _ _) fun slot => ?_
  exact Fine.next (n := 1) (m := 0) (fine_lift (takes_feEnc64 rfl)) fun _ =>
    fine_replaceJumpHere slot _ _

/-- A jump to finished code, or the exit that is linked later. -/
theorem fine_exit (h : FeInstr.fitsInt32 target = true) {o : Option CacheLoc}
    (ho : ∀ loc, o = some loc → InInstrMem loc) :
    Fine f 4 (jalExit env target o) (fun _ => True) ∧
      Fine f 4 (takenExit env target o) fun _ => True := by
  cases o with
  | some loc =>
      have hjump := @fine_encJump env f _ (ho loc rfl) none false
      exact ⟨hjump.mono (by decide), hjump.mono (by decide)⟩
  | none => exact ⟨fine_lift (takes_stub env h), fine_lift (takes_stub env h)⟩

/-- A `JAL` is accepted, if its target and its link fit. -/
theorem fine_translateJAL (hf : CodeOrMark f) (hrd : entry.regDest < 32)
    (htarget : FeInstr.fitsInt32 (entry.addr + entry.imm) = true) :
    Fine f 38 (translateJAL env entry) fun _ => True := by
  refine Fine.next (n := 1) (m := 37) (fine_lift (takes_recordGpProfiler _ _)) fun _ => ?_
  refine Fine.next (n := 15) (m := 22) (fine_onlyIf fun _ => fine_rsEmitPush _) fun _ => ?_
  refine Fine.next (n := 15) (m := 7) (fine_lift (takes_linkInstr env hrd)) fun _ => ?_
  refine Fine.next (n := 3) (m := 4) (fine_lift takes_invalidateAll) fun _ => ?_
  exact Fine.bind (n := 0) (m := 4) (fine_lookupFinished hf _) fun o ho =>
    (fine_exit htarget ho).1

/-- The part of a `JALR` for the return stack, whichever link registers it has. -/
theorem fine_jalrReturnStack : Fine f 40 (jalrReturnStack env entry) fun _ => True := by
  have hpush : Fine f 40 (rsEmitPush entry true) fun _ => True :=
    (fine_rsEmitPush true).mono (by decide)
  have hboth : Fine f 40 (popAndPush env entry) fun _ => True :=
    Fine.next (n := 18) (m := 22) (fine_rsEmitPopRAX false) fun _ =>
      Fine.next (n := 15) (m := 7) (fine_rsEmitPush true) fun _ => fine_rsJumpStack
  refine Fine.ite (fun _ => ?_) fun _ => ?_
  · exact Fine.ite (fun _ => Fine.ite (fun _ => hpush) fun _ => hboth) fun _ => hpush
  · exact Fine.ite (fun _ => (fine_rsEmitPopRAX true).mono (by decide)) fun _ =>
      (Fine.ret trivial).mono (by decide)

/-- The word before a marked jump can be parsed. -/
def BeforeParsed (env : Env) (entry : RiscInstr) : Prop :=
  ∃ r, Parser.parseInstruction env.flags env.mem (.ofAddr (entry.addr - 4#64)) = .ok r

/-- The target is computed, if the word before the instruction is parsed. -/
theorem fine_jalrStaticTarget (h : BeforeParsed env entry) :
    Fine f 0 (jalrStaticTarget env entry) fun _ => True := by
  obtain ⟨r, hparse⟩ := h
  intro start k s hin
  rw [Nat.zero_add] at hin
  unfold jalrStaticTarget
  rw [hparse]
  refine ⟨fun a s' hrun => ?_, fun e hrun => absurd hrun nofun⟩
  obtain ⟨-, rfl⟩ := Prod.mk.inj (Except.ok.inj hrun)
  exact ⟨hin, trivial⟩

/-- Step 4 of a `JALR` jumps to a finished block, or notes the end of a chain. -/
theorem fine_jalrStep4 (hf : CodeOrMark f) (hbefore : entry.regSrc2 = 1 → BeforeParsed env entry) :
    Fine f 3 (jalrStep4 env entry) fun _ => True := by
  have hdirect : ∀ o, Fine f 3 (jalrDirect env o) fun _ => True := by
    intro o
    cases o with
    | some loc =>
        have htwo : Takes Assembled 2 (do
            feEnc64 (.mov64ri .cx loc)
            feEnc64 (.jmpr .cx)) := (takes_feEnc64 rfl).bind fun _ => takes_feEnc64 rfl
        exact fine_lift (htwo.mono (by decide))
    | none => exact fine_lift (takes_chainHere env)
  refine Fine.ite (fun hmark => ?_) fun _ => ?_
  · refine Fine.next (n := 0) (m := 3) (fine_jalrStaticTarget (hbefore hmark.1)) fun target => ?_
    exact Fine.next (n := 0) (m := 3) (fine_lookupFinished hf target) fun o => hdirect o
  · exact fine_lift ((takes_onlyIf fun _ => takes_feEnc64 rfl).mono (n := 1) (by decide))

/-- A `JALR` is accepted, if its link fits and the instruction before a marked one can be parsed.
-/
theorem fine_translateJALR (hf : CodeOrMark f) (himm : ShortImm entry.imm)
    (hlink : LinkFits entry) (hbefore : entry.regSrc2 = 1 → BeforeParsed env entry) :
    Fine f 53 (translateJALR env entry) fun _ => True := by
  refine Fine.next (n := 1) (m := 52) (fine_lift (takes_recordGpProfiler _ _)) fun _ => ?_
  refine Fine.next (n := 1) (m := 51) (fine_lift (takes_recordGpProfiler _ _)) fun _ => ?_
  refine Fine.next (n := 6) (m := 45) (fine_lift (takes_jalrTarget himm)) fun _ => ?_
  refine Fine.next (n := 1) (m := 44) (fine_lift (takes_jalrLink hlink)) fun _ => ?_
  refine Fine.next (n := 40) (m := 4) (fine_onlyIf fun _ => fine_jalrReturnStack) fun _ => ?_
  exact Fine.next (n := 3) (m := 1) (fine_jalrStep4 hf hbefore) fun _ =>
    fine_lift takes_setPcFromAx

/-- The exit of a branch that is not taken jumps to the block or leaves. -/
theorem fine_notTakenExit (h : FeInstr.fitsInt32 target = true) (slot : Nat) (cond : Cond)
    {o : Option CacheLoc} (ho : ∀ loc, o = some loc → InInstrMem loc) :
    Fine f 4 (notTakenExit env target slot cond o) fun _ => True := by
  cases o with
  | some loc => exact (fine_replaceJump (ho loc rfl) slot _ _).mono (by decide)
  | none =>
      refine Fine.next (n := 0) (m := 4) (fine_replaceJumpHere slot _ _) fun _ => ?_
      refine Fine.next (n := 0) (m := 4) fine_get fun s => ?_
      exact Fine.next (n := 3) (m := 1)
        (fine_lift (takes_onlyIf fun _ => takes_chainAt env _ cond)) fun _ =>
          fine_lift (takes_setPc h)

/-- A branch is accepted, if the addresses of both exits fit. -/
theorem fine_translateBranch (hf : CodeOrMark f) (hrs1 : entry.regSrc1 < 32)
    (hrs2 : entry.regSrc2 < 32) (htarget : FeInstr.fitsInt32 (entry.addr + entry.imm) = true)
    (hnext : FeInstr.fitsInt32 (entry.addr + 4#64) = true) (cond : Cond) :
    Fine f 22 (translateBranch env entry cond) fun _ => True := by
  refine Fine.next (n := 12) (m := 10) (fine_lift (takes_cmpRs1Rs2 env hrs1 hrs2)) fun _ => ?_
  refine Fine.next (n := 1) (m := 9) (fine_encDummy _ _) fun slot => ?_
  refine Fine.bind (n := 0) (m := 9) (fine_lookupFinished hf _) fun o ho => ?_
  refine Fine.next (n := 4) (m := 5) (fine_exit htarget ho).2 fun _ => ?_
  refine Fine.next (n := 1) (m := 4) (fine_encDummy _ _) fun finish => ?_
  refine Fine.bind (n := 0) (m := 4) (fine_lookupFinished hf _) fun o' ho' => ?_
  exact Fine.next (n := 4) (m := 0) (fine_notTakenExit hnext slot cond ho') fun _ =>
    fine_replaceJumpHere finish _ _

end Exits

/-! ## Entries -/

/-- The instructions that an entry of a block takes at most, without the boundary of
`flag_verbose_disassembly`. -/
def maxDispatched : Nat := 61

/-- Nothing that is emitted for the entry can be rejected. -/
structure EntryFits (env : Env) (entry : RiscInstr) : Prop where
  dispatched : entry.mnem ≠ .ebreak ∧ entry.mnem ≠ .fenceI
  core : coreEmitter entry.mnem ≠ none → entry.Decoded
  jal : entry.mnem = .jal →
    entry.regDest < 32 ∧ FeInstr.fitsInt32 (entry.addr + entry.imm) = true
  jalr : entry.mnem = .jalr →
    ShortImm entry.imm ∧ LinkFits entry ∧ (entry.regSrc2 = 1 → BeforeParsed env entry)
  branch : skipCond entry.mnem ≠ none → (entry.regSrc1 < 32 ∧ entry.regSrc2 < 32) ∧
    FeInstr.fitsInt32 (entry.addr + entry.imm) = true ∧
    FeInstr.fitsInt32 (entry.addr + 4#64) = true
  others : dispatchInstr env entry = Emit.lift (env.others entry) →
    Takes Assembled maxDispatched (env.others entry)

section Entries

variable {env : Env} {f : RiscAddr → Option CacheLoc} {entry : RiscInstr}

/-- What is dispatched for an entry that fits is accepted. -/
theorem fine_dispatchInstr (hf : CodeOrMark f) (h : EntryFits env entry) :
    Fine f maxDispatched (dispatchInstr env entry) fun _ => True := by
  cases hskip : skipCond entry.mnem with
  | some cond =>
      obtain ⟨⟨hrs1, hrs2⟩, htarget, hnext⟩ := h.branch (by rw [hskip]; nofun)
      rw [dispatchInstr_branch hskip]
      exact (fine_translateBranch hf hrs1 hrs2 htarget hnext cond).mono (by decide)
  | none =>
      have hothers : ∀ x, x = dispatchInstr env entry → x = Emit.lift (env.others entry) →
          Fine f maxDispatched x fun _ => True := by
        rintro x rfl heq
        rw [heq]
        exact fine_lift (h.others heq)
      obtain ⟨x, hx⟩ : ∃ x, x = dispatchInstr env entry := ⟨_, rfl⟩
      rw [← hx]
      have hx' := hx
      unfold dispatchInstr at hx'
      -- the emitters of the core first, then the arms for the other mnemonics
      split at hx'
      · rename_i emitter hem
        rw [hx']
        exact fine_lift ((takes_coreEmitter env (h.core (by rw [hem]; nofun)) hem).mono
          (by decide))
      · split at hx' <;> rename_i hmnem
        · rw [hx']
          exact fine_lift ((takes_INVALID env).mono (by decide))
        · rw [hx']
          exact (fine_translateJAL hf (h.jal hmnem).1 (h.jal hmnem).2).mono (by decide)
        · obtain ⟨himm, hlink, hbefore⟩ := h.jalr hmnem
          rw [hx']
          exact (fine_translateJALR hf himm hlink hbefore).mono (by decide)
        · exact absurd hskip (by rw [hmnem]; nofun)
        · exact absurd hskip (by rw [hmnem]; nofun)
        · exact absurd hskip (by rw [hmnem]; nofun)
        · exact absurd hskip (by rw [hmnem]; nofun)
        · exact absurd hskip (by rw [hmnem]; nofun)
        · exact absurd hskip (by rw [hmnem]; nofun)
        · rw [hx']
          exact fine_lift ((takes_ECALL env).mono (by decide))
        · rw [hx']
          exact fine_lift ((takes_PC_NEXT_INST env _).mono (by decide))
        · rw [hx']
          exact (Fine.ret trivial).mono (Nat.zero_le _)
        · rw [hx']
          exact (Fine.ret trivial).mono (Nat.zero_le _)
        · exact absurd hmnem h.dispatched.1
        · exact absurd hmnem h.dispatched.2
        · exact hothers x hx hx'

/-- The instructions that an entry of a block takes at most. -/
def maxEntry : Nat := maxDispatched + 3

/-- The code for an entry that fits is accepted, with the profile and the marks around it. -/
theorem fine_translateRiscInstr (hf : CodeOrMark f) (h : EntryFits env entry) :
    Fine f maxEntry (translateRiscInstr env entry) fun _ => True :=
  (fine_dispatchInstr hf h).next fun _ => fine_lift (takes_onlyIf fun _ => takes_boundary)

end Entries

/-! ## Blocks -/

/-- The instructions of a block at most: an entry of the buffer each, what `init_block` and
`finalize_block` emit, and the padding. -/
def maxBlock : Nat := maxEntry * 64 + 24

/-- While a block is translated at `head`, nothing has been rejected and `k` more instructions
fit the instruction memory. -/
structure BlockRoom (env : Env) (f : RiscAddr → Option CacheLoc) (head : CacheLoc) (k : Nat)
    (s : BlockState) : Prop where
  cache : Inv s.cache f
  gen : Assembled s.gen
  origin : s.block.head = head
  low : instrMemBase ≤ head.toNat
  room : head.toNat + env.enc.codeSize s.block.body + 15 * k ≤ translatorBase

section Blocks

variable {env : Env} {f : RiscAddr → Option CacheLoc} {head : CacheLoc} {k : Nat}

/-- Writing back a replacement is not rejected, whatever `r_info` is. -/
theorem err_invalidateReplacement (i : Fin 3) (s : GenState) :
    (invalidateReplacement i s).2.2.err = s.err := by
  unfold invalidateReplacement
  show (onlyIf _ (writeBack _ _) s).2.2.err = s.err
  unfold onlyIf
  split
  · rfl
  · rfl

theorem err_invalidateAll (s : GenState) : (invalidateAllReplacements s).2.2.err = s.err :=
  (err_invalidateReplacement 2 _).trans
    ((err_invalidateReplacement 1 _).trans (err_invalidateReplacement 0 s))

/-- The replacements are empty at the start of a block, whatever they were. -/
theorem initBlock_room {t : TransState} (hcache : Inv t.cache f)
    (hlow : instrMemBase ≤ t.currentPos.toNat)
    (hroom : t.currentPos.toNat + 15 * (4 + k) ≤ translatorBase) :
    BlockRoom env f t.currentPos k (initBlock env t) := by
  have hbounded : Bounded 4 (do
      onlyIf (¬ env.flags.ndebug) (feEnc64 .nop)
      invalidateAllReplacements) :=
    .bind (bounded_onlyIf (bounded_feEnc64 _)) fun _ => bounded_invalidateAll
  have hlen := hbounded ⟨t.rInfo, false⟩
  have hnop : (onlyIf (¬ env.flags.ndebug) (feEnc64 .nop) (⟨t.rInfo, false⟩ : GenState)).2.2 =
      ⟨t.rInfo, false⟩ := by
    unfold onlyIf
    split
    · rfl
    · rfl
  have hgen : (initBlock env t).gen = (invalidateAllReplacements ⟨t.rInfo, false⟩).2.2 := by
    rw [← hnop]
    rfl
  refine ⟨hcache, ?_, rfl, hlow, ?_⟩
  · rw [hgen]
    refine ⟨err_invalidateAll _, ?_⟩
    rw [invalidateAll_rInfo]
    exact cleared_wellFormed _
  · have hbody : (initBlock env t).block.body.length ≤ 4 := by
      unfold initBlock Block.body
      rw [List.flatMap_nil, List.append_nil]
      exact hlen
    have hsize := env.enc.codeSize_le (initBlock env t).block.body
    omega

/-- An entry that fits is added, and the room of the others is left. -/
theorem addInstr_room (hf : CodeOrMark f) {entry : RiscInstr} (h : EntryFits env entry)
    {s : BlockState} (hs : BlockRoom env f head (maxEntry + k) s) :
    ∃ s', addInstr env entry s = .ok s' ∧ BlockRoom env f head k s' := by
  have hbase : translatorBase < 2 ^ 63 := by decide
  have hroom := hs.room
  have hlow := hs.low
  have hstart : (env.enc.after head s.block.body).toNat =
      head.toNat + env.enc.codeSize s.block.body := toNat_after (by omega)
  have hin : InBlock f (env.enc.after head s.block.body) (maxEntry + k)
      ⟨env.enc.after head s.block.body, [], s.gen, s.cache, s.block.garbled⟩ := by
    refine ⟨hs.cache, hs.gen, rfl, by omega, ?_⟩
    rw [hstart, List.length_nil]
    omega
  -- the entry is translated at the end of the code so far
  obtain ⟨hok, herr⟩ := fine_translateRiscInstr hf h _ _ _ hin
  unfold addInstr
  dsimp only
  rw [hs.origin]
  cases hrun : translateRiscInstr env entry
      ⟨env.enc.after head s.block.body, [], s.gen, s.cache, s.block.garbled⟩ with
  | error e => exact absurd (herr e hrun) id
  | ok r =>
      obtain ⟨hin', -⟩ := hok r.1 r.2 hrun
      have hroom' := hin'.room
      have hsize := env.enc.codeSize_le r.2.code
      have hbody : Block.body { s.block with
          head := head
          chunks := s.block.chunks ++ [(entry, r.2.code)]
          garbled := r.2.garbled } = s.block.body ++ r.2.code := by
        simp [Block.body]
      refine ⟨⟨{ s.block with
        head := head
        chunks := s.block.chunks ++ [(entry, r.2.code)]
        garbled := r.2.garbled }, r.2.gen, r.2.cache⟩, rfl, hin'.cache, hin'.gen, rfl, hlow, ?_⟩
      rw [hbody, Encoder.codeSize_append]
      omega

/-- All entries that fit are added, by induction on them. -/
theorem addInstrs_room (hf : CodeOrMark f) {entries : List RiscInstr}
    (h : ∀ entry ∈ entries, EntryFits env entry) {s : BlockState}
    (hs : BlockRoom env f head (maxEntry * entries.length + k) s) :
    ∃ s', addInstrs env entries s = .ok s' ∧ BlockRoom env f head k s' := by
  induction entries generalizing s with
  | nil => exact ⟨s, rfl, by rwa [List.length_nil, Nat.mul_zero, Nat.zero_add] at hs⟩
  | cons entry entries ih =>
      rw [List.length_cons, Nat.mul_succ, Nat.add_comm (maxEntry * _) maxEntry,
        Nat.add_assoc] at hs
      obtain ⟨s₁, hadd, hs₁⟩ := addInstr_room hf (h entry (List.mem_cons_self ..)) hs
      obtain ⟨s', hrest, hs'⟩ := ih (fun e he => h e (List.mem_cons_of_mem _ he)) hs₁
      refine ⟨s', ?_, hs'⟩
      show (addInstr env entry s).bind (addInstrs env entries) = .ok s'
      rw [hadd]
      exact hrest

/-- The end of a block writes back the replacements and returns. -/
theorem takes_blockEnd (linkNull : Bool) : Takes Assembled 5 (blockEnd env linkNull) :=
  takes_invalidateAll.bind fun _ =>
    Takes.bind (n := 1) (m := 1) (takes_onlyIf fun _ => takes_feEnc64 rfl) fun _ =>
      takes_feEnc64 rfl

/-- A block with room left is finished, and lies in the buffer with its padding. -/
theorem finalizeBlock_room (linkNull : Bool) {s : BlockState}
    (hs : BlockRoom env f head (20 + k) s) :
    ∃ r, finalizeBlock env linkNull s = .ok r ∧ r.1.head = head ∧ Inv r.2.cache f ∧
      head.toNat + env.enc.codeSize r.1.code + 15 * k ≤ translatorBase := by
  have hend := @takes_blockEnd env linkNull
  have hgen := (hend.keeps s.gen hs.gen).err
  have hlen := hend.bounded s.gen
  have hroom := hs.room
  obtain ⟨ending, hending⟩ : ∃ ending, ending = (blockEnd env linkNull s.gen).2.1 ++
      alignment (env.enc.after s.block.head (s.block.body ++ (blockEnd env linkNull s.gen).2.1)) :=
    ⟨_, rfl⟩
  have hcount : ending.length ≤ 20 := by
    rw [hending, List.length_append]
    unfold alignment
    rw [List.length_replicate]
    omega
  have hcode : Block.code { s.block with epilogue := ending } = s.block.body ++ ending := rfl
  have hsize := env.enc.codeSize_le ending
  have hfits : head.toNat + env.enc.codeSize (s.block.body ++ ending) + 15 * k ≤
      translatorBase := by
    rw [Encoder.codeSize_append]
    omega
  refine ⟨({ s.block with epilogue := ending },
    { s with gen := (blockEnd env linkNull s.gen).2.2 }), ?_, hs.origin, hs.cache, hfits⟩
  -- so the test against the end of the instruction memory does not stop the translator
  have hstay : ¬ s.block.head.toNat +
      env.enc.codeSize (Block.code { s.block with epilogue := ending }) > translatorBase := by
    rw [hs.origin, hcode]
    omega
  unfold finalizeBlock
  dsimp only
  rw [← hending, if_neg hstay, hgen]
  rfl

/-- A block of entries that fit is translated, and takes no more than its share of the
instruction memory. -/
theorem translateBlockInstructions_fits (hf : CodeOrMark f) {entries : List RiscInstr}
    (hfits : ∀ entry ∈ optimized env entries, EntryFits env entry)
    (hlen : (optimized env entries).length ≤ 64) {t : TransState} (hcache : Inv t.cache f)
    (hlow : instrMemBase ≤ t.currentPos.toNat)
    (hroom : t.currentPos.toNat + 15 * (maxBlock + k) ≤ translatorBase) :
    ∃ b t', translateBlockInstructions env entries t = .ok (b, t') ∧ InInstrMem b.head ∧
      Inv t'.cache f ∧ instrMemBase ≤ t'.currentPos.toNat ∧
      t'.currentPos.toNat + 15 * k ≤ translatorBase := by
  have hcount : 4 + (maxEntry * (optimized env entries).length + (20 + k)) ≤ maxBlock + k := by
    have hmul := Nat.mul_le_mul_left maxEntry hlen
    unfold maxBlock
    omega
  have hinit : BlockRoom env f t.currentPos
      (maxEntry * (optimized env entries).length + (20 + k)) (initBlock env t) :=
    initBlock_room hcache hlow (by omega)
  obtain ⟨s, hadd, hs⟩ := addInstrs_room hf hfits hinit
  obtain ⟨r, hfinal, hhead, hcache', hroom'⟩ :=
    finalizeBlock_room (endsInEcall (optimized env entries)) hs
  have hbase : translatorBase < 2 ^ 63 := by decide
  have hpos : (env.enc.after r.1.head r.1.code).toNat =
      t.currentPos.toNat + env.enc.codeSize r.1.code := by
    rw [hhead]
    exact toNat_after (by omega)
  refine ⟨r.1, { t with
    cache := r.2.cache
    currentPos := env.enc.after r.1.head r.1.code
    rInfo := r.2.gen.rInfo }, ?_, ?_, hcache', ?_, ?_⟩
  · show (addInstrs env (optimized env entries) (initBlock env t)).bind _ = _
    rw [hadd]
    show (finalizeBlock env _ s).bind _ = _
    rw [hfinal]
    rfl
  · rw [hhead]
    exact ⟨hlow, by omega⟩
  · show instrMemBase ≤ (env.enc.after r.1.head r.1.code).toNat
    omega
  · show (env.enc.after r.1.head r.1.code).toNat + 15 * k ≤ translatorBase
    omega

end Blocks

end Translate

end RiaJit
