import RiaJit.Runtime.GuestMappings
import RiaJit.Runtime.ProgramBreak

/-!
# Placement hints of `mmap`

A guest's request without a usable address is placed below the last one, the first below what
`setupMmapHint` takes for the bottom of the guest stack. `allocateStack` puts the stack one page
further down.
-/

set_option autoImplicit false

namespace RiaJit.Runtime

open HostMemory

/-! ## The guest stack -/

/-- `INVALID_STACK`. -/
def invalidStack : BitVec 64 := 0#64

/-- `guard`, the size of the guard page. -/
def guard : BitVec 64 := 4096#64

/-- `MAP_STACK`. -/
def mapStack : BitVec 64 := 0x20000#64

/-- `RLIM_INFINITY`. -/
def rlimInfinity : BitVec 64 := -1#64

/-- `stackSize`: the limit that `getrlimit` returns, or eight megabytes. -/
def stackSizeOf (rlimit : Option (BitVec 64)) : BitVec 64 :=
  match rlimit with
  | some rlimCur => if rlimCur ≠ rlimInfinity then rlimCur else 0x800000#64
  | none => 0x800000#64

/-- `stackStart` of `allocateStack`. -/
def stackStart (stackSize : BitVec 64) : BitVec 64 := guestLimit - (stackSize + guard + 4096#64)

/-- The `mmap` of `allocateStack`. -/
def stackCall (stackSize : BitVec 64) : HostCall :=
  .mmap (stackStart stackSize) (stackSize + guard) protReadWrite
    (mapAnonymous ||| mapStack ||| mapPrivate ||| mapFixedNoReplace) (-1#64) 0#64

/-- `allocateStack`, after the size is known: the top of the stack, or `INVALID_STACK`. The
protection of the guard page is not part of the model. -/
def allocateStack (host : Host) (stackSize : BitVec 64) (space : Space) : BitVec 64 × Space :=
  let call := stackCall stackSize
  let bottomOfStack := (host call space).result
  let space' := call.effect (host call space) space
  if isError bottomOfStack then (invalidStack, space')
  else if bottomOfStack ≠ stackStart stackSize then (invalidStack, space')
  else (bottomOfStack + guard + stackSize, space')

/-- The stack and its guard page, as start and length. -/
def stackRange (stackSize : BitVec 64) : Nat × Nat :=
  ((stackStart stackSize).toNat, (stackSize + guard).toNat)

/-! ## The requests -/

namespace EcallState

/-- The guest sets its registers and writes to its memory before a system call. -/
def enter (s : EcallState) (request : Request) (bytes : BitVec 64 → BitVec 8) : EcallState :=
  { s with registerValues := request, space := { s.space with bytes := bytes } }

/-- Whether the case `mmap` places the mapping itself. -/
def UsesHint (s : EcallState) : Prop :=
  ¬ (hasFlag (s.registerValues (a 3)) mapFixed ∨
      hasFlag (s.registerValues (a 3)) mapFixedNoReplace) ∧
    (s.registerValues (a 0) = 0#64 ∨ s.registerValues (a 0) > guestLimit)

instance (s : EcallState) : Decidable s.UsesHint := inferInstanceAs (Decidable (_ ∧ _))

/-- The hint of the case `mmap`. -/
def hint (s : EcallState) : BitVec 64 := alignDown (s.lastHint - s.registerValues (a 1))

/-- The call that the case `mmap` makes. -/
def mmapForwarded (s : EcallState) : Option HostCall :=
  if s.UsesHint then some (s.mmapCall s.hint)
  else if s.registerValues (a 0) > guestLimit then none
  else some (s.mmapCall (s.registerValues (a 0)))

end EcallState

/-- A request for a mapping that is not fixed, without a usable address, of a positive length. -/
def IsHinted (request : Request) : Prop :=
  (request (a 7)).toNat = 222 ∧
    ¬ (hasFlag (request (a 3)) mapFixed ∨ hasFlag (request (a 3)) mapFixedNoReplace) ∧
    (request (a 0) = 0#64 ∨ request (a 0) > guestLimit) ∧ 0 < (request (a 1)).toNat

instance (request : Request) : Decidable (IsHinted request) :=
  inferInstanceAs (Decidable (_ ∧ _))

/-- Runs of system calls, with the calls of the host that serve the guest's `mmap`. -/
inductive MmapRun (k : Kernel) :
    EcallState → List Request → List HostCall → EcallState → Prop
  | nil (s : EcallState) : MmapRun k s [] [] s
  | cons {s s₁ s' : EcallState} {request : Request} {requests : List Request} {call : HostCall}
      {calls : List HostCall} {host : Host} {bytes : BitVec 64 → BitVec 8}
      (hlegal : host.Legal k)
      (hcall : (s.enter request bytes).emulateEcall host = some s₁)
      (hforward : (s.enter request bytes).mmapForwarded = some call)
      (hrest : MmapRun k s₁ requests calls s') :
      MmapRun k s (request :: requests) (call :: calls) s'

/-- The range that a call asks for. -/
def rangeOf : HostCall → Nat × Nat
  | .mmap addr len _ _ _ _ => (addr.toNat, len.toNat)
  | .munmap addr len => (addr.toNat, len.toNat)

/-- The ranges asked for start at page boundaries, and are apart from each other and from the
stack. -/
structure HintsApart (stackSize : BitVec 64) (calls : List HostCall) : Prop where
  aligned : ∀ call ∈ calls, pageSize ∣ (rangeOf call).1
  pairwise : (calls.map rangeOf).Pairwise Apart
  stack : ∀ call ∈ calls, Apart (rangeOf call) (stackRange stackSize)

theorem rangeOf_mmapCall (s : EcallState) (addr : BitVec 64) :
    rangeOf (s.mmapCall addr) = (addr.toNat, (s.registerValues (a 1)).toNat) := rfl

section Step

variable {k : Kernel} {host : Host} {s s₁ : EcallState}

/-- The case `mmap` forwards this call, if any, and keeps the hint it used. -/
theorem emulateMmap_forwards :
    s.emulateMmap host =
      match s.mmapForwarded with
      | some call => { s.forward host call with
          lastHint := if s.UsesHint then s.hint else s.lastHint }
      | none => s.setA0 (if hasFlag (s.registerValues (a 3)) mapFixed then einval else eexist) := by
  unfold EcallState.emulateMmap EcallState.mmapForwarded
  dsimp only
  by_cases hfixed : hasFlag (s.registerValues (a 3)) mapFixed ∨
      hasFlag (s.registerValues (a 3)) mapFixedNoReplace
  · have hno : ¬ s.UsesHint := fun h => h.1 hfixed
    rw [if_neg (not_not.2 hfixed), if_neg hno, if_neg hno]
    by_cases habove : s.registerValues (a 0) > guestLimit
    · rw [if_pos habove, if_pos habove]
    · rw [if_neg habove, if_neg habove]
      rfl
  · rw [if_pos hfixed]
    by_cases huses : s.registerValues (a 0) = 0#64 ∨ s.registerValues (a 0) > guestLimit
    · have hyes : s.UsesHint := ⟨hfixed, huses⟩
      rw [if_pos huses, if_pos hyes, if_pos hyes]
      rfl
    · have hno : ¬ s.UsesHint := fun h => huses h.2
      rw [if_neg huses, if_neg hno, if_neg fun h => huses (.inr h), if_neg hno]
      rfl

/-- A request without a usable address is placed at the hint, which becomes the last one. -/
theorem hinted_step (h : IsHinted s.registerValues)
    (hcall : s.emulateEcall host = some s₁) :
    s.mmapForwarded = some (s.mmapCall s.hint) ∧ s₁.lastHint = s.hint := by
  obtain ⟨hnumber, hfixed, haddr, -⟩ := h
  have huses : s.UsesHint := ⟨hfixed, haddr⟩
  have hforward : s.mmapForwarded = some (s.mmapCall s.hint) := if_pos huses
  refine ⟨hforward, ?_⟩
  unfold EcallState.emulateEcall at hcall
  rw [hnumber] at hcall
  obtain rfl := Option.some.inj hcall
  rw [emulateMmap_forwards, hforward]
  exact if_pos huses

/-- A length, rounded up to pages. -/
def roundUp (len : Nat) : Nat := (len + (pageSize - 1)) / pageSize * pageSize

theorem hint_toNat (hle : (s.registerValues (a 1)).toNat ≤ s.lastHint.toNat) :
    s.hint.toNat =
      (s.lastHint.toNat - (s.registerValues (a 1)).toNat) / pageSize * pageSize := by
  unfold EcallState.hint alignDown
  rw [and_not_toNat, BitVec.toNat_sub_of_le hle]

/-- Below a page boundary the hint is as many pages down as the length needs. -/
theorem hint_aligned (haligned : pageSize ∣ s.lastHint.toNat)
    (hle : roundUp (s.registerValues (a 1)).toNat ≤ s.lastHint.toNat) :
    s.hint.toNat = s.lastHint.toNat - roundUp (s.registerValues (a 1)).toNat := by
  unfold roundUp at hle ⊢
  obtain ⟨q, hq⟩ := haligned
  rw [hint_toNat (by unfold pageSize at *; omega), hq]
  rw [hq] at hle
  unfold pageSize at *
  omega

end Step

section Runs

variable {k : Kernel} {host : Host} {s s' : EcallState} {requests : List Request}
  {calls : List HostCall}

/-- The lengths that the requests ask for. -/
def lengths (requests : List Request) : List Nat := requests.map fun r => (r (a 1)).toNat

/-- The ranges of a run go down from the last hint, page by page. -/
theorem MmapRun.descends (hrun : MmapRun k s requests calls s')
    (hrequests : ∀ request ∈ requests, IsHinted request) (haligned : pageSize ∣ s.lastHint.toNat)
    (hfits : ((lengths requests).map roundUp).sum ≤ s.lastHint.toNat) :
    Descends s.lastHint.toNat (calls.map rangeOf) ∧
      ∀ call ∈ calls, pageSize ∣ (rangeOf call).1 ∧ 0 < (rangeOf call).2 := by
  -- on the run; each range ends where the one before it begins, or in the page below
  induction hrun with
  | nil s => exact ⟨trivial, fun _ h => absurd h List.not_mem_nil⟩
  | @cons s s₁ s' request requests call calls host bytes hlegal hcall hforward hrest ih =>
      have hhinted := hrequests request (List.mem_cons_self ..)
      obtain ⟨hplaced, hlast⟩ := hinted_step (show IsHinted (s.enter request bytes).registerValues
        from hhinted) hcall
      obtain rfl := Option.some.inj (hforward.symm.trans hplaced)
      have hsum : roundUp (request (a 1)).toNat + ((lengths requests).map roundUp).sum ≤
          s.lastHint.toNat := hfits
      have hhint : s₁.lastHint.toNat = s.lastHint.toNat - roundUp (request (a 1)).toNat := by
        rw [hlast]
        exact hint_aligned (s := s.enter request bytes) haligned (Nat.le_of_add_right_le hsum)
      have hround : (request (a 1)).toNat ≤ roundUp (request (a 1)).toNat ∧
          pageSize ∣ roundUp (request (a 1)).toNat := by
        refine ⟨?_, Nat.dvd_mul_left _ _⟩
        unfold roundUp pageSize
        omega
      have halign₁ : pageSize ∣ s₁.lastHint.toNat := hhint ▸ Nat.dvd_sub haligned hround.2
      obtain ⟨hdown, hrestAligned⟩ := ih (fun r hr => hrequests r (List.mem_cons_of_mem _ hr))
        halign₁ (by omega)
      have hrange := rangeOf_mmapCall (s.enter request bytes) (s.enter request bytes).hint
      rw [← hlast] at hrange
      change _ = (s₁.lastHint.toNat, (request (a 1)).toNat) at hrange
      rw [← hlast]
      refine ⟨?_, fun call' hmem => ?_⟩
      · rw [List.map_cons, hrange]
        refine ⟨?_, hdown⟩
        dsimp only
        omega
      · rcases List.mem_cons.1 hmem with rfl | hmem
        · rw [hrange]
          exact ⟨halign₁, hhinted.2.2.2⟩
        · exact hrestAligned call' hmem

/-- Where `allocateStack` succeeds, the stack lies one page below the code buffer and is as long
as the page boundaries allow. -/
theorem allocateStack_placed {stackSize : BitVec 64} {space : Space} (hlegal : host.Legal k)
    (hstack : (allocateStack host stackSize space).1 ≠ invalidStack) :
    (stackStart stackSize).toNat + (stackSize + guard).toNat + pageSize = guestLimit.toNat ∧
      pageSize ∣ (stackSize + guard).toNat ∧ 0 < (stackSize + guard).toNat := by
  unfold allocateStack at hstack
  dsimp only at hstack
  split at hstack
  · exact absurd rfl hstack
  · rename_i hok
    split at hstack
    · exact absurd rfl hstack
    · rename_i hat
      obtain ⟨hpos, halign, hsize, -⟩ :=
        (hlegal (stackCall stackSize) space).resolve_left hok
      rw [not_not.1 hat] at halign hsize
      have htask := k.taskSize_lt
      have hlimit := guestLimit_toNat
      have hstart : (stackStart stackSize).toNat = (2 ^ 64 -
          ((stackSize + guard).toNat + 4096) % 2 ^ 64 + guestLimit.toNat) % 2 ^ 64 := by
        unfold stackStart
        rw [BitVec.toNat_sub, BitVec.toNat_add (stackSize + guard)]
        rfl
      have hlt := (stackSize + guard).isLt
      unfold pageSize at *
      omega

theorem setupMmapHint_toNat {stackSize : BitVec 64}
    (hplace : (stackStart stackSize).toNat + (stackSize + guard).toNat + pageSize =
      guestLimit.toNat) :
    (s.setupMmapHint (stackSize + guard)).lastHint.toNat =
      (stackStart stackSize).toNat + pageSize := by
  show (guestLimit - (stackSize + guard)).toNat = _
  rw [BitVec.toNat_sub_of_le (by rw [BitVec.le_def]; omega)]
  omega

/-- The first hint reaches into the lowest page of the stack. -/
theorem MmapRun.first_overlaps {stackSize : BitVec 64} {space : Space} {request : Request}
    (hlegal : host.Legal k) (hstack : (allocateStack host stackSize space).1 ≠ invalidStack)
    (hrun : MmapRun k (s.setupMmapHint (stackSize + guard)) (request :: requests) calls s')
    (hrequest : IsHinted request)
    (hfits : (request (a 1)).toNat ≤ (stackRange stackSize).1) :
    ∃ call ∈ calls, ¬ Apart (rangeOf call) (stackRange stackSize) := by
  obtain ⟨hplace, halign, hpos⟩ := allocateStack_placed hlegal hstack
  have hlast := setupMmapHint_toNat (s := s) hplace
  change (request (a 1)).toNat ≤ (stackStart stackSize).toNat at hfits
  have hlen := hrequest.2.2.2
  cases hrun with
  | @cons _ s₁ _ _ _ call calls host bytes hlegal' hcall hforward hrest =>
      have hplaced := (hinted_step (s := (s.setupMmapHint (stackSize + guard)).enter request bytes)
        hrequest hcall).1
      obtain rfl := Option.some.inj (hforward.symm.trans hplaced)
      have hhint := hint_toNat (s := (s.setupMmapHint (stackSize + guard)).enter request bytes)
        (show (request (a 1)).toNat ≤ (s.setupMmapHint (stackSize + guard)).lastHint.toNat by omega)
      change _ = ((s.setupMmapHint (stackSize + guard)).lastHint.toNat -
        (request (a 1)).toNat) / pageSize * pageSize at hhint
      refine ⟨_, List.mem_cons_self .., ?_⟩
      rw [rangeOf_mmapCall, hhint]
      rintro (hbelow | habove)
      · change _ + (request (a 1)).toNat ≤ (stackStart stackSize).toNat at hbelow
        unfold pageSize at *
        omega
      · change (stackStart stackSize).toNat + (stackSize + guard).toNat ≤ _ at habove
        unfold pageSize at *
        omega

/-- The hints of any run are page boundaries, and their ranges apart from each other; but the
ranges are apart from the guest stack if and only if the guest makes no request, since the
first hint is computed from an address one page above the bottom of the stack. All ranges but
the first are apart from it. -/
theorem mmapHints_apart_iff (k : Kernel) (host : Host) (hlegal : host.Legal k)
    (rlimit : Option (BitVec 64)) (space : Space)
    (hstack : (allocateStack host (stackSizeOf rlimit) space).1 ≠ invalidStack)
    (s s' : EcallState) (requests : List Request) (calls : List HostCall)
    (hrun : MmapRun k (s.setupMmapHint (stackSizeOf rlimit + guard)) requests calls s')
    (hrequests : ∀ request ∈ requests, IsHinted request)
    (hfits : (lengths requests).sum ≤ (stackRange (stackSizeOf rlimit)).1) :
    (HintsApart (stackSizeOf rlimit) calls ↔ requests = []) ∧
      (((lengths requests).map roundUp).sum ≤ (stackRange (stackSizeOf rlimit)).1 →
        (∀ call ∈ calls, pageSize ∣ (rangeOf call).1) ∧ (calls.map rangeOf).Pairwise Apart ∧
          ∀ call ∈ calls.tail, Apart (rangeOf call) (stackRange (stackSizeOf rlimit))) := by
  obtain ⟨hplace, halign, hpos⟩ := allocateStack_placed hlegal hstack
  have hlast := setupMmapHint_toNat (s := s) hplace
  refine ⟨⟨fun h => ?_, fun h => ?_⟩, fun hround => ?_⟩
  · cases requests with
    | nil => rfl
    | cons request requests =>
        obtain ⟨call, hmem, hoverlaps⟩ := hrun.first_overlaps hlegal hstack
          (hrequests request (List.mem_cons_self ..)) ((Nat.le_add_right ..).trans hfits)
        exact absurd (h.stack call hmem) hoverlaps
  · subst h
    cases hrun
    exact ⟨fun _ h => absurd h List.not_mem_nil, .nil, fun _ h => absurd h List.not_mem_nil⟩
  · change _ ≤ (stackStart (stackSizeOf rlimit)).toNat at hround
    have hlimit := guestLimit_toNat
    obtain ⟨hdown, haligned⟩ := hrun.descends hrequests
      (by rw [hlast]; unfold pageSize at *; omega) (by omega)
    refine ⟨fun call hmem => (haligned call hmem).1, hdown.pairwise, fun call hmem => .inl ?_⟩
    cases calls with
    | nil => exact absurd hmem List.not_mem_nil
    | cons first rest =>
        -- the first range takes the page above the bottom of the stack, the others lie below it
        have hbelow := hdown.2.below _ (List.mem_map_of_mem hmem)
        obtain ⟨hfirst, hlength⟩ := haligned first (List.mem_cons_self ..)
        have hend := hdown.1
        show _ ≤ (stackStart (stackSizeOf rlimit)).toNat
        unfold pageSize at *
        omega

end Runs

/-! ## A mapping over the guard page -/

/-- A kernel that serves one mapping at the address asked for, the first of a process. -/
def servesFirst (k : Kernel) : Host := fun call space =>
  match call with
  | .mmap addr len _ _ _ _ =>
      if space.next = 0 ∧ 0 < len.toNat ∧ pageSize ∣ addr.toNat ∧
          addr.toNat + len.toNat ≤ k.taskSize then ⟨addr, fun _ => 0#8⟩
      else ⟨-12#64, fun _ => 0#8⟩
  | .munmap _ _ => ⟨-12#64, fun _ => 0#8⟩

theorem servesFirst_legal (k : Kernel) : (servesFirst k).Legal k := by
  intro call space
  cases call with
  | munmap addr len => exact .inl isError_refused
  | mmap addr len prot flags fd off =>
      unfold servesFirst
      dsimp only
      split
      · rename_i h
        obtain ⟨hnext, hlen, halign, hsize⟩ := h
        refine .inr ⟨hlen, halign, hsize, fun _ => rfl, fun _ p _ => ?_, fun _ _ => rfl⟩
        cases hpage : space.page p with
        | none => rfl
        | some m => exact absurd (space.used p m hpage) (by omega)
      · exact .inl isError_refused

theorem nothing_mapped (p m : Nat) (h : (fun _ => none : Nat → Option Nat) p = some m) :
    m < 0 := by
  cases h

/-- An address space without mappings. -/
def emptySpace : Space := ⟨fun _ => none, 0, fun _ => 0#8, nothing_mapped⟩

/-- `mmap(NULL, 4096, PROT_READ | PROT_WRITE, MAP_ANONYMOUS | MAP_PRIVATE, -1, 0)`. -/
def anyPage : Request := requestOf 222#64 [0#64, 0x1000#64, 3#64, 0x22#64, -1#64, 0#64]

/-- The call that serves it first. -/
def anyPageCall : HostCall :=
  .mmap 0x77ff807fe000#64 0x1000#64 3#64 0x22#64 (-1#64) 0#64

theorem anyPage_run : ∃ s', MmapRun linux
    (bufferOnly.setupMmapHint (stackSizeOf none + guard)) [anyPage] [anyPageCall] s' :=
  ⟨_, @MmapRun.cons _ _ _ _ _ _ _ _ _ (fun _ => 0#8) (refusing_legal linux) rfl (by decide)
    (.nil _)⟩

theorem allocateStack_first :
    (allocateStack (servesFirst linux) (stackSizeOf none) emptySpace).1 ≠ invalidStack := by
  decide

/-- The same for a page and a half, at an address that lies beyond the guest's. -/
def anyBytes : Request :=
  requestOf 222#64 [0x7f0000000000#64, 0x1800#64, 3#64, 0x22#64, -1#64, 0#64]

/-- The call that serves it behind the other one. -/
def anyBytesCall : HostCall :=
  .mmap 0x77ff807fc000#64 0x1800#64 3#64 0x22#64 (-1#64) 0#64

theorem anyBytes_run : ∃ s', MmapRun linux
    (bufferOnly.setupMmapHint (stackSizeOf none + guard)) [anyPage, anyBytes]
    [anyPageCall, anyBytesCall] s' :=
  ⟨_, @MmapRun.cons _ _ _ _ _ _ _ _ _ (fun _ => 0#8) (refusing_legal linux) rfl (by decide)
    (@MmapRun.cons _ _ _ _ _ _ _ _ _ (fun _ => 1#8) (refusing_legal linux) rfl (by decide)
      (.nil _))⟩

/-- Of the two ranges the first one lies on the guard page, the second one below it. -/
theorem mmapHints_apart_iff_anyPage :
    ∃ s', MmapRun linux (bufferOnly.setupMmapHint (stackSizeOf none + guard))
        [anyPage, anyBytes] [anyPageCall, anyBytesCall] s' ∧
      ¬ HintsApart (stackSizeOf none) [anyPageCall, anyBytesCall] ∧
      Apart (rangeOf anyPageCall) (rangeOf anyBytesCall) ∧
      Apart (rangeOf anyBytesCall) (stackRange (stackSizeOf none)) := by
  obtain ⟨s', hrun⟩ := anyBytes_run
  obtain ⟨hiff, hrest⟩ := mmapHints_apart_iff linux (servesFirst linux) (servesFirst_legal linux)
    none emptySpace allocateStack_first bufferOnly s' [anyPage, anyBytes]
    [anyPageCall, anyBytesCall] hrun (by decide) (by decide)
  obtain ⟨-, hapart, htail⟩ := hrest (by decide)
  exact ⟨s', hrun, fun h => absurd (hiff.1 h) (List.cons_ne_nil _ _),
    List.rel_of_pairwise_cons hapart (List.mem_cons_self ..), htail _ (List.mem_cons_self ..)⟩

/-- The first page that a guest asks for is placed on the guard page of its stack. -/
theorem mmapHints_overlap :
    ¬ ∀ (k : Kernel) (host : Host) (rlimit : Option (BitVec 64)) (space : Space)
      (s s' : EcallState) (requests : List Request) (calls : List HostCall), host.Legal k →
      (allocateStack host (stackSizeOf rlimit) space).1 ≠ invalidStack →
      MmapRun k (s.setupMmapHint (stackSizeOf rlimit + guard)) requests calls s' →
      (∀ request ∈ requests, IsHinted request) →
      (lengths requests).sum ≤ (stackRange (stackSizeOf rlimit)).1 →
      HintsApart (stackSizeOf rlimit) calls := by
  intro hall
  obtain ⟨s', hrun⟩ := anyPage_run
  have hapart := hall linux (servesFirst linux) none emptySpace bufferOnly s' [anyPage]
    [anyPageCall] (servesFirst_legal linux) allocateStack_first hrun (by decide) (by decide)
  exact absurd (hapart.stack anyPageCall (List.mem_cons_self ..)) (by decide)

end RiaJit.Runtime
