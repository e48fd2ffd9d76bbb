import RiaJit.Runtime.EmulateEcall

/-!
# Guest mappings and the translator's region

Which system calls of the guest may touch pages of the translator. All checks of
`emulate_ecall` compare the start of a mapping with the limit, so a fixed mapping that
starts at or below the limit may reach over it; every other call leaves the pages alone.
-/

set_option autoImplicit false

namespace RiaJit.Runtime

open HostMemory

/-- A request for a fixed mapping that starts at or below the limit, ends above it and is
one that the kernel accepts. -/
def CrossesLimit (k : Kernel) (request : Request) : Prop :=
  (request (a 7)).toNat = 222 ∧ k.Replaces (request (a 3)) ∧
    pageSize ∣ (request (a 0)).toNat ∧ request (a 0) ≤ guestLimit ∧
    guestLimit.toNat < (request (a 0)).toNat + (request (a 1)).toNat ∧
    (request (a 0)).toNat + (request (a 1)).toNat ≤ k.taskSize

instance (k : Kernel) (request : Request) : Decidable (CrossesLimit k request) :=
  inferInstanceAs (Decidable (_ ∧ _))

/-- A request that is one of the modelled calls. -/
def IsMemoryCall (request : Request) : Prop :=
  (request (a 7)).toNat = 214 ∨ (request (a 7)).toNat = 215 ∨ (request (a 7)).toNat = 222

instance (request : Request) : Decidable (IsMemoryCall request) :=
  inferInstanceAs (Decidable (_ ∨ _))

section Calls

variable {k : Kernel} {host : Host} {s : EcallState}

/-- A range that ends at or below the limit touches no reserved page. -/
theorem apart_of_le {addr len : Nat} (hend : addr + len ≤ guestLimit.toNat) (p : Nat)
    (hp : Reserved p) : ¬ Touches addr len p := by
  intro htouch
  have hlt := htouch.2
  unfold Reserved at hp
  omega

/-- A mapping that replaces nothing keeps what is reserved. -/
theorem keeps_mmap_free (hlegal : host.Legal k) (addr len prot flags fd off : BitVec 64)
    (hreplaces : ¬ k.Replaces flags) :
    Keeps Reserved s.space (s.after host (.mmap addr len prot flags fd off)).space := by
  show Keeps _ _ (HostCall.effect _ _ _)
  unfold HostCall.effect
  split
  · exact Keeps.refl _
  · rename_i hok
    have hallowed := (hlegal (.mmap addr len prot flags fd off) s.space).resolve_left hok
    exact keeps_map_of_free _ (hallowed.2.2.2.2.1 hreplaces)

/-- So does one that ends below the limit. -/
theorem keeps_mmap_below (hlegal : host.Legal k) (addr len prot flags fd off : BitVec 64)
    (hreplaces : k.Replaces flags)
    (hbelow : pageSize ∣ addr.toNat → addr.toNat + len.toNat ≤ k.taskSize →
      addr.toNat + len.toNat ≤ guestLimit.toNat) :
    Keeps Reserved s.space (s.after host (.mmap addr len prot flags fd off)).space := by
  show Keeps _ _ (HostCall.effect _ _ _)
  unfold HostCall.effect
  split
  · exact Keeps.refl _
  · rename_i hok
    obtain ⟨-, haligned, hsize, hat, -⟩ :=
      (hlegal (.mmap addr len prot flags fd off) s.space).resolve_left hok
    rw [hat hreplaces] at haligned hsize
    have hend := hbelow haligned hsize
    refine keeps_map_of_apart _ fun p hp => ?_
    rw [hat hreplaces]
    exact apart_of_le hend p hp

/-- So does an unmapping below the limit. -/
theorem keeps_munmap (hlegal : host.Legal k) {addr len : BitVec 64}
    (hbelow : addr + len ≤ guestLimit) :
    Keeps Reserved s.space (s.after host (.munmap addr len)).space := by
  show Keeps _ _ (HostCall.effect _ _ _)
  unfold HostCall.effect
  split
  · exact Keeps.refl _
  · rename_i hok
    obtain ⟨-, -, -, hsize⟩ := (hlegal (.munmap addr len) s.space).resolve_left hok
    -- the kernel accepts no range past the end of the address space, so the sum is exact
    have hexact : (addr + len).toNat = addr.toNat + len.toNat := by
      rw [BitVec.toNat_add, Nat.mod_eq_of_lt (Nat.lt_of_le_of_lt hsize k.taskSize_lt)]
    have hend : addr.toNat + len.toNat ≤ guestLimit.toNat := by
      rw [← hexact]
      exact hbelow
    exact keeps_unmap_of_apart fun p hp => apart_of_le hend p hp

/-- A mapping at a wrong address replaced nothing, so its removal does no harm. -/
theorem keeps_mmap_munmap (hlegal : host.Legal k) {addr len prot flags fd off : BitVec 64}
    (hreplaces : ¬ k.Replaces flags)
    (hok : ¬ isError (host (.mmap addr len prot flags fd off) s.space).result) :
    Keeps Reserved s.space ((s.after host (.mmap addr len prot flags fd off)).after host
      (.munmap (host (.mmap addr len prot flags fd off) s.space).result len)).space := by
  have hallowed := (hlegal (.mmap addr len prot flags fd off) s.space).resolve_left hok
  have hfree := hallowed.2.2.2.2.1 hreplaces
  obtain ⟨contents, hmapped⟩ : ∃ contents, (s.after host (.mmap addr len prot flags fd off)).space =
      s.space.map (host (.mmap addr len prot flags fd off) s.space).result.toNat len.toNat contents
        :=
    ⟨_, if_neg hok⟩
  show Keeps _ _ (HostCall.effect _ _ _)
  unfold HostCall.effect
  rw [hmapped]
  split
  · exact keeps_map_of_free _ hfree
  · exact keeps_map_unmap _ hfree

/-- Growing the heap replaces nothing. -/
theorem growCall_keeps (k : Kernel) :
    ¬ k.Replaces (mapAnonymous ||| mapPrivate ||| mapFixedNoReplace) :=
  fun h => absurd h.1 (by decide)

theorem keeps_growMapped (hlegal : host.Legal k) (brkAddr : BitVec 64) :
    Keeps Reserved s.space (s.growMapped host brkAddr).space := by
  unfold EcallState.growMapped
  dsimp only
  split
  · exact keeps_mmap_free hlegal _ _ _ _ _ _ (growCall_keeps k)
  · rename_i hok
    split
    · exact keeps_mmap_munmap hlegal (growCall_keeps k) hok
    · exact keeps_mmap_free hlegal _ _ _ _ _ _ (growCall_keeps k)

/-- So does every call of `brk`. -/
theorem keeps_emulateBrk (hlegal : host.Legal k) :
    Keeps Reserved s.space (s.emulateBrk host).space := by
  unfold EcallState.emulateBrk EcallState.setA0
  dsimp only
  split
  · exact Keeps.refl _
  · split
    · unfold EcallState.moveWithin
      dsimp only
      split
      · exact fun _ _ _ h => h
      · exact Keeps.refl _
    · exact keeps_growMapped hlegal _

/-- So does every call of `munmap`, since it is refused above the limit. -/
theorem keeps_emulateMunmap (hlegal : host.Legal k) :
    Keeps Reserved s.space (s.emulateMunmap host).space := by
  unfold EcallState.emulateMunmap
  dsimp only
  split
  · exact Keeps.refl _
  · rename_i hlimit
    exact keeps_munmap hlegal (BitVec.not_lt.1 hlimit)

/-- So does every call of `mmap` but a fixed one that crosses the limit. -/
theorem keeps_emulateMmap (hlegal : host.Legal k) (hcall : (s.registerValues (a 7)).toNat = 222)
    (hcross : ¬ CrossesLimit k s.registerValues) :
    Keeps Reserved s.space (s.emulateMmap host).space := by
  unfold EcallState.emulateMmap
  dsimp only
  split
  · rename_i hflags
    have hreplaces : ¬ k.Replaces (s.registerValues (a 3)) := fun h => hflags (.inl h.1)
    split
    · exact keeps_mmap_free hlegal _ _ _ _ _ _ hreplaces
    · exact keeps_mmap_free hlegal _ _ _ _ _ _ hreplaces
  · split
    · exact Keeps.refl _
    · rename_i hlimit
      by_cases hreplaces : k.Replaces (s.registerValues (a 3))
      · refine keeps_mmap_below hlegal _ _ _ _ _ _ hreplaces fun haligned hsize => ?_
        by_contra hend
        exact hcross ⟨hcall, hreplaces, haligned, BitVec.not_lt.1 hlimit, Nat.lt_of_not_le hend,
          hsize⟩
      · exact keeps_mmap_free hlegal _ _ _ _ _ _ hreplaces

/-- One system call. -/
theorem keeps_emulateEcall (hlegal : host.Legal k) {s' : EcallState}
    (hcross : ¬ CrossesLimit k s.registerValues) (hcall : s.emulateEcall host = some s') :
    Keeps Reserved s.space s'.space := by
  unfold EcallState.emulateEcall at hcall
  split at hcall
  · obtain rfl := Option.some.inj hcall
    exact keeps_emulateBrk hlegal
  · obtain rfl := Option.some.inj hcall
    exact keeps_emulateMunmap hlegal
  · rename_i hnumber
    obtain rfl := Option.some.inj hcall
    exact keeps_emulateMmap hlegal hnumber hcross
  · cases hcall

/-- A run without such a request. -/
theorem keeps_run {s' : EcallState} {requests : List Request} (hrun : Run k s requests s')
    (hcross : ∀ request ∈ requests, ¬ CrossesLimit k request) :
    Keeps Reserved s.space s'.space := by
  induction hrun with
  | nil s => exact Keeps.refl _
  | cons hlegal hcall hrest ih =>
      have hone := keeps_emulateEcall hlegal (hcross _ List.mem_cons_self) hcall
      exact hone.trans (ih fun request hr => hcross request (List.mem_cons_of_mem _ hr))

end Calls

/-! ## The requests that reach over the limit -/

section Crossing

variable {k : Kernel} {s : EcallState} {request : Request}

/-- A kernel that serves a fixed mapping and refuses everything else. -/
def granting (call : HostCall) : Host := fun call' _ =>
  match call' with
  | .mmap addr _ _ _ _ _ => if call' = call then ⟨addr, fun _ => 0#8⟩ else ⟨-12#64, fun _ => 0#8⟩
  | .munmap _ _ => ⟨-12#64, fun _ => 0#8⟩

/-- A kernel may grant a mapping that replaces what is there. -/
theorem granting_legal {addr len prot flags fd off : BitVec 64} (hlen : 0 < len.toNat)
    (haligned : pageSize ∣ addr.toNat) (hsize : addr.toNat + len.toNat ≤ k.taskSize)
    (hreplaces : k.Replaces flags) :
    (granting (.mmap addr len prot flags fd off)).Legal k := by
  intro call space
  cases call with
  | munmap addr' len' => exact .inl isError_refused
  | mmap addr' len' prot' flags' fd' off' =>
      show HostCall.Allowed _ _ _ (granting _ (.mmap addr' len' prot' flags' fd' off') _).result
      unfold granting
      dsimp only
      split
      · rename_i heq
        cases heq
        exact .inr ⟨hlen, haligned, hsize, fun _ => rfl, fun h => absurd hreplaces h,
          fun _ _ => rfl⟩
      · exact .inl isError_refused

theorem granting_result (addr len prot flags fd off : BitVec 64) (space : Space) :
    (granting (.mmap addr len prot flags fd off) (.mmap addr len prot flags fd off) space).result =
      addr := by
  unfold granting
  dsimp only
  rw [if_pos rfl]

/-- The state when the guest makes a request. -/
def entering (s : EcallState) (request : Request) :
    EcallState := { s with registerValues := request }

/-- Such a request is forwarded as it is. -/
theorem emulateEcall_crossing (host : Host) (hcross : CrossesLimit k request) :
    (entering s request).emulateEcall host =
      some ((entering s request).forward host ((entering s request).mmapCall (request (a 0)))) := by
  obtain ⟨hnumber, hreplaces, -, hstart, -⟩ := hcross
  have hfixed : hasFlag ((entering s request).registerValues (a 3)) mapFixed := hreplaces.1
  have hbelow : ¬ (entering s request).registerValues (a 0) > guestLimit := BitVec.not_lt.2 hstart
  unfold EcallState.emulateEcall
  rw [show ((entering s request).registerValues (a 7)).toNat = 222 from hnumber]
  refine congrArg some ?_
  unfold EcallState.emulateMmap
  dsimp only
  rw [if_neg (not_not.2 (.inl hfixed)), if_neg hbelow]
  rfl

theorem not_isError_of_le {addr : BitVec 64} (h : addr ≤ guestLimit) : ¬ isError addr := by
  have hle : addr.toNat ≤ guestLimit.toNat := h
  rw [guestLimit_toNat] at hle
  intro herror
  change (-4096#64).toNat < addr.toNat at herror
  change 0xfffffffffffff000 < addr.toNat at herror
  omega

/-- The first page of the code buffer. -/
def bufferPage : Nat := 0x77ff81000

theorem bufferPage_spec : bufferPage * pageSize = guestLimit.toNat := by decide

/-- The request is served, and the first page of the code buffer is replaced. -/
theorem crossing_run (hcross : CrossesLimit k request) :
    ∃ s', Run k s [request] s' ∧
      ∀ m, s.space.page bufferPage = some m → s'.space.page bufferPage ≠ some m := by
  have hcall := emulateEcall_crossing (s := s)
    (granting ((entering s request).mmapCall (request (a 0)))) hcross
  obtain ⟨-, hreplaces, haligned, hstart, hend, hsize⟩ := hcross
  have hstart' : (request (a 0)).toNat ≤ guestLimit.toNat := hstart
  have hlegal : (granting ((entering s request).mmapCall (request (a 0)))).Legal k :=
    granting_legal (by change 0 < (request (a 1)).toNat; omega) haligned hsize hreplaces
  refine ⟨_, .cons hlegal hcall (.nil _), ?_⟩
  have hresult : (granting ((entering s request).mmapCall (request (a 0)))
      ((entering s request).mmapCall (request (a 0))) (entering s request).space).result =
      request (a 0) := granting_result ..
  intro m hm
  show (HostCall.effect _ _ s.space).page bufferPage ≠ some m
  unfold HostCall.effect
  rw [hresult, if_neg (not_isError_of_le hstart)]
  have htouch : Touches (request (a 0)).toNat (request (a 1)).toNat bufferPage := by
    have hpage : guestLimit.toNat / pageSize = bufferPage := by decide
    refine ⟨?_, ?_⟩
    · rw [← hpage]
      exact Nat.div_le_div_right hstart'
    · rw [bufferPage_spec]
      exact hend
  intro hnew
  have hnext : some s.space.next = some m := (map_page_inside _ htouch).symm.trans hnew
  obtain rfl := Option.some.inj hnext
  exact Nat.lt_irrefl _ (s.space.used _ _ hm)

/-- A run in which the kernel refuses everything. -/
theorem refused_run {requests : List Request} (hcalls : ∀ request ∈ requests, IsMemoryCall request)
    (s : EcallState) : ∃ s', Run k s requests s' := by
  induction requests generalizing s with
  | nil => exact ⟨s, .nil s⟩
  | cons request requests ih =>
      have hsome : ∃ s₁, (entering s request).emulateEcall Host.refusing = some s₁ := by
        unfold EcallState.emulateEcall
        rcases hcalls request List.mem_cons_self with h | h | h
        · rw [show ((entering s request).registerValues (a 7)).toNat = 214 from h]
          exact ⟨_, rfl⟩
        · rw [show ((entering s request).registerValues (a 7)).toNat = 215 from h]
          exact ⟨_, rfl⟩
        · rw [show ((entering s request).registerValues (a 7)).toNat = 222 from h]
          exact ⟨_, rfl⟩
      obtain ⟨s₁, hcall⟩ := hsome
      obtain ⟨s', hrest⟩ := ih (fun r hr => hcalls r (List.mem_cons_of_mem _ hr)) s₁
      exact ⟨s', .cons (refusing_legal k) hcall hrest⟩

/-- Runs compose. -/
theorem Run.append {s₁ s' : EcallState} {requests requests' : List Request}
    (h₁ : Run k s requests s₁) (h₂ : Run k s₁ requests' s') :
      Run k s (requests ++ requests') s' := by
  induction h₁ with
  | nil s => exact h₂
  | cons hlegal hcall _ ih => exact .cons hlegal hcall (ih h₂)

end Crossing

/-- A process of the x86-64 Linux, whose kernel knows `MAP_FIXED_NOREPLACE`. -/
def linux : Kernel := ⟨0x7ffffffff000, by decide, true⟩

/-- The state after `setupInstrMem`, when nothing else is mapped. -/
def bufferOnly : EcallState where
  registerValues := fun _ => 0#64
  lastHint := guestLimit
  curBrk := 0x20000#64
  initialBrk := 0x20000#64
  mappedBrk := 0x20000#64
  space :=
    { page := fun p =>
        if guestLimit.toNat ≤ p * pageSize ∧
          p * pageSize < translatorBase.toNat then some 0 else none
      next := 1
      bytes := fun _ => 0#8
      used := by
        intro p m h
        split at h
        · obtain rfl := Option.some.inj h
          exact Nat.one_pos
        · cases h }

theorem bufferOnly_mapped : CodeBufferMapped bufferOnly.space := by
  intro p hp hlt hnone
  have hsome : bufferOnly.space.page p = some 0 := if_pos ⟨hp, hlt⟩
  rw [hsome] at hnone
  cases hnone

/-- The registers of a system call with these arguments. -/
def requestOf (number : BitVec 64) (args : List (BitVec 64)) : Request := fun r =>
  if r = a 7 then number else args.getD (r - 10) 0#64

/-- A page is unmapped whose end is the limit, and a range that ends where addresses wrap. -/
def unmaps : List Request :=
  [requestOf 215#64 [guestLimit - 0x1000#64, 0x1000#64], requestOf 215#64 [guestLimit, -guestLimit]]

/-- `mmap(TRANSLATOR_BASE - STACK_OFFSET, 4096, PROT_READ | PROT_WRITE | PROT_EXEC,
MAP_FIXED | MAP_ANONYMOUS | MAP_PRIVATE, -1, 0)`. -/
def overlay : Request := requestOf 222#64 [guestLimit, 0x1000#64, 7#64, 0x32#64, -1#64, 0#64]

end RiaJit.Runtime
