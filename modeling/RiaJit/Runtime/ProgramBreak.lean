import RiaJit.Runtime.EmulateEcall

/-!
# The program break

The heap lies between `initialBrk` and `curBrk`; its pages are mapped up to `mappedBrk`.
The pages above the break may hold what the guest left there before it lowered the
break, so growing clears them.
-/

set_option autoImplicit false

namespace RiaJit.Runtime

open HostMemory

/-- What holds of the break between system calls. -/
structure BreakInv (s : EcallState) : Prop where
  initial_le : s.initialBrk ≤ s.curBrk
  cur_le : s.curBrk ≤ s.mappedBrk
  aligned : pageSize ∣ s.mappedBrk.toNat
  mapped : ∀ x, s.initialBrk ≤ x → x < s.mappedBrk → s.space.page (x.toNat / pageSize) ≠ none

/-- The kernel gives the pages above `mappedBrk` that a break at `brkAddr` needs, where the
call asks for them. -/
def Honoured (host : Host) (s : EcallState) (brkAddr : BitVec 64) : Prop :=
  ¬ isError (host (s.growCall (alignUp brkAddr)) s.space).result ∧
    (host (s.growCall (alignUp brkAddr)) s.space).result = s.mappedBrk

/-- What a call does, from the state before it to the state after it. -/
structure BreakEffect (host : Host) (s s' : EcallState) : Prop where
  result : s'.registerValues (a 0) = s'.curBrk
  granted : s.initialBrk ≤ s.registerValues (a 0) →
    s.registerValues (a 0) ≤ s.mappedBrk ∨ Honoured host s (s.registerValues (a 0)) →
      s'.curBrk = s.registerValues (a 0)
  initial : s'.initialBrk = s.initialBrk
  grown : ∀ x, s.curBrk ≤ x → x < s'.curBrk → s'.space.bytes x = 0#8
  kept : ∀ x, s.initialBrk ≤ x → x < s.curBrk → s'.space.bytes x = s.space.bytes x
  refused : s'.curBrk ≠ s.registerValues (a 0) →
    s'.curBrk = s.curBrk ∧ s'.mappedBrk = s.mappedBrk ∧ Undisturbed s.space s'.space

/-- The guest runs between two calls: it may do anything but change the break or unmap
pages of the heap. -/
structure Between (s s' : EcallState) : Prop where
  initial : s'.initialBrk = s.initialBrk
  cur : s'.curBrk = s.curBrk
  mapped : s'.mappedBrk = s.mappedBrk
  heap : ∀ x, s.initialBrk ≤ x → x < s.mappedBrk → s.space.page (x.toNat / pageSize) ≠ none →
    s'.space.page (x.toNat / pageSize) ≠ none

/-- The states that are reached from `setupBrk` by calls of `brk` and by the guest. -/
inductive BreakReached (k : Kernel) : EcallState → Prop
  | setup (s : EcallState) (brk : BitVec 64) (haligned : pageSize ∣ brk.toNat) :
      BreakReached k (s.setupBrk brk)
  | guest {s s' : EcallState} (hs : BreakReached k s) (hguest : Between s s') : BreakReached k s'
  | brk {s s' : EcallState} {host : Host} (hs : BreakReached k s) (hlegal : host.Legal k)
      (hnumber : s.registerValues (a 7) = 214#64) (hcall : s.emulateEcall host = some s') :
      BreakReached k s'

/-! ## Arithmetic of addresses -/

/-- The low bits of an address are cleared. -/
theorem and_not_low (x : BitVec 64) (k : Nat) :
    (x &&& ~~~BitVec.ofNat 64 (2 ^ k - 1)).toNat = x.toNat / 2 ^ k * 2 ^ k := by
  have hshift : x &&& ~~~BitVec.ofNat 64 (2 ^ k - 1) = (x >>> k) <<< k := by
    apply BitVec.eq_of_getLsbD_eq
    intro i hi
    rw [BitVec.getLsbD_and, BitVec.getLsbD_not, BitVec.getLsbD_ofNat, Nat.testBit_two_pow_sub_one,
      BitVec.getLsbD_shiftLeft, BitVec.getLsbD_ushiftRight]
    by_cases h : i < k
    · simp [h, hi]
    · simp [h, hi, Nat.add_sub_cancel' (Nat.not_lt.1 h)]
  have hle : x.toNat / 2 ^ k * 2 ^ k ≤ x.toNat := Nat.div_mul_le_self _ _
  rw [hshift, BitVec.toNat_shiftLeft, BitVec.toNat_ushiftRight, Nat.shiftLeft_eq,
    Nat.shiftRight_eq_div_pow]
  exact Nat.mod_eq_of_lt (hle.trans_lt x.isLt)

theorem and_not_toNat (x : BitVec 64) :
    (x &&& ~~~4095#64).toNat = x.toNat / pageSize * pageSize :=
  and_not_low x 12

/-- An address that is rounded up is a page boundary. -/
theorem alignUp_aligned (x : BitVec 64) : pageSize ∣ (alignUp x).toNat := by
  unfold alignUp
  rw [and_not_toNat]
  exact Nat.dvd_mul_left _ _

/-- The sum in `alignUp` may wrap, and is then rounded to zero. -/
theorem alignUp_ge (x : BitVec 64) : (alignUp x).toNat = 0 ∨ x.toNat ≤ (alignUp x).toNat := by
  unfold alignUp
  rw [and_not_toNat, BitVec.toNat_add]
  have hlt := x.isLt
  change _ % _ / _ * _ = 0 ∨ _
  rw [show (4095#64).toNat = 4095 from rfl]
  unfold pageSize
  omega

section Clear

variable {s : EcallState} {start stop : BitVec 64}

/-- Cleared bytes are zero. -/
theorem clear_inside {x : BitVec 64} (h : start ≤ x) (h' : x < stop) :
    (s.clear start (stop - start)).space.bytes x = 0#8 := by
  refine if_pos ?_
  bv_omega

/-- Bytes below are not cleared. -/
theorem clear_below {x : BitVec 64} (h : x < start) (h' : start ≤ stop) :
    (s.clear start (stop - start)).space.bytes x = s.space.bytes x := by
  refine if_neg ?_
  bv_omega

end Clear

/-! ## The cases of the call -/

section Cases

variable {k : Kernel} {host : Host} {s s' : EcallState}

/-- A call that leaves the break where it is. -/
structure Refused (s s' : EcallState) : Prop where
  initial : s'.initialBrk = s.initialBrk
  cur : s'.curBrk = s.curBrk
  mapped : s'.mappedBrk = s.mappedBrk
  space : Undisturbed s.space s'.space

/-- A call that moves the break to `brkAddr`. -/
structure Moved (s s' : EcallState) (brkAddr : BitVec 64) : Prop where
  initial : s'.initialBrk = s.initialBrk
  cur : s'.curBrk = brkAddr
  le_mapped : brkAddr ≤ s'.mappedBrk
  mapped_le : s.mappedBrk ≤ s'.mappedBrk
  aligned : pageSize ∣ s'.mappedBrk.toNat
  pages : ∀ x, s.initialBrk ≤ x → x < s'.mappedBrk → s'.space.page (x.toNat / pageSize) ≠ none
  grown : ∀ x, s.curBrk ≤ x → x < brkAddr → s'.space.bytes x = 0#8
  kept : ∀ x, s.initialBrk ≤ x → x < s.curBrk → s'.space.bytes x = s.space.bytes x

/-- A refused call keeps the invariant. -/
theorem Refused.inv (hr : Refused s s') (hinv : BreakInv s) : BreakInv s' := by
  refine ⟨?_, ?_, ?_, fun x hlo hhi => ?_⟩
  · rw [hr.initial, hr.cur]
    exact hinv.initial_le
  · rw [hr.cur, hr.mapped]
    exact hinv.cur_le
  · rw [hr.mapped]
    exact hinv.aligned
  · rw [hr.initial] at hlo
    rw [hr.mapped] at hhi
    have hold := hinv.mapped x hlo hhi
    rw [hr.space.page _ hold]
    exact hold

/-- A granted call keeps it. -/
theorem Moved.inv {brkAddr : BitVec 64} (hm : Moved s s' brkAddr)
    (hle : s.initialBrk ≤ brkAddr) : BreakInv s' := by
  refine ⟨?_, ?_, hm.aligned, fun x hlo hhi => hm.pages x ?_ hhi⟩
  · rw [hm.initial, hm.cur]
    exact hle
  · rw [hm.cur]
    exact hm.le_mapped
  · rw [hm.initial] at hlo
    exact hlo

/-- Within the mapped pages the break is moved, and what is new of the heap is cleared. -/
theorem moveWithin_moved (hinv : BreakInv s) {brkAddr : BitVec 64} (hle : brkAddr ≤ s.mappedBrk) :
    Moved s (s.moveWithin brkAddr) brkAddr := by
  unfold EcallState.moveWithin
  split
  · rename_i hgrow
    refine ⟨rfl, rfl, hle, BitVec.le_refl _, hinv.aligned, hinv.mapped, fun x hlo hhi => ?_,
      fun x _ hhi => ?_⟩
    · exact clear_inside hlo hhi
    · exact clear_below hhi (BitVec.le_of_lt hgrow)
  · rename_i hshrink
    refine ⟨rfl, rfl, hle, BitVec.le_refl _, hinv.aligned, hinv.mapped, fun x hlo hhi => ?_,
      fun _ _ _ => rfl⟩
    -- the break was lowered, so no byte is new
    exact absurd (Nat.lt_of_le_of_lt hlo hhi) hshrink

/-- What the kernel may have done when the request of `growCall` succeeded. -/
theorem growCall_allowed (hlegal : host.Legal k) (newMappedBrk : BitVec 64)
    (hok : ¬ isError (host (s.growCall newMappedBrk) s.space).result) :
    0 < (newMappedBrk - s.mappedBrk).toNat ∧
      (host (s.growCall newMappedBrk) s.space).result.toNat +
        (newMappedBrk - s.mappedBrk).toNat < 2 ^ 64 ∧
      s.space.Free (host (s.growCall newMappedBrk) s.space).result.toNat
        (newMappedBrk - s.mappedBrk).toNat := by
  obtain ⟨hlen, -, hsize, -, hfree, -⟩ :=
    (hlegal (s.growCall newMappedBrk) s.space).resolve_left hok
  refine ⟨hlen, Nat.lt_of_le_of_lt hsize k.taskSize_lt, hfree fun h => ?_⟩
  exact absurd h.1 (by decide)

/-- A request that ends where addresses wrap is refused by the kernel. -/
theorem newMappedBrk_gt {newMappedBrk : BitVec 64} (hlen : 0 < (newMappedBrk - s.mappedBrk).toNat)
    (hsize : s.mappedBrk.toNat + (newMappedBrk - s.mappedBrk).toNat < 2 ^ 64) :
    s.mappedBrk.toNat < newMappedBrk.toNat ∧
      s.mappedBrk.toNat + (newMappedBrk - s.mappedBrk).toNat = newMappedBrk.toNat := by
  have hlt := newMappedBrk.isLt
  have hlt' := s.mappedBrk.isLt
  rw [BitVec.toNat_sub] at hlen hsize ⊢
  omega

/-- The space after the request of `growCall` succeeded. -/
theorem growCall_space (newMappedBrk : BitVec 64)
    (hok : ¬ isError (host (s.growCall newMappedBrk) s.space).result) :
    (s.after host (s.growCall newMappedBrk)).space =
      s.space.map (host (s.growCall newMappedBrk) s.space).result.toNat
        (newMappedBrk - s.mappedBrk).toNat fun _ => 0#8 := by
  have hanon : hasFlag (mapAnonymous ||| mapPrivate ||| mapFixedNoReplace) mapAnonymous := by decide
  show (HostCall.mmap s.mappedBrk _ protReadWrite _ 0#64 0#64).effect _ s.space = _
  exact effect_anonymous s.space hok hanon

/-- The pages of a range from an aligned address are those of its bytes. -/
theorem touches_iff {addr len : Nat} (haligned : pageSize ∣ addr) (x : Nat)
    (hend : pageSize ∣ addr + len) :
    Touches addr len (x / pageSize) ↔ addr ≤ x ∧ x < addr + len := by
  obtain ⟨m, rfl⟩ := haligned
  obtain ⟨n, hn⟩ := hend
  unfold Touches
  rw [hn]
  unfold pageSize at *
  omega

/-- With new pages the break is moved, and old bytes above it are cleared too. -/
theorem growMapped_moved (hinv : BreakInv s) (hlegal : host.Legal k) {brkAddr : BitVec 64}
    (hok : ¬ isError (host (s.growCall (alignUp brkAddr)) s.space).result)
    (hat : (host (s.growCall (alignUp brkAddr)) s.space).result = s.mappedBrk) :
    Moved s { (s.after host (s.growCall (alignUp brkAddr))).clear s.curBrk
      (s.mappedBrk - s.curBrk) with mappedBrk := alignUp brkAddr, curBrk := brkAddr } brkAddr := by
  have hspace := growCall_space (alignUp brkAddr) hok
  obtain ⟨hlen, hsize, -⟩ := growCall_allowed hlegal (alignUp brkAddr) hok
  rw [hat] at hspace hsize
  obtain ⟨hgt, hend⟩ := newMappedBrk_gt hlen hsize
  have hle : brkAddr.toNat ≤ (alignUp brkAddr).toNat := by
    have := alignUp_ge brkAddr
    omega
  -- both ends of the new mapping are page aligned, so its pages hold its bytes and no others
  have htouch : ∀ x : BitVec 64, Touches s.mappedBrk.toNat (alignUp brkAddr - s.mappedBrk).toNat
      (x.toNat / pageSize) ↔ s.mappedBrk ≤ x ∧ x < alignUp brkAddr := by
    intro x
    rw [touches_iff hinv.aligned _ (by rw [hend]; exact alignUp_aligned _), hend]
    rfl
  have hpage : ∀ x : BitVec 64, s.space.page (x.toNat / pageSize) ≠ none ∨
      (s.mappedBrk ≤ x ∧ x < alignUp brkAddr) →
      (s.after host (s.growCall (alignUp brkAddr))).space.page (x.toNat / pageSize) ≠ none := by
    intro x hx
    rw [hspace]
    by_cases hin : s.mappedBrk ≤ x ∧ x < alignUp brkAddr
    · rw [map_page_inside _ ((htouch x).2 hin)]
      exact Option.some_ne_none _
    · rw [map_page_outside _ fun h => hin ((htouch x).1 h)]
      exact hx.resolve_right hin
  have hnew : ∀ x : BitVec 64, s.mappedBrk ≤ x → x < alignUp brkAddr →
      (s.after host (s.growCall (alignUp brkAddr))).space.bytes x = 0#8 := by
    intro x hlo hhi
    rw [hspace]
    exact if_pos ((htouch x).2 ⟨hlo, hhi⟩)
  have hold : ∀ x : BitVec 64, x < s.mappedBrk →
      (s.after host (s.growCall (alignUp brkAddr))).space.bytes x = s.space.bytes x := by
    intro x hhi
    rw [hspace]
    refine if_neg fun h => ?_
    exact absurd ((htouch x).1 h).1 (BitVec.not_le.2 hhi)
  refine ⟨rfl, rfl, hle, Nat.le_of_lt hgt, alignUp_aligned _, fun x hlo hhi => ?_,
    fun x hlo hhi => ?_, fun x _ hhi => ?_⟩
  · refine hpage x ?_
    by_cases hx : x < s.mappedBrk
    · exact .inl (hinv.mapped x hlo hx)
    · exact .inr ⟨BitVec.not_lt.1 hx, hhi⟩
  · by_cases hx : x < s.mappedBrk
    · -- a stale byte of a page that was mapped before
      exact clear_inside hlo hx
    · -- a byte of the new pages, which the kernel has zeroed
      have hfresh := hnew x (BitVec.not_lt.1 hx) (Nat.lt_of_lt_of_le hhi hle)
      have hge := BitVec.not_lt.1 hx
      have hoff : ¬ (x - s.curBrk).toNat < (s.mappedBrk - s.curBrk).toNat := by
        have hcur := hinv.cur_le
        bv_omega
      exact (if_neg hoff).trans hfresh
  · exact (clear_below hhi hinv.cur_le).trans
      (hold x (Nat.lt_of_lt_of_le hhi hinv.cur_le))

/-- The break is moved, or the kernel did not give the pages and nothing changes. -/
theorem growMapped_spec (hinv : BreakInv s) (hlegal : host.Legal k) (brkAddr : BitVec 64) :
    ¬ Honoured host s brkAddr ∧ Refused s (s.growMapped host brkAddr) ∨
      Moved s (s.growMapped host brkAddr) brkAddr := by
  unfold EcallState.growMapped
  dsimp only
  split
  · rename_i herror
    have hsame : (s.after host (s.growCall (alignUp brkAddr))).space = s.space := if_pos herror
    refine .inl ⟨fun h => h.1 herror, rfl, rfl, rfl, ?_⟩
    rw [hsame]
    exact Undisturbed.refl _
  · rename_i hok
    split
    · rename_i helsewhere
      refine .inl ⟨fun h => helsewhere h.2, rfl, rfl, rfl, ?_⟩
      obtain ⟨-, -, hfree⟩ := growCall_allowed hlegal (alignUp brkAddr) hok
      have hspace := growCall_space (alignUp brkAddr) hok
      show Undisturbed s.space ((HostCall.munmap _ _).effect _
        (s.after host (s.growCall (alignUp brkAddr))).space)
      unfold HostCall.effect
      rw [hspace]
      split
      · exact undisturbed_map _ hfree
      · exact undisturbed_map_unmap _ hfree
    · rename_i hat
      exact .inr (growMapped_moved hinv hlegal hok (not_not.1 hat))

end Cases

/-! ## Runs -/

section Runs

variable {k : Kernel} {host : Host} {s s' : EcallState}

/-- The call without its result: the break is moved to where the guest wants it, or it stays
where it is, since that is below the heap or the kernel does not give the pages. -/
theorem emulateBrk_cases (hinv : BreakInv s) (hlegal : host.Legal k) :
    ∃ s₁, s.emulateBrk host = s₁.setA0 s₁.curBrk ∧
      ((s.registerValues (a 0) < s.initialBrk ∨ s.mappedBrk < s.registerValues (a 0) ∧
          ¬ Honoured host s (s.registerValues (a 0))) ∧ Refused s s₁ ∨
        s.initialBrk ≤ s.registerValues (a 0) ∧ Moved s s₁ (s.registerValues (a 0))) := by
  refine ⟨_, rfl, ?_⟩
  split
  · rename_i hinitial
    exact .inl ⟨.inl hinitial, rfl, rfl, rfl, Undisturbed.refl _⟩
  · rename_i hinitial
    have hle := BitVec.not_lt.1 hinitial
    split
    · rename_i hwithin
      exact .inr ⟨hle, moveWithin_moved hinv hwithin⟩
    · rename_i habove
      rcases growMapped_spec hinv hlegal (s.registerValues (a 0)) with ⟨hnot, hr⟩ | hm
      · exact .inl ⟨.inr ⟨BitVec.not_le.1 habove, hnot⟩, hr⟩
      · exact .inr ⟨hle, hm⟩

/-- Every call keeps the invariant. -/
theorem emulateBrk_inv (hinv : BreakInv s) (hlegal : host.Legal k) :
    BreakInv (s.emulateBrk host) := by
  obtain ⟨s₁, heq, ⟨-, hr⟩ | ⟨hle, hm⟩⟩ := emulateBrk_cases hinv hlegal
  · have h₁ := hr.inv hinv
    rw [heq]
    exact ⟨h₁.initial_le, h₁.cur_le, h₁.aligned, h₁.mapped⟩
  · have h₁ := hm.inv hle
    rw [heq]
    exact ⟨h₁.initial_le, h₁.cur_le, h₁.aligned, h₁.mapped⟩

/-- Every call has the effect it should have. -/
theorem emulateBrk_effect (hinv : BreakInv s) (hlegal : host.Legal k) :
    BreakEffect host s (s.emulateBrk host) := by
  obtain ⟨s₁, heq, hcase⟩ := emulateBrk_cases hinv hlegal
  have hresult : (s₁.setA0 s₁.curBrk).registerValues (a 0) = s₁.curBrk := by
    exact Function.update_self (a 0) s₁.curBrk s₁.registerValues
  rw [heq]
  rcases hcase with ⟨hwhy, hr⟩ | ⟨-, hm⟩
  · refine ⟨hresult, fun hle hgiven => ?_, hr.initial, fun x hlo hhi => ?_,
      fun x hlo hhi => ?_, fun _ => ⟨hr.cur, hr.mapped, hr.space⟩⟩
    · rcases hwhy with hbelow | ⟨habove, hnot⟩
      · exact absurd hbelow (BitVec.not_lt.2 hle)
      · exact (hgiven.elim (BitVec.not_le.2 habove) hnot).elim
    · have hlt : x < s.curBrk := by
        rw [← hr.cur]
        exact hhi
      exact absurd hlt (BitVec.not_lt.2 hlo)
    · exact hr.space.bytes x (hinv.mapped x hlo (Nat.lt_of_lt_of_le hhi hinv.cur_le))
  · refine ⟨hresult, fun _ _ => hm.cur, hm.initial, fun x hlo hhi => hm.grown x hlo ?_, hm.kept,
      fun hne => absurd hm.cur hne⟩
    rw [← hm.cur]
    exact hhi

theorem emulateEcall_brk (host : Host) (hnumber : s.registerValues (a 7) = 214#64) :
    s.emulateEcall host = some (s.emulateBrk host) := by
  unfold EcallState.emulateEcall
  rw [hnumber]
  rfl

/-- The invariant holds in every reachable state, by induction on how it is reached. -/
theorem breakInv_of_reached (hreached : BreakReached k s) : BreakInv s := by
  induction hreached with
  | setup s brk haligned =>
      refine ⟨BitVec.le_refl _, BitVec.le_refl _, haligned, fun x hlo hhi => ?_⟩
      exact absurd hhi (BitVec.not_lt.2 hlo)
  | guest _ hguest ih =>
      refine ⟨?_, ?_, ?_, fun x hlo hhi => ?_⟩
      · rw [hguest.initial, hguest.cur]
        exact ih.initial_le
      · rw [hguest.cur, hguest.mapped]
        exact ih.cur_le
      · rw [hguest.mapped]
        exact ih.aligned
      · rw [hguest.initial] at hlo
        rw [hguest.mapped] at hhi
        exact hguest.heap x hlo hhi (ih.mapped x hlo hhi)
  | brk _ hlegal hnumber hcall ih =>
      rw [emulateEcall_brk _ hnumber] at hcall
      obtain rfl := Option.some.inj hcall
      exact emulateBrk_inv ih hlegal

end Runs

/-- In every state that calls of `brk` and the guest reach, the break and its pages are as
they should be, and every further call has the effect it should have. -/
theorem brk_heap (k : Kernel) (s : EcallState) (hreached : BreakReached k s) :
    BreakInv s ∧ ∀ host : Host, host.Legal k → s.registerValues (a 7) = 214#64 →
      ∃ s', s.emulateEcall host = some s' ∧ BreakInv s' ∧ BreakEffect host s s' := by
  have hinv := breakInv_of_reached hreached
  refine ⟨hinv, fun host hlegal hnumber => ?_⟩
  exact ⟨_, emulateEcall_brk host hnumber, emulateBrk_inv hinv hlegal,
    emulateBrk_effect hinv hlegal⟩

/-- The guest asks for a break, after it filled its memory with a byte. -/
def EcallState.asking (s : EcallState) (brkAddr : BitVec 64) (byte : BitVec 8) : EcallState :=
  { s with
    registerValues := fun r => if r = a 7 then 214#64 else brkAddr
    space := { s.space with bytes := fun _ => byte } }

theorem BreakReached.asking {k : Kernel} {s : EcallState} (hs : BreakReached k s)
    (brkAddr : BitVec 64) (byte : BitVec 8) : BreakReached k (s.asking brkAddr byte) :=
  .guest hs ⟨rfl, rfl, rfl, fun _ _ _ h => h⟩

theorem BreakReached.call {k : Kernel} {s : EcallState} {host : Host} (hs : BreakReached k s)
    (hlegal : host.Legal k) (brkAddr : BitVec 64) (byte : BitVec 8) :
    BreakReached k ((s.asking brkAddr byte).emulateBrk host) :=
  .brk (hs.asking brkAddr byte) hlegal rfl (emulateEcall_brk host rfl)

/-- A kernel of 47-bit addresses that gives the page at `0x20000`, where it is free. -/
def onePage : Host := fun call space =>
  if call = .mmap 0x20000#64 0x1000#64 protReadWrite
      (mapAnonymous ||| mapPrivate ||| mapFixedNoReplace) 0#64 0#64 ∧ space.page 32 = none then
    ⟨0x20000#64, fun _ => 0#8⟩
  else Host.refusing call space

theorem onePage_legal : onePage.Legal ⟨0x7ffffffff000, by decide, true⟩ := by
  intro call space
  unfold onePage
  split
  · rename_i h
    obtain ⟨rfl, hfree⟩ := h
    refine .inr ⟨by decide, by decide, by decide, fun _ => rfl, fun _ p htouch => ?_,
      fun _ _ => rfl⟩
    obtain ⟨hlo, hhi⟩ := htouch
    change 32 ≤ p at hlo
    change p * 4096 < 0x21000 at hhi
    obtain rfl : p = 32 := by omega
    exact hfree
  · exact refusing_legal _ call space

/-- The state in which a program that grew its heap to `0x20800`, filled it and lowered
the break wants to grow it again. -/
def regrowing : EcallState :=
  let start : EcallState := ⟨fun _ => 0#64, 0#64, 0#64, 0#64, 0#64,
    ⟨fun _ => none, 0, fun _ => 0#8, nofun⟩⟩
  let grown := ((start.setupBrk 0x20000#64).asking 0x20800#64 0#8).emulateBrk onePage
  let lowered := (grown.asking 0x20000#64 0xff#8).emulateBrk Host.refusing
  lowered.asking 0x20800#64 0xff#8

example : regrowing.curBrk = 0x20000#64 ∧ regrowing.mappedBrk = 0x21000#64 := by decide

theorem regrowing_reached : BreakReached ⟨0x7ffffffff000, by decide, true⟩ regrowing :=
  ((((BreakReached.setup _ _ (by decide)).call onePage_legal _ _).call (refusing_legal _) _
    _).asking _ _)

/-- The break is raised over bytes that the guest had written before it lowered it. -/
theorem brk_heap_regrowing :
    ∃ s', regrowing.emulateEcall Host.refusing = some s' ∧ BreakInv s' ∧
      BreakEffect Host.refusing regrowing s' :=
  (brk_heap _ regrowing regrowing_reached).2 Host.refusing (refusing_legal _) rfl

end RiaJit.Runtime
