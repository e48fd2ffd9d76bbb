import Mathlib.Data.BitVec

/-!
# Memory mappings of a process

What `mmap` and `munmap` do to the address space of a process, and which results the
kernel may give. Pages are numbered; every mapping has an identity, so that a page that
was replaced differs from what it was. A failed call changes nothing. Only a request
with `MAP_FIXED` replaces pages that are mapped.
-/

set_option autoImplicit false

namespace HostMemory

/-- The size of a page. -/
def pageSize : Nat := 4096

/-- Whether a page has a byte of the range of `len` bytes at the page boundary `addr`. -/
def Touches (addr len p : Nat) : Prop := addr / pageSize ≤ p ∧ p * pageSize < addr + len

instance (addr len p : Nat) : Decidable (Touches addr len p) := inferInstanceAs (Decidable (_ ∧ _))

/-- An address space: the mapping of each page, the identity of the next mapping, and the
bytes. -/
structure Space where
  page : Nat → Option Nat
  next : Nat
  bytes : BitVec 64 → BitVec 8
  used : ∀ p m, page p = some m → m < next

/-- No page of a range is mapped. -/
def Space.Free (a : Space) (addr len : Nat) : Prop := ∀ p, Touches addr len p → a.page p = none

/-- A new mapping of a range, which replaces what was there. -/
def Space.map (a : Space) (addr len : Nat) (contents : BitVec 64 → BitVec 8) : Space where
  page := fun p => if Touches addr len p then some a.next else a.page p
  next := a.next + 1
  bytes := fun x => if Touches addr len (x.toNat / pageSize) then contents x else a.bytes x
  used := by
    intro p m h
    split at h
    · obtain rfl := Option.some.inj h
      exact Nat.lt_succ_self _
    · exact Nat.lt_succ_of_lt (a.used p m h)

/-- The mappings of a range are removed. -/
def Space.unmap (a : Space) (addr len : Nat) : Space where
  page := fun p => if Touches addr len p then none else a.page p
  next := a.next
  bytes := a.bytes
  used := by
    intro p m h
    split at h
    · cases h
    · exact a.used p m h

/-! ## Calls -/

/-- `MAP_FIXED`. -/
def mapFixed : BitVec 64 := 0x10#64

/-- `MAP_ANONYMOUS`. -/
def mapAnonymous : BitVec 64 := 0x20#64

/-- `MAP_PRIVATE`. -/
def mapPrivate : BitVec 64 := 0x2#64

/-- `MAP_FIXED_NOREPLACE`. -/
def mapFixedNoReplace : BitVec 64 := 0x100000#64

/-- `flags & flag`, as a condition. -/
def hasFlag (flags flag : BitVec 64) : Prop := flags &&& flag ≠ 0#64

instance (flags flag : BitVec 64) : Decidable (hasFlag flags flag) :=
  inferInstanceAs (Decidable (¬ _))

/-- The system calls, with their arguments. -/
inductive HostCall where
  | mmap (addr len prot flags fd off : BitVec 64)
  | munmap (addr len : BitVec 64)
  deriving DecidableEq, Repr

/-- The kernel: the end of the address space of a process, and whether the flag
`MAP_FIXED_NOREPLACE` is known to it. -/
structure Kernel where
  taskSize : Nat
  taskSize_lt : taskSize < 2 ^ 64
  knowsNoReplace : Bool

/-- Whether a request replaces what is mapped. A kernel that knows `MAP_FIXED_NOREPLACE`
does not replace with it. -/
def Kernel.Replaces (k : Kernel) (flags : BitVec 64) : Prop :=
  hasFlag flags mapFixed ∧ ¬ (k.knowsNoReplace = true ∧ hasFlag flags mapFixedNoReplace)

instance (k : Kernel) (flags : BitVec 64) : Decidable (k.Replaces flags) :=
  inferInstanceAs (Decidable (_ ∧ _))

/-- What the kernel answers: the result, and the bytes of a file that is mapped. -/
structure Answer where
  result : BitVec 64
  contents : BitVec 64 → BitVec 8

/-- The results that stand for an error. -/
def isError (result : BitVec 64) : Prop := -4096#64 < result

instance (result : BitVec 64) : Decidable (isError result) := inferInstanceAs (Decidable (_ < _))

/-- What a call does to the address space. An anonymous mapping is filled with zeros. -/
def HostCall.effect (call : HostCall) (ans : Answer) (a : Space) : Space :=
  if isError ans.result then a
  else
    match call with
    | .mmap _ len _ flags _ _ =>
        a.map ans.result.toNat len.toNat
          (if hasFlag flags mapAnonymous then fun _ => 0#8 else ans.contents)
    | .munmap addr len => a.unmap addr.toNat len.toNat

/-- The results a call may have. The range must lie in the address space of the process.
A mapping that replaces nothing is put where no page is mapped, under
`MAP_FIXED_NOREPLACE` at the address that was asked for. -/
def HostCall.Allowed (k : Kernel) (a : Space) (call : HostCall) (result : BitVec 64) : Prop :=
  isError result ∨
    match call with
    | .mmap addr len _ flags _ _ =>
        0 < len.toNat ∧ pageSize ∣ result.toNat ∧ result.toNat + len.toNat ≤ k.taskSize ∧
          (k.Replaces flags → result = addr) ∧
          (¬ k.Replaces flags → a.Free result.toNat len.toNat) ∧
          (k.knowsNoReplace = true → hasFlag flags mapFixedNoReplace → result = addr)
    | .munmap addr len =>
        result = 0#64 ∧ 0 < len.toNat ∧ pageSize ∣ addr.toNat ∧
          addr.toNat + len.toNat ≤ k.taskSize

/-- How the kernel behaves during a call of the translator. -/
abbrev Host := HostCall → Space → Answer

/-- All the kernel's answers are allowed ones. -/
def Host.Legal (k : Kernel) (host : Host) : Prop :=
  ∀ (call : HostCall) (a : Space), call.Allowed k a (host call a).result

/-- A kernel that refuses every call. -/
def Host.refusing : Host := fun _ _ => ⟨-12#64, fun _ => 0#8⟩

theorem isError_refused : isError (-12#64) := by decide

/-- A kernel may refuse every call. -/
theorem refusing_legal (k : Kernel) : Host.refusing.Legal k := fun _ _ => .inl isError_refused

/-- An anonymous mapping that was made is filled with zeros. -/
theorem effect_anonymous {addr len prot flags fd off : BitVec 64} {ans : Answer} (a : Space)
    (hok : ¬ isError ans.result) (hanon : hasFlag flags mapAnonymous) :
    (HostCall.mmap addr len prot flags fd off).effect ans a =
      a.map ans.result.toNat len.toNat fun _ => 0#8 := by
  unfold HostCall.effect
  rw [if_neg hok]
  dsimp only
  rw [if_pos hanon]

/-! ## Pages that stay as they are -/

/-- The pages with `P` that are mapped keep their mapping. -/
def Keeps (P : Nat → Prop) (a a' : Space) : Prop :=
  ∀ p m, P p → a.page p = some m → a'.page p = some m

section Keeps

variable {P : Nat → Prop} {a a' a'' : Space} {addr len : Nat}

theorem Keeps.refl (a : Space) : Keeps P a a := fun _ _ _ h => h

/-- What two changes keep, both together keep. -/
theorem Keeps.trans (h₁ : Keeps P a a') (h₂ : Keeps P a' a'') : Keeps P a a'' :=
  fun p m hp h => h₂ p m hp (h₁ p m hp h)

/-- A mapping changes no page that it does not touch. -/
theorem map_page_outside {p : Nat} (contents : BitVec 64 → BitVec 8)
    (h : ¬ Touches addr len p) : (a.map addr len contents).page p = a.page p := if_neg h

/-- A mapping takes every page that it touches. -/
theorem map_page_inside {p : Nat} (contents : BitVec 64 → BitVec 8) (h : Touches addr len p) :
    (a.map addr len contents).page p = some a.next := if_pos h

/-- An unmapping changes no page that it does not touch. -/
theorem unmap_page_outside {p : Nat} (h : ¬ Touches addr len p) :
    (a.unmap addr len).page p = a.page p := if_neg h

/-- A mapping where nothing was mapped keeps all mappings. -/
theorem keeps_map_of_free (contents : BitVec 64 → BitVec 8) (hfree : a.Free addr len) :
    Keeps P a (a.map addr len contents) := by
  intro p m _ h
  rw [map_page_outside contents, h]
  intro htouch
  rw [hfree p htouch] at h
  cases h

/-- A mapping apart from the given pages keeps them. -/
theorem keeps_map_of_apart (contents : BitVec 64 → BitVec 8)
    (hapart : ∀ p, P p → ¬ Touches addr len p) : Keeps P a (a.map addr len contents) := by
  intro p m hp h
  rw [map_page_outside contents (hapart p hp), h]

/-- An unmapping apart from the given pages keeps them. -/
theorem keeps_unmap_of_apart (hapart : ∀ p, P p → ¬ Touches addr len p) :
    Keeps P a (a.unmap addr len) := by
  intro p m hp h
  rw [unmap_page_outside (hapart p hp), h]

/-- A mapping made where nothing is mapped, and then removed again, leaves no trace among
the pages that were mapped. -/
theorem keeps_map_unmap (contents : BitVec 64 → BitVec 8) (hfree : a.Free addr len) :
    Keeps P a ((a.map addr len contents).unmap addr len) := by
  intro p m hp h
  have hapart : ¬ Touches addr len p := by
    intro htouch
    rw [hfree p htouch] at h
    cases h
  rw [unmap_page_outside hapart, map_page_outside contents hapart, h]

end Keeps

/-! ## Contents that stay as they are -/

/-- The pages that are mapped keep their mapping and their bytes. -/
structure Undisturbed (a a' : Space) : Prop where
  page : ∀ p, a.page p ≠ none → a'.page p = a.page p
  bytes : ∀ x : BitVec 64, a.page (x.toNat / pageSize) ≠ none → a'.bytes x = a.bytes x

section Undisturbed

variable {a : Space} {addr len : Nat}

theorem Undisturbed.refl (a : Space) : Undisturbed a a := ⟨fun _ _ => rfl, fun _ _ => rfl⟩

/-- A free range touches no mapped page. -/
theorem Space.Free.apart (hfree : a.Free addr len) {p : Nat} (hp : a.page p ≠ none) :
    ¬ Touches addr len p := fun htouch => hp (hfree p htouch)

/-- A mapping of a free range disturbs nothing. -/
theorem undisturbed_map (contents : BitVec 64 → BitVec 8) (hfree : a.Free addr len) :
    Undisturbed a (a.map addr len contents) :=
  ⟨fun _ hp => if_neg (hfree.apart hp), fun _ hx => if_neg (hfree.apart hx)⟩

/-- Nor does it, if the range is unmapped again. -/
theorem undisturbed_map_unmap (contents : BitVec 64 → BitVec 8) (hfree : a.Free addr len) :
    Undisturbed a ((a.map addr len contents).unmap addr len) := by
  refine ⟨fun p hp => ?_, fun x hx => (undisturbed_map contents hfree).bytes x hx⟩
  rw [unmap_page_outside (hfree.apart hp)]
  exact (undisturbed_map contents hfree).page p hp

end Undisturbed

/-! ## Ranges handed out downwards -/

/-- Two ranges, given by start and length, have no address in common. -/
def Apart (x y : Nat × Nat) : Prop := x.1 + x.2 ≤ y.1 ∨ y.1 + y.2 ≤ x.1

instance (x y : Nat × Nat) : Decidable (Apart x y) := inferInstanceAs (Decidable (_ ∨ _))

/-- Each range ends at or below the start of the one before it, the first at or below
`cursor`. -/
def Descends (cursor : Nat) : List (Nat × Nat) → Prop
  | [] => True
  | x :: xs => x.1 + x.2 ≤ cursor ∧ Descends x.1 xs

section Descends

variable {cursor : Nat} {ranges : List (Nat × Nat)}

/-- The ranges may be bounded from further above. -/
theorem Descends.mono {cursor' : Nat} (h : Descends cursor ranges) (hle : cursor ≤ cursor') :
    Descends cursor' ranges := by
  cases ranges with
  | nil => trivial
  | cons x xs => exact ⟨h.1.trans hle, h.2⟩

/-- All ranges lie below the bound. -/
theorem Descends.below (h : Descends cursor ranges) : ∀ x ∈ ranges, x.1 + x.2 ≤ cursor := by
  induction ranges generalizing cursor with
  | nil => exact fun _ hx => absurd hx List.not_mem_nil
  | cons y ys ih =>
      intro x hx
      rcases List.mem_cons.1 hx with rfl | hx
      · exact h.1
      · have hlower := ih h.2 x hx
        have hupper := h.1
        omega

/-- Ranges that descend are apart from each other. -/
theorem Descends.pairwise (h : Descends cursor ranges) : ranges.Pairwise Apart := by
  induction ranges generalizing cursor with
  | nil => exact .nil
  | cons x xs ih => exact .cons (fun y hy => .inr (h.2.below y hy)) (ih h.2)

end Descends

end HostMemory
