import Mathlib.Data.BitVec

/-!
# Byte memory

The flat memory that guest loads and stores access, little endian. The guest's
instructions and the host's use the same functions.
-/

set_option autoImplicit false

namespace RiaJit

/-- Byte memory. -/
abbrev Memory := BitVec 64 → BitVec 8

/-- The width of a memory access. -/
inductive MemSize where
  | m8 | m16 | m32 | m64
  deriving DecidableEq, Repr

/-- The number of bytes of an access. -/
def MemSize.bytes : MemSize → Nat
  | .m8 => 1
  | .m16 => 2
  | .m32 => 4
  | .m64 => 8

namespace Memory

/-- The `n` bytes at `a`, zero extended. -/
def loadBytes (mem : Memory) (a : BitVec 64) : Nat → BitVec 64
  | 0 => 0#64
  | n + 1 => mem.loadBytes (a + 1#64) n <<< 8 ||| (mem a).setWidth 64

/-- A zero extending load. -/
def load (mem : Memory) (size : MemSize) (a : BitVec 64) : BitVec 64 :=
  mem.loadBytes a size.bytes

/-- A sign extending load. -/
def loadSigned (mem : Memory) (size : MemSize) (a : BitVec 64) : BitVec 64 :=
  ((mem.load size a).setWidth (8 * size.bytes)).signExtend 64

/-- The memory after the low bytes of `v` are stored at `a`. -/
def store (mem : Memory) (size : MemSize) (a v : BitVec 64) : Memory := fun x =>
  if (x - a).toNat < size.bytes then (v >>> (8 * (x - a).toNat)).setWidth 8 else mem x

/-- Bytes that are the same are loaded as the same value. -/
theorem loadBytes_congr {mem mem' : Memory} {a : BitVec 64} {n : Nat}
    (h : ∀ i < n, mem (a + BitVec.ofNat 64 i) = mem' (a + BitVec.ofNat 64 i)) :
    mem.loadBytes a n = mem'.loadBytes a n := by
  induction n generalizing a with
  | zero => rfl
  | succ n ih =>
      have hfirst := h 0 (Nat.succ_pos n)
      rw [BitVec.add_zero] at hfirst
      have hrest : mem.loadBytes (a + 1#64) n = mem'.loadBytes (a + 1#64) n := by
        refine ih fun i hi => ?_
        have hnext := h (i + 1) (Nat.succ_lt_succ hi)
        rw [Nat.add_comm, BitVec.ofNat_add, ← BitVec.add_assoc] at hnext
        exact hnext
      unfold loadBytes
      rw [hrest, hfirst]

theorem store_apart {mem : Memory} {size : MemSize} {a v x : BitVec 64}
    (h : size.bytes ≤ (x - a).toNat) : mem.store size a v x = mem x :=
  if_neg (Nat.not_lt.2 h)

theorem store_inside {mem : Memory} {size : MemSize} {a v x : BitVec 64}
    (h : (x - a).toNat < size.bytes) :
    mem.store size a v x = (v >>> (8 * (x - a).toNat)).setWidth 8 := if_pos h

/-- The upper bytes of a word that was stored. -/
theorem loadBytes_store {mem : Memory} {a v : BitVec 64} {k n : Nat} (hk : k + n = 8) :
    (mem.store .m64 a v).loadBytes (a + BitVec.ofNat 64 k) n = v >>> (8 * k) := by
  induction n generalizing k with
  | zero =>
      obtain rfl : k = 8 := hk
      exact (BitVec.ushiftRight_eq_zero (Nat.le_refl _)).symm
  | succ n ih =>
      have hoff : (a + BitVec.ofNat 64 k - a).toNat = k := by bv_omega
      have hnext : a + BitVec.ofNat 64 k + 1#64 = a + BitVec.ofNat 64 (k + 1) := by
        rw [BitVec.add_assoc, ← BitVec.ofNat_add]
      unfold loadBytes
      rw [hnext, ih (by omega), store_inside (hoff.trans_lt (by change k < 8; omega)), hoff]
      apply BitVec.eq_of_getLsbD_eq
      intro i hi
      rw [BitVec.getLsbD_or, BitVec.getLsbD_shiftLeft, BitVec.getLsbD_setWidth,
        BitVec.getLsbD_setWidth]
      simp only [BitVec.getLsbD_ushiftRight]
      by_cases hlow : i < 8
      · simp [hlow, hi]
      · have hsum : 8 * (k + 1) + (i - 8) = 8 * k + i := by omega
        simp [hlow, hi, hsum]

@[simp] theorem load_store (mem : Memory) (a v : BitVec 64) :
    (mem.store .m64 a v).load .m64 a = v := by
  have hall : (mem.store .m64 a v).loadBytes (a + BitVec.ofNat 64 0) 8 = v >>> (8 * 0) :=
    loadBytes_store rfl
  rw [BitVec.add_zero] at hall
  exact hall

theorem load_store_apart {mem : Memory} {a b v : BitVec 64} (h : 8 ≤ (a - b).toNat)
    (h' : 8 ≤ (b - a).toNat) : (mem.store .m64 a v).load .m64 b = mem.load .m64 b := by
  refine loadBytes_congr fun i hi => store_apart ?_
  change i < 8 at hi
  change 8 ≤ _
  bv_omega

end Memory

end RiaJit
