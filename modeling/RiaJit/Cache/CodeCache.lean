import RiaJit.Util.Typedefs

/-!
# The code cache

`cache/cache.c`: a hash table from guest addresses to translated code with linear
probing, in front of it a direct-mapped table of recent lookups (the TLB). Memory
blocks returned by `mmap` are functions from indices to entries and start out zero;
an allocation that fails ends the program and is not modelled. Table sizes and
counters are natural numbers: the table outgrows any address space long before
`size_t` wraps.

The probing loop and the nested calls of `set_cache_entry` carry fuel. `none` means
that the C code does not return: a probe that has inspected `table_size` slots
without an end repeats itself, and a growth inside a growth exceeds the depth.
-/

set_option autoImplicit false

namespace RiaJit

/-- `t_cache_loc`, a host code address. -/
abbrev CacheLoc := BitVec 64

/-- `UNSEEN_CODE`. -/
abbrev unseenCode : CacheLoc := 0#64

/-- `TRANSLATION_STARTED`. -/
abbrev translationStarted : CacheLoc := 1#64

/-- `t_cache_entry`. -/
structure CacheEntry where
  riscAddr : RiscAddr
  cacheLoc : CacheLoc
  deriving DecidableEq, Repr

/-- An entry of freshly mapped memory. -/
def zeroEntry : CacheEntry := ⟨0#64, 0#64⟩

/-- The globals of `cache.c`. -/
structure CodeCache where
  cacheTable : Nat → CacheEntry
  tableSize : Nat
  countEntries : Nat
  tlb : Nat → CacheEntry

namespace CodeCache

/-- `INITIAL_SIZE`. -/
def initialSize : Nat := 8192

/-- `SMALLTLB`. -/
def smallTlb : Nat := 32

/-- `init_hash_table` on the initial globals. -/
def initHashTable : CodeCache where
  cacheTable := fun _ => zeroEntry
  tableSize := initialSize
  countEntries := 0
  tlb := fun _ => zeroEntry

/-- `hash`. -/
def hash (c : CodeCache) (riscAddr : RiscAddr) : Nat :=
  (riscAddr >>> 2).toNat &&& (c.tableSize - 1)

/-- `smallhash`. -/
def smallhash (riscAddr : RiscAddr) : Nat :=
  (riscAddr >>> 3).toNat &&& (smallTlb - 1)

/-- The loop of `find_lin_slot`, at `index`. -/
def findLinSlotLoop (c : CodeCache) (riscAddr : RiscAddr) : Nat → Nat → Option Nat
  | 0, _ => none
  | fuel + 1, index =>
      if (c.cacheTable index).cacheLoc ≠ 0#64 ∧ (c.cacheTable index).riscAddr ≠ riscAddr then
        findLinSlotLoop c riscAddr fuel ((index + 1) &&& (c.tableSize - 1))
      else
        some index

/-- `find_lin_slot`. -/
def findLinSlot (c : CodeCache) (riscAddr : RiscAddr) : Option Nat :=
  findLinSlotLoop c riscAddr c.tableSize (c.hash riscAddr)

/-- `set_tlb`. -/
def setTlb (c : CodeCache) (riscAddr : RiscAddr) (cacheLoc : CacheLoc) : CodeCache :=
  { c with tlb := Function.update c.tlb (smallhash riscAddr) ⟨riscAddr, cacheLoc⟩ }

/-- `lookup_cache_entry`. -/
def lookupCacheEntry (c : CodeCache) (riscAddr : RiscAddr) : Option (CacheLoc × CodeCache) :=
  if (c.tlb (smallhash riscAddr)).riscAddr = riscAddr then
    some ((c.tlb (smallhash riscAddr)).cacheLoc, c)
  else do
    let index ← c.findLinSlot riscAddr
    if (c.cacheTable index).cacheLoc ≠ 0#64 then
      return ((c.cacheTable index).cacheLoc, c.setTlb riscAddr (c.cacheTable index).cacheLoc)
    else
      return (unseenCode, c)

/-- The body of the loop of `set_cache_entry` over the old table. -/
def reinsert (setEntry : CodeCache → RiscAddr → CacheLoc → Option CodeCache)
    (entry : CacheEntry) (c : CodeCache) : Option CodeCache :=
  if entry.cacheLoc ≠ 0#64 then setEntry c entry.riscAddr entry.cacheLoc else some c

/-- The loop of `set_cache_entry` over the old table. The bound is read from the
globals in every iteration. -/
def rehashLoop (setEntry : CodeCache → RiscAddr → CacheLoc → Option CodeCache)
    (oldTable : Nat → CacheEntry) : Nat → Nat → CodeCache → Option CodeCache
  | 0, _, _ => none
  | fuel + 1, i, c =>
      if i < c.tableSize >>> 1 then do
        let c ← reinsert setEntry (oldTable i) c
        rehashLoop setEntry oldTable fuel (i + 1) c
      else
        some c

/-- The globals after `set_cache_entry` has switched to a table of twice the size. -/
def doubled (c : CodeCache) : CodeCache :=
  { c with tableSize := c.tableSize <<< 1, cacheTable := fun _ => zeroEntry, countEntries := 0 }

/-- The end of `set_cache_entry`: update or insert at `index`. -/
def storeEntry (c : CodeCache) (index : Nat) (riscAddr : RiscAddr) (cacheLoc : CacheLoc) :
    CodeCache :=
  if (c.cacheTable index).cacheLoc ≠ 0#64 then
    setTlb { c with
      cacheTable := Function.update c.cacheTable index
        ⟨(c.cacheTable index).riscAddr, cacheLoc⟩ } riscAddr cacheLoc
  else
    setTlb { c with
      cacheTable := Function.update c.cacheTable index ⟨riscAddr, cacheLoc⟩
      countEntries := c.countEntries + 1 } riscAddr cacheLoc

/-- `set_cache_entry` with at most `depth` nested calls. -/
def setCacheEntryDepth : Nat → CodeCache → RiscAddr → CacheLoc → Option CodeCache
  | 0, _, _, _ => none
  | depth + 1, c, riscAddr, cacheLoc => do
      let index ← c.findLinSlot riscAddr
      if c.countEntries ≥ c.tableSize >>> 1 then
        let grown ← rehashLoop (setCacheEntryDepth depth) c.cacheTable
          (c.tableSize + 1) 0 c.doubled
        let index ← grown.findLinSlot riscAddr
        return grown.storeEntry index riscAddr cacheLoc
      else
        return c.storeEntry index riscAddr cacheLoc

/-- `set_cache_entry`. The calls made while a table is doubled do not double it
again, so two levels suffice. -/
def setCacheEntry (c : CodeCache) (riscAddr : RiscAddr) (cacheLoc : CacheLoc) :
    Option CodeCache :=
  setCacheEntryDepth 2 c riscAddr cacheLoc

/-- `get_cache_entry_count`. -/
def getCacheEntryCount (c : CodeCache) : Nat := c.countEntries

end CodeCache

end RiaJit
