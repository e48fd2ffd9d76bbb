import Mathlib.Data.List.MinMax
import Mathlib.Data.List.Pairwise
import Mathlib.Order.Nat
import RiaJit.Elf.Refused
import RiaJit.Runtime.MmapHints

/-!
# What is loaded

When `mapIntoMemory` reports success, the memory holds the segments of the file, provided that
the headers are sound and that the contents of the segments were read to their end: the result
of these reads is not checked. A file that is refused before that leaves no trace.
-/

set_option autoImplicit false

namespace RiaJit.Elf

open HostMemory RiaJit.Runtime

/-! ## The file -/

/-- The header of a file. -/
def ehdrOf (file : File) : Ehdr := Ehdr.ofBuffer fun i => file.getD i 0#8

/-- The program header at an offset of a file. -/
def phdrAt (file : File) (pos : Nat) : Phdr := Phdr.ofBuffer fun i => file.getD (pos + i) 0#8

/-- The program headers from an offset on, each `size` after the other. -/
def phdrsFrom (file : File) (size : Nat) : Nat → Nat → List Phdr
  | 0, _ => []
  | n + 1, pos => phdrAt file pos :: phdrsFrom file size n (pos + size)

/-- The segments to be loaded. -/
def loads (file : File) : List Phdr :=
  (phdrsFrom file (ehdrOf file).ePhentsize.toNat (ehdrOf file).ePhnum.toNat
    (ehdrOf file).ePhoff.toNat).filter fun segment => segment.pType = ptLoad

/-- The segments to be loaded among `n` headers from `pos` on. -/
def loadsFrom (file : File) (n pos : Nat) : List Phdr :=
  (phdrsFrom file phdrSize n pos).filter fun segment => segment.pType = ptLoad

/-- The end of a segment in memory. -/
def Phdr.vend (segment : Phdr) : Nat := segment.pVaddr.toNat + segment.pMemsz.toNat

/-- Nothing was written outside the range that was mapped. -/
def NoStray (s : LoadState) : Prop :=
  ∀ w ∈ s.written, 0 < w.2 → s.mapped.1 ≤ w.1.toNat ∧ w.1.toNat + w.2 ≤ s.mapped.1 + s.mapped.2

/-- The segments of the file are in memory, below the translator, and `dataEnd` is the end of
the last one, rounded up to a page. -/
structure Loaded (file : File) (r : MapResult) (s : LoadState) : Prop where
  bytes : ∀ segment ∈ loads file, ∀ j < segment.pFilesz.toNat,
    file[segment.pOffset.toNat + j]? = some (s.space.bytes (segment.pVaddr + BitVec.ofNat 64 j))
  zero : ∀ segment ∈ loads file, ∀ j, segment.pFilesz.toNat ≤ j → j < segment.pMemsz.toNat →
    s.space.bytes (segment.pVaddr + BitVec.ofNat 64 j) = 0#8
  inside : ∀ segment ∈ loads file, s.mapped.1 ≤ segment.pVaddr.toNat ∧
    segment.vend ≤ s.mapped.1 + s.mapped.2 ∧ segment.vend ≤ translatorBase.toNat
  dataEnd : pageSize ∣ r.dataEnd.toNat ∧
    ((loads file).map Phdr.vend).foldr max 0 ≤ r.dataEnd.toNat ∧
    r.dataEnd.toNat < ((loads file).map Phdr.vend).foldr max 0 + pageSize

/-- Loading is exact, or refused; in any case nothing else is written. -/
def LoadsExactly (file : File) (r : Except Refusal MapResult × LoadState) : Prop :=
  NoStray r.2 ∧ ∀ result, r.1 = .ok result → Loaded file result r.2

/-! ## Sound headers -/

/-- A read that fails, gives nothing or gives everything. -/
def Answer.Whole (ans : Answer) (file : File) (pos count : Nat) : Prop :=
  ans.failed = true ∨ ans.transferred file pos count = 0 ∨
    ans.transferred file pos count = count

/-- No header is read in part, the table has the segments to be loaded where the loader looks
for them, these do not wrap, are not larger in the file than in memory and do not overlap, and
where one of them is at address zero, none follows or one in the page of address zero. -/
structure WellFormed (os : Os) (file : File) : Prop where
  readEhdr : os.readEhdr.Whole file 0 ehdrSize
  entries : loads file = loadsFrom file (ehdrOf file).ePhnum.toNat (ehdrOf file).ePhoff.toNat
  readPhdr : ∀ i < (ehdrOf file).ePhnum.toNat,
    (os.readPhdr i).Whole file ((ehdrOf file).ePhoff.toNat + i * phdrSize) phdrSize
  readPhdr2 : ∀ i < (ehdrOf file).ePhnum.toNat,
    (os.readPhdr2 i).Whole file ((ehdrOf file).ePhoff.toNat + i * phdrSize) phdrSize
  segments : ∀ segment ∈ loads file,
    segment.vend < 2 ^ 64 ∧ segment.pFilesz.toNat ≤ segment.pMemsz.toNat
  apart : (loads file).Pairwise fun s t =>
    s.vend ≤ t.pVaddr.toNat ∨ t.vend ≤ s.pVaddr.toNat
  unset : ∀ segment rest, segment :: rest <:+ loads file → segment.pVaddr = 0#64 →
    rest = [] ∨ ∃ t ∈ rest, t.pVaddr.toNat < pageSize

/-- The segments to be loaded from the `i`-th program header on, with what is read of each. -/
def segmentReads (os : Os) (file : File) : Nat → Nat → Nat → List (Phdr × Nat)
  | 0, _, _ => []
  | n + 1, i, pos =>
      let segment := phdrAt file pos
      if segment.pType = ptLoad then
        (segment, (os.readSegment i).transferred file segment.pOffset.toNat
          segment.pFilesz.toNat) :: segmentReads os file n (i + 1) (pos + phdrSize)
      else segmentReads os file n (i + 1) (pos + phdrSize)

/-- All reads of the load pass. -/
def allReads (os : Os) (file : File) : List (Phdr × Nat) :=
  segmentReads os file (ehdrOf file).ePhnum.toNat 0 (ehdrOf file).ePhoff.toNat

/-- The file has the bytes of each segment, and those that its read left out are zero. -/
def Transferred (os : Os) (file : File) : Prop :=
  ∀ p ∈ allReads os file, ∀ j < p.1.pFilesz.toNat,
    p.1.pOffset.toNat + j < file.length ∧ (p.2 ≤ j → file.getD (p.1.pOffset.toNat + j) 0#8 = 0#8)

section Structs

variable {b b' : Buffer}

/-- A number in a buffer depends on its own bytes only. -/
theorem Buffer.le_congr {m : Nat} (h : ∀ i < m, b i = b' i) {off n : Nat} (hn : off + n ≤ m) :
    b.le off n = b'.le off n := by
  induction n generalizing off with
  | zero => rfl
  | succ n ih =>
      unfold Buffer.le
      rw [h off (by omega), ih (by omega)]

/-- A program header depends on its own bytes only. -/
theorem Phdr.ofBuffer_congr (h : ∀ i < phdrSize, b i = b' i) :
    Phdr.ofBuffer b = Phdr.ofBuffer b' := by
  unfold phdrSize at h
  unfold Phdr.ofBuffer
  rw [Buffer.le_congr h (by omega : 0 + 4 ≤ 56), Buffer.le_congr h (by omega : 8 + 8 ≤ 56),
    Buffer.le_congr h (by omega : 16 + 8 ≤ 56), Buffer.le_congr h (by omega : 32 + 8 ≤ 56),
    Buffer.le_congr h (by omega : 40 + 8 ≤ 56)]

/-- So does the header of the file. -/
theorem Ehdr.ofBuffer_congr (h : ∀ i < ehdrSize, b i = b' i) :
    Ehdr.ofBuffer b = Ehdr.ofBuffer b' := by
  unfold ehdrSize at h
  unfold Ehdr.ofBuffer
  rw [h 4 (by omega), Buffer.le_congr h (by omega : 16 + 2 ≤ 64),
    Buffer.le_congr h (by omega : 18 + 2 ≤ 64), Buffer.le_congr h (by omega : 24 + 8 ≤ 64),
    Buffer.le_congr h (by omega : 32 + 8 ≤ 64), Buffer.le_congr h (by omega : 40 + 8 ≤ 64),
    Buffer.le_congr h (by omega : 48 + 4 ≤ 64), Buffer.le_congr h (by omega : 54 + 2 ≤ 64),
    Buffer.le_congr h (by omega : 56 + 2 ≤ 64), Buffer.le_congr h (by omega : 60 + 2 ≤ 64)]

/-- A read that is answered whole and succeeds transfers everything. -/
theorem Answer.Whole.complete {ans : Answer} {file : File} {pos count : Nat}
    (hwhole : ans.Whole file pos count) (h : ¬ ans.result file pos count ≤ 0) :
    ans.transferred file pos count = count := by
  unfold Answer.result at h
  rcases hwhole with hfailed | hnone | hall
  · rw [if_pos hfailed] at h
    exact absurd (by decide) h
  · rw [hnone] at h
    split at h
    · exact absurd (by decide) h
    · exact absurd (by decide) h
  · exact hall

theorem StructAnswer.buffer_complete {ans : StructAnswer} {file : File} {pos count : Nat}
    (hall : ans.transferred file pos count = count) :
    ∀ i < count, ans.buffer file pos count i = file.getD (pos + i) 0#8 := by
  intro i hi
  unfold StructAnswer.buffer
  rw [hall, if_pos hi]

end Structs

/-! ## The passes over the headers -/

section Passes

variable {flags : Flags} {os : Os} {file : File}

/-- A header that is read whole is that of the file. -/
theorem readHeader_ok {header : Ehdr} (hwhole : os.readEhdr.Whole file 0 ehdrSize)
    (h : readHeader flags os file = .ok header) : header = ehdrOf file := by
  unfold readHeader at h
  split at h
  · cases h
  · split at h
    · cases h
    · rename_i hread
      have hbuffer : Ehdr.ofBuffer (os.readEhdr.buffer file 0 ehdrSize) = ehdrOf file := by
        refine Ehdr.ofBuffer_congr fun i hi => ?_
        rw [StructAnswer.buffer_complete (hwhole.complete hread) i hi, Nat.zero_add]
      rw [hbuffer] at h
      dsimp only at h
      split at h
      · cases h
      · split at h
        · cases h
        · split at h
          · cases h
          · split at h
            · cases h
            · exact (Except.ok.inj h).symm

/-- The reads of `n` headers from `pos` on are whole. -/
def WholeReads (answers : Nat → StructAnswer) (file : File) (n i pos : Nat) : Prop :=
  ∀ j < n, (answers (i + j)).Whole file (pos + j * phdrSize) phdrSize

theorem WholeReads.head {answers : Nat → StructAnswer} {n i pos : Nat}
    (h : WholeReads answers file (n + 1) i pos) : (answers i).Whole file pos phdrSize := by
  have hfirst := h 0 (Nat.succ_pos n)
  rw [Nat.zero_mul] at hfirst
  exact hfirst

theorem WholeReads.tail {answers : Nat → StructAnswer} {n i pos : Nat}
    (h : WholeReads answers file (n + 1) i pos) :
    WholeReads answers file n (i + 1) (pos + phdrSize) := by
  intro j hj
  have hnext := h (j + 1) (Nat.succ_lt_succ hj)
  rw [Nat.add_one_mul, Nat.add_comm (j * phdrSize), ← Nat.add_assoc pos, Nat.add_comm j,
    ← Nat.add_assoc i] at hnext
  exact hnext

/-- A header that is read is the one in the file. -/
theorem phdr_read {ans : StructAnswer} {pos : Nat} (hwhole : ans.Whole file pos phdrSize)
    (hread : ¬ ans.result file pos phdrSize ≤ 0) :
    Phdr.ofBuffer (ans.buffer file pos phdrSize) = phdrAt file pos :=
  Phdr.ofBuffer_congr (StructAnswer.buffer_complete (hwhole.complete hread))

/-- A loadable segment is counted. -/
theorem loadsFrom_load {n pos : Nat} (h : (phdrAt file pos).pType = ptLoad) :
    loadsFrom file (n + 1) pos = phdrAt file pos :: loadsFrom file n (pos + phdrSize) := by
  simp [loadsFrom, phdrsFrom, h]

/-- Any other is not. -/
theorem loadsFrom_skip {n pos : Nat} (h : ¬ (phdrAt file pos).pType = ptLoad) :
    loadsFrom file (n + 1) pos = loadsFrom file n (pos + phdrSize) := by
  simp [loadsFrom, phdrsFrom, h]

/-- The layout is that of the segments, each of which ends below the translator. -/
theorem layoutLoop_ok {n i pos : Nat} {l l' : Layout}
    (hwhole : WholeReads os.readPhdr file n i pos)
    (h : layoutLoop os file n i pos l = .ok l') :
    l' = (loadsFrom file n pos).foldl Layout.add l ∧
      ∀ segment ∈ loadsFrom file n pos, ¬ segment.pVaddr + segment.pMemsz > translatorBase := by
  -- along the program headers; an entry that is not loaded is passed over
  induction n generalizing i pos l with
  | zero =>
      obtain rfl := Except.ok.inj h
      exact ⟨rfl, fun _ hmem => absurd hmem List.not_mem_nil⟩
  | succ n ih =>
      unfold layoutLoop at h
      dsimp only at h
      split at h
      · cases h
      · rename_i hread
        rw [phdr_read hwhole.head hread, hwhole.head.complete hread] at h
        split at h
        · rename_i hload
          rw [loadsFrom_load hload]
          split at h
          · cases h
          · rename_i hbelow
            obtain ⟨hfold, hrest⟩ := ih hwhole.tail h
            refine ⟨hfold, fun segment hmem => ?_⟩
            rcases List.mem_cons.1 hmem with rfl | hmem
            · exact hbelow
            · exact hrest segment hmem
        · rename_i hload
          rw [loadsFrom_skip hload]
          split at h
          · cases h
          · exact ih hwhole.tail h

/-- What is read of one segment. -/
def LoadState.read (file : File) (s : LoadState) (p : Phdr × Nat) : LoadState :=
  s.readFull file p.1.pOffset.toNat p.1.pVaddr p.2

/-- The segments are read in the order of the table, up to the end of it or to an error. -/
theorem loadLoop_spec {n i pos : Nat} (s : LoadState)
    (hwhole : WholeReads os.readPhdr2 file n i pos) :
    ∃ done, done <+: segmentReads os file n i pos ∧
      (loadLoop os file n i pos s).2 = done.foldl (LoadState.read file) s ∧
      ((loadLoop os file n i pos s).1 = .ok () → done = segmentReads os file n i pos) := by
  induction n generalizing i pos s with
  | zero => exact ⟨[], List.prefix_rfl, rfl, fun _ => rfl⟩
  | succ n ih =>
      unfold loadLoop
      dsimp only
      split
      · exact ⟨[], List.nil_prefix, rfl, fun h => by cases h⟩
      · rename_i hread
        rw [phdr_read hwhole.head hread, hwhole.head.complete hread]
        unfold segmentReads
        dsimp only
        split
        · split
          · exact ⟨[], List.nil_prefix, rfl, fun h => by cases h⟩
          · obtain ⟨done, hpre, hstate, hall⟩ := ih (s.read file (phdrAt file pos,
              (os.readSegment i).transferred file (phdrAt file pos).pOffset.toNat
                (phdrAt file pos).pFilesz.toNat)) hwhole.tail
            refine ⟨_ :: done, (List.prefix_cons_inj _).2 hpre, hstate, fun h => ?_⟩
            rw [hall h]
        · exact ih s hwhole.tail

/-- The reads are of the loadable segments, in their order. -/
theorem segmentReads_fst (os : Os) (file : File) (n i pos : Nat) :
    (segmentReads os file n i pos).map Prod.fst = loadsFrom file n pos := by
  induction n generalizing i pos with
  | zero => rfl
  | succ n ih =>
      unfold segmentReads
      dsimp only
      split
      · rename_i hload
        rw [List.map_cons, ih, loadsFrom_load hload]
      · rename_i hload
        rw [ih, loadsFrom_skip hload]

/-- No read transfers more than the segment has in the file. -/
theorem segmentReads_le {n i pos : Nat} :
    ∀ p ∈ segmentReads os file n i pos, p.2 ≤ p.1.pFilesz.toNat := by
  induction n generalizing i pos with
  | zero => exact fun _ hmem => absurd hmem List.not_mem_nil
  | succ n ih =>
      unfold segmentReads
      dsimp only
      split
      · intro p hp
        rcases List.mem_cons.1 hp with rfl | hp
        · exact (Nat.min_le_left _ _).trans (Nat.min_le_right _ _)
        · exact ih p hp
      · exact ih

end Passes

/-! ## The memory after the reads -/

section Reads

variable {file : File}

/-- The read of a segment writes the byte at an address. -/
def Covers (p : Phdr × Nat) (x : BitVec 64) : Prop := (x - p.1.pVaddr).toNat < p.2

/-- A byte that a read covers comes from the file. -/
theorem read_covered {s : LoadState} {p : Phdr × Nat} {x : BitVec 64} (h : Covers p x) :
    (s.read file p).space.bytes x =
      file.getD (p.1.pOffset.toNat + (x - p.1.pVaddr).toNat) 0#8 := if_pos h

/-- Any other byte stays. -/
theorem read_outside {s : LoadState} {p : Phdr × Nat} {x : BitVec 64} (h : ¬ Covers p x) :
    (s.read file p).space.bytes x = s.space.bytes x := if_neg h

/-- Reads leave alone what none of them covers. -/
theorem reads_outside {s : LoadState} {done : List (Phdr × Nat)} {x : BitVec 64}
    (h : ∀ p ∈ done, ¬ Covers p x) :
    (done.foldl (LoadState.read file) s).space.bytes x = s.space.bytes x := by
  induction done generalizing s with
  | nil => rfl
  | cons p done ih =>
      rw [List.foldl_cons, ih fun q hq => h q (List.mem_cons_of_mem p hq)]
      exact read_outside (h p List.mem_cons_self)

/-- What one read writes stays, since no other read comes to the same address. -/
theorem reads_covered {s : LoadState} {done : List (Phdr × Nat)} {p : Phdr × Nat} {x : BitVec 64}
    (hapart : done.Pairwise fun p q => ∀ x, Covers p x → ¬ Covers q x) (hp : p ∈ done)
    (h : Covers p x) :
    (done.foldl (LoadState.read file) s).space.bytes x =
      file.getD (p.1.pOffset.toNat + (x - p.1.pVaddr).toNat) 0#8 := by
  induction done generalizing s with
  | nil => exact absurd hp List.not_mem_nil
  | cons q done ih =>
      obtain ⟨hq, hrest⟩ := List.pairwise_cons.1 hapart
      rcases List.mem_cons.1 hp with rfl | hp
      · rw [List.foldl_cons, reads_outside fun q' hq' => hq q' hq' x h]
        exact read_covered h
      · exact ih hrest hp

/-- Reads map nothing. -/
theorem reads_mapped (s : LoadState) (done : List (Phdr × Nat)) :
    (done.foldl (LoadState.read file) s).mapped = s.mapped := by
  induction done generalizing s with
  | nil => rfl
  | cons p done ih => exact ih (s.read file p)

/-- What is written was written before, or belongs to a read. -/
theorem reads_written {s : LoadState} {done : List (Phdr × Nat)} {w : BitVec 64 × Nat}
    (h : w ∈ (done.foldl (LoadState.read file) s).written) :
    w ∈ s.written ∨ ∃ p ∈ done, w = (p.1.pVaddr, p.2) := by
  induction done generalizing s with
  | nil => exact .inl h
  | cons p done ih =>
      rcases ih h with hbefore | ⟨q, hq, heq⟩
      · rcases List.mem_cons.1 hbefore with rfl | hbefore
        · exact .inr ⟨p, List.mem_cons_self, rfl⟩
        · exact .inl hbefore
      · exact .inr ⟨q, List.mem_cons_of_mem p hq, heq⟩

end Reads

/-! ## The layout -/

section Layout

/-- The lower end takes the new segment into account, where zero stands for no segment yet. -/
theorem Layout.add_min (l : Layout) (segment : Phdr) :
    (l.add segment).minAddr ≤ segment.pVaddr ∧
      (l.minAddr ≠ 0#64 → (l.add segment).minAddr ≤ l.minAddr) ∧
      (segment.pVaddr ≠ 0#64 → (l.add segment).minAddr ≠ 0#64) := by
  unfold Layout.add
  dsimp only
  split
  · rename_i h
    refine ⟨BitVec.le_refl _, fun hset => ?_, id⟩
    exact BitVec.le_of_lt (h.resolve_left hset)
  · rename_i h
    rw [not_or] at h
    exact ⟨BitVec.not_lt.1 h.2, fun _ => BitVec.le_refl _, fun _ => h.1⟩

theorem alignDown_bounds (x : BitVec 64) :
    pageSize ∣ (alignDown x).toNat ∧ (alignDown x).toNat ≤ x.toNat := by
  unfold alignDown
  rw [and_not_toNat]
  exact ⟨Nat.dvd_mul_left _ _, Nat.div_mul_le_self _ _⟩

/-- The lowest page is found. Zero is taken for "not set", so an address that follows replaces
it; that does no harm where one of them lies in the same page. -/
theorem foldl_add_min {segments : List Phdr} {l : Layout}
    (hunset : ∀ segment rest, segment :: rest <:+ segments → segment.pVaddr = 0#64 →
      rest = [] ∨ ∃ t ∈ rest, t.pVaddr.toNat < pageSize) :
    (∀ segment ∈ segments,
      (alignDown (segments.foldl Layout.add l).minAddr).toNat ≤ segment.pVaddr.toNat) ∧
    ((l.minAddr = 0#64 → segments = [] ∨ ∃ t ∈ segments, t.pVaddr.toNat < pageSize) →
      (alignDown (segments.foldl Layout.add l).minAddr).toNat ≤ l.minAddr.toNat) := by
  induction segments generalizing l with
  | nil => exact ⟨fun _ hmem => absurd hmem List.not_mem_nil, fun _ => (alignDown_bounds _).2⟩
  | cons segment segments ih =>
      obtain ⟨hmin, hbound⟩ := ih (l := l.add segment) fun t rest hsuffix =>
        hunset t rest (hsuffix.trans (List.suffix_cons segment segments))
      obtain ⟨hadd, hold, hset⟩ := Layout.add_min l segment
      -- what the segment sets stays, up to its page
      have hle : (alignDown (segments.foldl Layout.add (l.add segment)).minAddr).toNat ≤
          (l.add segment).minAddr.toNat := by
        refine hbound fun hzero => hunset segment segments List.suffix_rfl ?_
        by_contra hne
        exact hset hne hzero
      have hall : ∀ t ∈ segment :: segments,
          (alignDown (segments.foldl Layout.add (l.add segment)).minAddr).toNat ≤
            t.pVaddr.toNat := by
        intro t ht
        rcases List.mem_cons.1 ht with rfl | ht
        · exact hle.trans hadd
        · exact hmin t ht
      refine ⟨hall, fun hcase => ?_⟩
      by_cases hzero : l.minAddr = 0#64
      · obtain ⟨t, ht, hpage⟩ := (hcase hzero).resolve_left (List.cons_ne_nil _ _)
        have hdvd := (alignDown_bounds (segments.foldl Layout.add (l.add segment)).minAddr).1
        have hlow := Nat.eq_zero_of_dvd_of_lt hdvd ((hall t ht).trans_lt hpage)
        rw [List.foldl_cons, hlow]
        exact Nat.zero_le _
      · exact hle.trans (hold hzero)

theorem Phdr.vend_eq {segment : Phdr} (h : segment.vend < 2 ^ 64) :
    (segment.pVaddr + segment.pMemsz).toNat = segment.vend := by
  rw [BitVec.toNat_add]
  exact Nat.mod_eq_of_lt h

/-- The upper end takes the new segment into account. -/
theorem Layout.add_max (l : Layout) {segment : Phdr} (h : segment.vend < 2 ^ 64) :
    (l.add segment).maxAddr.toNat = max l.maxAddr.toNat segment.vend := by
  have hend := Phdr.vend_eq h
  unfold Layout.add
  dsimp only
  split
  · rename_i hcase
    rcases hcase with hzero | hlt
    · rw [hend, hzero]
      exact (Nat.zero_max _).symm
    · have hlt : l.maxAddr.toNat < segment.vend := by
        rw [← hend]
        exact hlt
      omega
  · rename_i hcase
    rw [not_or] at hcase
    have hle : segment.vend ≤ l.maxAddr.toNat := by
      rw [← hend]
      exact BitVec.not_lt.1 hcase.2
    omega

/-- The upper end of a layout is that of its highest segment. -/
theorem foldl_add_max {segments : List Phdr} {l : Layout}
    (h : ∀ segment ∈ segments, segment.vend < 2 ^ 64) :
    (segments.foldl Layout.add l).maxAddr.toNat =
      max l.maxAddr.toNat ((segments.map Phdr.vend).foldr max 0) := by
  induction segments generalizing l with
  | nil => exact (Nat.max_zero _).symm
  | cons segment segments ih =>
      rw [List.foldl_cons, ih fun t ht => h t (List.mem_cons_of_mem _ ht),
        Layout.add_max l (h segment List.mem_cons_self), List.map_cons, List.foldr_cons,
        Nat.max_assoc]

/-- An address below the translator is rounded up without a wrap. -/
theorem alignUp_bounds {x : BitVec 64} (h : x.toNat ≤ translatorBase.toNat) :
    x.toNat ≤ (alignUp x).toNat ∧ (alignUp x).toNat < x.toNat + pageSize := by
  have hbase : translatorBase.toNat = 0x780000000000 := rfl
  unfold alignUp
  rw [and_not_toNat, BitVec.toNat_add, show (4095#64).toNat = 4095 from rfl]
  unfold pageSize
  omega

end Layout

/-! ## The mapping -/

section Mapping

variable {flags : Flags} {os : Os} {k : Kernel} {host : Host} {file : File} {space : Space}

/-- The range for the segments was mapped, and nothing was read into it yet. -/
structure Mapped (file : File) (dataEnd : BitVec 64) (s : LoadState) : Prop where
  written : s.written = []
  zero : ∀ x : BitVec 64, s.mapped.1 ≤ x.toNat → x.toNat < s.mapped.1 + s.mapped.2 →
    s.space.bytes x = 0#8
  inside : ∀ segment ∈ loads file, s.mapped.1 ≤ segment.pVaddr.toNat ∧
    segment.vend ≤ s.mapped.1 + s.mapped.2 ∧ segment.vend ≤ translatorBase.toNat
  dataEnd : pageSize ∣ dataEnd.toNat ∧
    ((loads file).map Phdr.vend).foldr max 0 ≤ dataEnd.toNat ∧
    dataEnd.toNat < ((loads file).map Phdr.vend).foldr max 0 + pageSize

/-- The layout of a table that was read to its end. -/
theorem layoutPass_ok {plan : Plan} (hformed : WellFormed os file)
    (h : layoutPass flags os file = .ok plan) :
    plan.header = ehdrOf file ∧ plan.layout = (loads file).foldl Layout.add .init ∧
      ∀ segment ∈ loads file, segment.vend ≤ translatorBase.toNat := by
  unfold layoutPass at h
  cases hheader : readHeader flags os file with
  | error reason =>
      rw [hheader] at h
      cases h
  | ok header =>
      rw [hheader] at h
      obtain rfl := readHeader_ok hformed.readEhdr hheader
      simp only [bind, Except.bind] at h
      split at h
      · cases h
      · split at h
        · cases h
        · split at h
          · cases h
          · split at h
            · cases h
            · rename_i layout hlayout
              obtain rfl := Except.ok.inj h
              -- with whole headers the loop reads the segments of the file
              have hwhole : WholeReads os.readPhdr file (ehdrOf file).ePhnum.toNat 0
                  (ehdrOf file).ePhoff.toNat := by
                intro j hj
                rw [Nat.zero_add]
                exact hformed.readPhdr j hj
              obtain ⟨hfold, hbelow⟩ := layoutLoop_ok hwhole hlayout
              rw [← hformed.entries] at hfold hbelow
              refine ⟨rfl, hfold, fun segment hmem => ?_⟩
              have hend := BitVec.not_lt.1 (hbelow segment hmem)
              rw [← Phdr.vend_eq (hformed.segments segment hmem).1]
              exact hend

/-- What the kernel did when it mapped the range at the address that was asked for. -/
theorem call_allowed (hlegal : host.Legal k) {l : Layout}
    (hok : ¬ isError (host l.call space).result)
    (hat : (host l.call space).result = l.startAddr) :
    l.startAddr.toNat + (l.endAddr - l.startAddr).toNat = l.endAddr.toNat := by
  obtain ⟨hlen, -, hsize, -⟩ := (hlegal l.call space).resolve_left hok
  rw [hat] at hsize
  have htask := k.taskSize_lt
  have hlt := l.endAddr.isLt
  have hlt' := l.startAddr.isLt
  rw [BitVec.toNat_sub] at hlen hsize ⊢
  omega

/-- A mapping at the layout's start covers all segments. -/
theorem mapped_of_layout (hlegal : host.Legal k) (hformed : WellFormed os file) {l : Layout}
    (hlayout : l = (loads file).foldl Layout.add .init)
    (hbelow : ∀ segment ∈ loads file, segment.vend ≤ translatorBase.toNat)
    (hok : ¬ isError (host l.call space).result)
    (hat : (host l.call space).result = l.startAddr) :
    Mapped file l.endAddr ⟨l.call.effect (host l.call space) space,
      ((host l.call space).result.toNat, (l.endAddr - l.startAddr).toNat), []⟩ := by
  have hrange := call_allowed hlegal hok hat
  have hmax : l.maxAddr.toNat = ((loads file).map Phdr.vend).foldr max 0 := by
    rw [hlayout, foldl_add_max fun segment hmem => (hformed.segments segment hmem).1]
    exact Nat.zero_max _
  have htop : l.maxAddr.toNat ≤ translatorBase.toNat := by
    rw [hmax]
    refine List.max_le_of_forall_le ((loads file).map Phdr.vend) _ fun m hm => ?_
    obtain ⟨segment, hmem, rfl⟩ := List.mem_map.1 hm
    exact hbelow segment hmem
  obtain ⟨hup, hup'⟩ := alignUp_bounds htop
  have haligned := (alignDown_bounds l.minAddr).1
  have hmin := (foldl_add_min (l := .init) hformed.unset).1
  rw [← hlayout] at hmin
  -- the mapping is anonymous, so its bytes are zero, and its bounds hold every segment
  refine ⟨rfl, fun x hlo hhi => ?_, fun segment hmem => ⟨?_, ?_, hbelow segment hmem⟩,
    alignUp_aligned _, ?_, ?_⟩
  · show (HostCall.effect l.call _ _).bytes x = 0#8
    have hanon : hasFlag (mapFixedNoReplace ||| mapPrivate ||| mapAnonymous) mapAnonymous := by
      decide
    have heffect : l.call.effect (host l.call space) space =
        space.map (host l.call space).result.toNat (l.endAddr - l.startAddr).toNat fun _ => 0#8 :=
      effect_anonymous space hok hanon
    rw [heffect, hat]
    dsimp only at hlo hhi
    rw [hat] at hlo hhi
    have hend : pageSize ∣ l.startAddr.toNat + (l.endAddr - l.startAddr).toNat := by
      rw [hrange]
      exact alignUp_aligned _
    exact if_pos ((touches_iff haligned _ hend).2 ⟨hlo, hhi⟩)
  · dsimp only
    rw [hat]
    exact hmin segment hmem
  · dsimp only
    rw [hat, hrange]
    refine Nat.le_trans ?_ hup
    rw [hmax]
    exact List.le_max_of_le (List.mem_map_of_mem hmem) (Nat.le_refl _)
  · rw [← hmax]
    exact hup
  · rw [← hmax]
    exact hup'

/-- The loader refuses before anything is read, or maps the range and reads segments into it:
all of them if it reports success. -/
theorem mapIntoMemory_cases (flags : Flags) (space : Space) (hlegal : host.Legal k)
    (hformed : WellFormed os file) :
    ((∃ reason, (mapIntoMemory flags os host file space).1 = .error reason) ∧
      (mapIntoMemory flags os host file space).2.written = []) ∨
    ∃ dataEnd s done, Mapped file dataEnd s ∧ done <+: allReads os file ∧
      (mapIntoMemory flags os host file space).2 = done.foldl (LoadState.read file) s ∧
      ∀ r, (mapIntoMemory flags os host file space).1 = .ok r →
        r.dataEnd = dataEnd ∧ done = allReads os file := by
  unfold mapIntoMemory
  split
  · exact .inl ⟨⟨_, rfl⟩, rfl⟩
  · rename_i plan hplan
    obtain ⟨hheader, hlayout, hbelow⟩ := layoutPass_ok hformed hplan
    dsimp only
    -- the host refuses the mapping, or puts it elsewhere
    split
    · exact .inl ⟨⟨_, rfl⟩, rfl⟩
    · rename_i hok
      split
      · exact .inl ⟨⟨_, rfl⟩, rfl⟩
      · rename_i hat
        have hmapped := mapped_of_layout hlegal hformed hlayout hbelow hok (not_not.1 hat)
        unfold loadPass
        split
        · exact .inl ⟨⟨_, rfl⟩, rfl⟩
        · split
          · exact .inl ⟨⟨_, rfl⟩, rfl⟩
          · have hwhole : WholeReads os.readPhdr2 file (ehdrOf file).ePhnum.toNat 0
                (ehdrOf file).ePhoff.toNat := by
              intro j hj
              rw [Nat.zero_add]
              exact hformed.readPhdr2 j hj
            rw [hheader]
            obtain ⟨done, hpre, hstate, hall⟩ := loadLoop_spec _ hwhole
            refine .inr ⟨_, _, done, hmapped, hpre, hstate, fun r hr => ?_⟩
            dsimp only at hr
            cases hloop : (loadLoop os file (ehdrOf file).ePhnum.toNat 0
                (ehdrOf file).ePhoff.toNat ⟨plan.layout.call.effect (host plan.layout.call space)
                  space, ((host plan.layout.call space).result.toNat,
                  (plan.layout.endAddr - plan.layout.startAddr).toNat), []⟩).1 with
            | error reason =>
                rw [hloop] at hr
                cases hr
            | ok done =>
                rw [hloop] at hr
                obtain rfl := Except.ok.inj hr
                exact ⟨rfl, hall hloop⟩

end Mapping

/-! ## Exactness -/

section Exact

variable {flags : Flags} {os : Os} {k : Kernel} {host : Host} {file : File} {space : Space}

theorem WellFormed.reads_fst (hformed : WellFormed os file) :
    (allReads os file).map Prod.fst = loads file := by
  rw [hformed.entries]
  exact segmentReads_fst os file _ _ _

/-- What holds of each read of the load pass. -/
theorem WellFormed.read_bounds (hformed : WellFormed os file) {p : Phdr × Nat}
    (hp : p ∈ allReads os file) :
    p.1 ∈ loads file ∧ p.1.vend < 2 ^ 64 ∧ p.2 ≤ p.1.pFilesz.toNat ∧
      p.1.pFilesz.toNat ≤ p.1.pMemsz.toNat := by
  have hmem : p.1 ∈ loads file := by
    rw [← hformed.reads_fst]
    exact List.mem_map_of_mem hp
  obtain ⟨hend, hsize⟩ := hformed.segments p.1 hmem
  exact ⟨hmem, hend, segmentReads_le p hp, hsize⟩

/-- The bytes that a read covers are those of the segment in memory, as far as they were
transferred. -/
theorem WellFormed.covers_iff (hformed : WellFormed os file) {p : Phdr × Nat}
    (hp : p ∈ allReads os file) (x : BitVec 64) :
    Covers p x ↔ p.1.pVaddr.toNat ≤ x.toNat ∧ x.toNat < p.1.pVaddr.toNat + p.2 := by
  obtain ⟨-, hend, hread, hsize⟩ := hformed.read_bounds hp
  have hx := x.isLt
  have hv := p.1.pVaddr.isLt
  unfold Covers
  unfold Phdr.vend at hend
  rw [BitVec.toNat_sub]
  omega

/-- Segments of a well-formed file do not overlap, and neither do their reads. -/
theorem WellFormed.reads_apart (hformed : WellFormed os file) :
    (allReads os file).Pairwise fun p q =>
      p.1.vend ≤ q.1.pVaddr.toNat ∨ q.1.vend ≤ p.1.pVaddr.toNat := by
  have hapart := hformed.apart
  rw [← hformed.reads_fst, List.pairwise_map] at hapart
  exact hapart

/-- A byte of a segment that a read wrote is not written by another read. -/
theorem WellFormed.not_covers (hformed : WellFormed os file) {p q : Phdr × Nat}
    (hq : q ∈ allReads os file)
    (hapart : p.1.vend ≤ q.1.pVaddr.toNat ∨ q.1.vend ≤ p.1.pVaddr.toNat) {x : BitVec 64}
    (hlo : p.1.pVaddr.toNat ≤ x.toNat) (hhi : x.toNat < p.1.vend) : ¬ Covers q x := by
  obtain ⟨-, -, hread, hsize⟩ := hformed.read_bounds hq
  rw [hformed.covers_iff hq]
  unfold Phdr.vend at hapart hhi
  omega

/-- The byte of a segment at an offset, after all reads. -/
theorem loaded_byte {dataEnd : BitVec 64} {s : LoadState} (hformed : WellFormed os file)
    (hmapped : Mapped file dataEnd s) {p : Phdr × Nat} (hp : p ∈ allReads os file) {j : Nat}
    (hj : j < p.1.pMemsz.toNat) :
    ((allReads os file).foldl (LoadState.read file) s).space.bytes
        (p.1.pVaddr + BitVec.ofNat 64 j) =
      if j < p.2 then file.getD (p.1.pOffset.toNat + j) 0#8 else 0#8 := by
  obtain ⟨hmem, hend, hread, hsize⟩ := hformed.read_bounds hp
  have hx : (p.1.pVaddr + BitVec.ofNat 64 j).toNat = p.1.pVaddr.toNat + j := by
    unfold Phdr.vend at hend
    rw [BitVec.toNat_add, BitVec.toNat_ofNat]
    omega
  have hoff : (p.1.pVaddr + BitVec.ofNat 64 j - p.1.pVaddr).toNat = j := by
    have hv := p.1.pVaddr.isLt
    unfold Phdr.vend at hend
    rw [BitVec.toNat_sub, hx]
    omega
  have hinside : (p.1.pVaddr + BitVec.ofNat 64 j).toNat < p.1.vend := by
    rw [hx]
    exact Nat.add_lt_add_left hj _
  split
  · -- a byte of the file: no read of another segment comes over it
    rename_i hcovered
    have hcovers : Covers p (p.1.pVaddr + BitVec.ofNat 64 j) := by
      unfold Covers
      rw [hoff]
      exact hcovered
    have hapart : (allReads os file).Pairwise fun p q => ∀ x, Covers p x → ¬ Covers q x := by
      refine hformed.reads_apart.imp_of_mem fun hq hq' happart x hcov => ?_
      obtain ⟨hlo, hhi⟩ := (hformed.covers_iff hq x).1 hcov
      obtain ⟨-, -, hread', hsize'⟩ := hformed.read_bounds hq
      refine hformed.not_covers hq' happart hlo ?_
      unfold Phdr.vend
      omega
    rw [reads_covered hapart hp hcovers, hoff]
  · -- beyond the bytes that were read: the zero of the mapping
    rename_i hbeyond
    rw [reads_outside fun q hq => ?_]
    · obtain ⟨hlo, hhi, -⟩ := hmapped.inside p.1 hmem
      exact hmapped.zero _ (by omega) (by omega)
    · by_cases hsame : p = q
      · subst hsame
        rw [hformed.covers_iff hp, hx]
        omega
      · have hsymm : Std.Symm fun p q : Phdr × Nat =>
            p.1.vend ≤ q.1.pVaddr.toNat ∨ q.1.vend ≤ p.1.pVaddr.toNat := ⟨fun _ _ h => h.symm⟩
        refine hformed.not_covers hq (hformed.reads_apart.forall hp hq hsame) ?_ hinside
        rw [hx]
        exact Nat.le_add_right _ _

/-- Whatever part of the segments is read, it is read into the range that was mapped. -/
theorem noStray_of_reads {dataEnd : BitVec 64} {s : LoadState} {done : List (Phdr × Nat)}
    (hformed : WellFormed os file) (hmapped : Mapped file dataEnd s)
    (hpre : done <+: allReads os file) : NoStray (done.foldl (LoadState.read file) s) := by
  intro w hw _
  rw [reads_mapped]
  rcases reads_written hw with hbefore | ⟨p, hp, rfl⟩
  · rw [hmapped.written] at hbefore
    exact absurd hbefore List.not_mem_nil
  · obtain ⟨hmem, -, hread, hsize⟩ := hformed.read_bounds (hpre.subset hp)
    obtain ⟨hlo, hhi, -⟩ := hmapped.inside p.1 hmem
    unfold Phdr.vend at hhi
    dsimp only
    omega

/-- All segments were read: they are in memory exactly if nothing but zeros is missing. -/
theorem loaded_iff {dataEnd : BitVec 64} {s : LoadState} {r : MapResult}
    (hformed : WellFormed os file) (hmapped : Mapped file dataEnd s) (hr : r.dataEnd = dataEnd) :
    Loaded file r ((allReads os file).foldl (LoadState.read file) s) ↔ Transferred os file := by
  -- both directions read a byte of a segment off `loaded_byte`
  constructor
  · intro hloaded p hp j hj
    obtain ⟨hmem, -, -, hsize⟩ := hformed.read_bounds hp
    have hbyte := hloaded.bytes p.1 hmem j hj
    obtain ⟨hlt, -⟩ := List.getElem?_eq_some_iff.1 hbyte
    refine ⟨hlt, fun hmissing => ?_⟩
    rw [loaded_byte hformed hmapped hp (hj.trans_le hsize), if_neg (Nat.not_lt.2 hmissing)] at hbyte
    rw [List.getD_eq_getElem?_getD, hbyte]
    rfl
  · intro htransferred
    have hread : ∀ segment ∈ loads file, ∃ n, (segment, n) ∈ allReads os file := by
      intro segment hmem
      rw [← hformed.reads_fst] at hmem
      obtain ⟨p, hp, rfl⟩ := List.mem_map.1 hmem
      exact ⟨p.2, hp⟩
    refine ⟨fun segment hmem j hj => ?_, fun segment hmem j hlo hhi => ?_,
      fun segment hmem => ?_, ?_⟩
    · obtain ⟨n, hp⟩ := hread segment hmem
      obtain ⟨hlt, hzero⟩ := htransferred _ hp j hj
      rw [loaded_byte hformed hmapped hp (hj.trans_le (hformed.segments segment hmem).2)]
      split
      · rw [List.getD_eq_getElem?_getD, List.getElem?_eq_getElem hlt]
        rfl
      · rename_i hmissing
        have hbyte := hzero (Nat.not_lt.1 hmissing)
        rw [List.getD_eq_getElem?_getD, List.getElem?_eq_getElem hlt] at hbyte
        rw [List.getElem?_eq_getElem hlt]
        exact congrArg some hbyte
    · obtain ⟨n, hp⟩ := hread segment hmem
      obtain ⟨-, -, hle, -⟩ := hformed.read_bounds hp
      rw [loaded_byte hformed hmapped hp hhi]
      exact if_neg (Nat.not_lt.2 (hle.trans hlo))
    · rw [reads_mapped]
      exact hmapped.inside segment hmem
    · rw [hr]
      exact hmapped.dataEnd

/-- With sound headers, nothing is written beside the range that was mapped. -/
theorem noStray_of_wellFormed (flags : Flags) (space : Space) (hlegal : host.Legal k)
    (hformed : WellFormed os file) : NoStray (mapIntoMemory flags os host file space).2 := by
  rcases mapIntoMemory_cases flags space hlegal hformed with
    ⟨-, hnone⟩ | ⟨dataEnd, s, done, hmapped, hpre, hstate, -⟩
  · intro w hw
    rw [hnone] at hw
    exact absurd hw List.not_mem_nil
  · rw [hstate]
    exact noStray_of_reads hformed hmapped hpre

/-- With sound headers, what is reported as loaded is loaded exactly if the contents of all
segments are transferred. -/
theorem loaded_iff_transferred (flags : Flags) (space : Space) (hlegal : host.Legal k)
    (hformed : WellFormed os file) {r : MapResult}
    (hr : (mapIntoMemory flags os host file space).1 = .ok r) :
    Loaded file r (mapIntoMemory flags os host file space).2 ↔ Transferred os file := by
  rcases mapIntoMemory_cases flags space hlegal hformed with
    ⟨⟨reason, herror⟩, -⟩ | ⟨dataEnd, s, done, hmapped, -, hstate, hall⟩
  · cases hr.symm.trans herror
  · obtain ⟨hend, hdone⟩ := hall r hr
    rw [hstate, hdone]
    exact loaded_iff hformed hmapped hend

/-- A file that is refused before a segment is read is refused as it should be. With sound
headers, loading is exact or refused exactly if the file is refused so, or the load pass stops at
a later header, or the contents of all segments are transferred. -/
theorem mapIntoMemory_exact (flags : Flags) (os : Os) (k : Kernel) (host : Host) (file : File)
    (space : Space) (hlegal : host.Legal k) :
    (RefusedBefore os host file space →
      LoadsExactly file (mapIntoMemory flags os host file space)) ∧
    (WellFormed os file → (LoadsExactly file (mapIntoMemory flags os host file space) ↔
      RefusedBefore os host file space ∨ StopsLoading os file ∨ Transferred os file)) := by
  have herrors : (∃ reason, (mapIntoMemory flags os host file space).1 = .error reason) →
      NoStray (mapIntoMemory flags os host file space).2 →
      LoadsExactly file (mapIntoMemory flags os host file space) := by
    rintro ⟨reason, herror⟩ hstray
    exact ⟨hstray, fun r hr => by cases herror.symm.trans hr⟩
  rcases mapIntoMemory_outcomes flags os host file space with
    ⟨hbefore, herror, hwritten⟩ | ⟨hnot, hlater⟩
  · have hexact := herrors herror fun w hw => by
      rw [hwritten] at hw
      exact absurd hw List.not_mem_nil
    exact ⟨fun _ => hexact, fun _ => ⟨fun _ => .inl hbefore, fun _ => hexact⟩⟩
  · refine ⟨fun hbefore => absurd hbefore hnot, fun hformed => ?_⟩
    have hstray := noStray_of_wellFormed flags space hlegal hformed
    rcases hlater with ⟨hstops, herror⟩ | ⟨hgoes, r, hr⟩
    · exact ⟨fun _ => .inr (.inl hstops), fun _ => herrors herror hstray⟩
    · have hiff := loaded_iff_transferred flags space hlegal hformed hr
      refine ⟨fun hexact => .inr (.inr (hiff.1 (hexact.2 r hr))), fun hcase => ⟨hstray, ?_⟩⟩
      intro r' hr'
      obtain rfl := Except.ok.inj (hr.symm.trans hr')
      exact hiff.2 ((hcase.resolve_left hnot).resolve_left hgoes)

end Exact

section Small

set_option maxRecDepth 8000

/-- A file with one segment: two bytes of it are in the file, four in memory. -/
def smallFile : File :=
  [0x7f, 0x45, 0x4c, 0x46, 2, 1, 1, 0, 0, 0, 0, 0, 0, 0, 0, 0, 2, 0, 243, 0, 1, 0, 0, 0,
    0, 0, 1, 0, 0, 0, 0, 0, 64, 0, 0, 0, 0, 0, 0, 0, 0, 0, 0, 0, 0, 0, 0, 0, 0, 0, 0, 0,
    64, 0, 56, 0, 1, 0, 64, 0, 0, 0, 0, 0] ++
  [1, 0, 0, 0, 7, 0, 0, 0, 120, 0, 0, 0, 0, 0, 0, 0, 0, 0, 1, 0, 0, 0, 0, 0, 0, 0, 1, 0, 0, 0, 0, 0,
    2, 0, 0, 0, 0, 0, 0, 0, 4, 0, 0, 0, 0, 0, 0, 0, 0, 16, 0, 0, 0, 0, 0, 0] ++
  [0x13, 0x37]

/-- A system that answers everything, and the reads of segments as given. -/
def Os.answering (segment : Answer) : Os where
  fd := 3
  fd2 := 4
  readEhdr := ⟨⟨ehdrSize, false⟩, fun _ => 0#8⟩
  seekSh := true
  readShdr := fun _ => ⟨⟨shdrSize, false⟩, fun _ => 0#8⟩
  seekPh := true
  readPhdr := fun _ => ⟨⟨phdrSize, false⟩, fun _ => 0#8⟩
  seekPh2 := true
  readPhdr2 := fun _ => ⟨⟨phdrSize, false⟩, fun _ => 0#8⟩
  seekSegment := fun _ => true
  readSegment := fun _ => segment

/-- The segment of `smallFile`. -/
def smallSegment : Phdr := ⟨ptLoad, 120#64, 0x10000#64, 2#64, 4#64⟩

theorem ehdrOf_smallFile :
    ehdrOf smallFile = ⟨2#8, 2#16, 243#16, 0x10000#64, 64#64, 0#64, 0#32, 56#16, 1#16, 0#16⟩ := rfl

theorem allReads_smallFile :
    allReads (.answering ⟨2, false⟩) smallFile = [(smallSegment, 2)] := rfl

theorem loads_smallFile : loads smallFile = [smallSegment] := rfl

theorem wellFormed_smallFile (segment : Answer) : WellFormed (.answering segment) smallFile := by
  refine ⟨.inr (.inr rfl), rfl, fun i hi => ?_, fun i hi => ?_, ?_, ?_, ?_⟩
  · rw [ehdrOf_smallFile] at hi
    obtain rfl : i = 0 := Nat.lt_one_iff.1 hi
    exact .inr (.inr rfl)
  · rw [ehdrOf_smallFile] at hi
    obtain rfl : i = 0 := Nat.lt_one_iff.1 hi
    exact .inr (.inr rfl)
  · rw [loads_smallFile]
    decide
  · rw [loads_smallFile]
    exact List.pairwise_singleton _ _
  · rw [loads_smallFile]
    intro segment rest hsuffix hzero
    obtain rfl : segment = smallSegment :=
      List.mem_singleton.1 (hsuffix.subset List.mem_cons_self)
    exact absurd hzero (by decide)

theorem transferred_smallFile : Transferred (.answering ⟨2, false⟩) smallFile := by
  intro p hp j hj
  rw [allReads_smallFile] at hp
  obtain rfl := List.mem_singleton.1 hp
  have hlt : j < 2 := hj
  refine ⟨?_, fun hmissing => absurd hmissing (Nat.not_le.2 hlt)⟩
  change 120 + j < 122
  omega

/-- The small file is loaded, and the empty one is refused. -/
theorem mapIntoMemory_exact_smallFile :
    LoadsExactly smallFile (mapIntoMemory {} (.answering ⟨2, false⟩) (servesFirst linux)
      smallFile emptySpace) ∧
    LoadsExactly [] (mapIntoMemory {} (.answering ⟨2, false⟩) (servesFirst linux)
      [] emptySpace) := by
  constructor
  · exact ((mapIntoMemory_exact {} (.answering ⟨2, false⟩) linux (servesFirst linux) smallFile
      emptySpace (servesFirst_legal linux)).2 (wellFormed_smallFile _)).2
        (.inr (.inr transferred_smallFile))
  · exact (mapIntoMemory_exact {} (.answering ⟨2, false⟩) linux (servesFirst linux) []
      emptySpace (servesFirst_legal linux)).1 (.layout (.readEhdr (by decide)))

theorem mapIntoMemory_unread_valid :
    ∃ r, (mapIntoMemory {} (.answering ⟨0, true⟩) (servesFirst linux) smallFile emptySpace).1 =
      .ok r := ⟨_, rfl⟩

theorem mapIntoMemory_unread_byte :
    (mapIntoMemory {} (.answering ⟨0, true⟩) (servesFirst linux) smallFile
      emptySpace).2.space.bytes 0x10000#64 = 0#8 := rfl

/-- A segment that could not be read is reported as loaded. -/
theorem mapIntoMemory_unread :
    ¬ ∀ (flags : Flags) (os : Os) (k : Kernel) (host : Host) (file : File) (space : Space),
      host.Legal k → LoadsExactly file (mapIntoMemory flags os host file space) := by
  intro hall
  have hexact := hall {} (.answering ⟨0, true⟩) linux (servesFirst linux) smallFile emptySpace
    (servesFirst_legal linux)
  obtain ⟨r, hr⟩ := mapIntoMemory_unread_valid
  have hmem : smallSegment ∈ loads smallFile := by
    rw [loads_smallFile]
    exact List.mem_singleton_self _
  have hbyte := (hexact.2 r hr).bytes smallSegment hmem 0 (by decide)
  rw [show smallSegment.pVaddr + BitVec.ofNat 64 0 = 0x10000#64 from rfl,
    mapIntoMemory_unread_byte] at hbyte
  exact absurd hbyte (by decide)

end Small

end RiaJit.Elf
