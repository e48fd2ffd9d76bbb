import RiaJit.Elf.LoadElf

/-!
# What is refused

When `mapIntoMemory` refuses a file, as a property of the file and of what the system answers:
before the contents of a segment are read, or at a later header.
-/

set_option autoImplicit false

namespace RiaJit.Elf

open HostMemory RiaJit.Runtime

/-! ## The headers as they are read -/

/-- The read of one header of a table. -/
structure HeaderRead where
  index : Nat
  result : Int
  buffer : Buffer

/-- The read of the `i`-th header at `pos`. -/
def headerRead (answers : Nat → StructAnswer) (file : File) (size i pos : Nat) : HeaderRead :=
  ⟨i, (answers i).result file pos size, (answers i).buffer file pos size⟩

/-- The reads of `n` headers from `pos` on, each from where the one before it ended. -/
def headersRead (answers : Nat → StructAnswer) (file : File) (size : Nat) :
    Nat → Nat → Nat → List HeaderRead
  | 0, _, _ => []
  | n + 1, i, pos =>
      headerRead answers file size i pos ::
        headersRead answers file size n (i + 1) (pos + (answers i).transferred file pos size)

/-- The header of the file as it is read. -/
def Os.header (os : Os) (file : File) : Ehdr :=
  Ehdr.ofBuffer (os.readEhdr.buffer file 0 ehdrSize)

/-- The section headers as they are read. -/
def Os.sections (os : Os) (file : File) : List HeaderRead :=
  headersRead os.readShdr file shdrSize (os.header file).eShnum.toNat 0
    (os.header file).eShoff.toNat

/-- The program headers as the layout pass reads them. -/
def Os.segments (os : Os) (file : File) : List HeaderRead :=
  headersRead os.readPhdr file phdrSize (os.header file).ePhnum.toNat 0
    (os.header file).ePhoff.toNat

/-- The program headers as the load pass reads them. -/
def Os.segments2 (os : Os) (file : File) : List HeaderRead :=
  headersRead os.readPhdr2 file phdrSize (os.header file).ePhnum.toNat 0
    (os.header file).ePhoff.toNat

/-- The program header that was read. -/
def HeaderRead.phdr (p : HeaderRead) : Phdr := Phdr.ofBuffer p.buffer

/-- The header is not one of a 64-bit RISC-V executable whose ABI is supported. -/
def Ehdr.Foreign (header : Ehdr) : Prop :=
  header.eMachine ≠ 243#16 ∨ header.eiClass ≠ 2#8 ∨ header.eType ≠ 2#16 ∨
    header.eFlags &&& 0x1#32 ≠ 0#32 ∨ header.eFlags &&& 0x8#32 ≠ 0#32 ∨
    header.eFlags &&& 0x10#32 ≠ 0#32

/-- The layout pass stops at a program header. -/
def HeaderRead.StopsLayout (p : HeaderRead) : Prop :=
  p.result ≤ 0 ∨ p.phdr.pType = ptLoad ∧ p.phdr.pVaddr + p.phdr.pMemsz > translatorBase ∨
    p.phdr.pType = ptInterp

/-- The load pass stops at a program header, before the segment is read. -/
def Os.StopsLoad (os : Os) (p : HeaderRead) : Prop :=
  p.result ≤ 0 ∨ p.phdr.pType = ptLoad ∧ ¬ seek (os.seekSegment p.index) p.phdr.pOffset

/-- The segments to be loaded among the program headers that were read. -/
def loadsOf (reads : List HeaderRead) : List Phdr :=
  (reads.map HeaderRead.phdr).filter fun segment => segment.pType = ptLoad

/-- The layout of the segments that were read. -/
def Os.layout (os : Os) (file : File) : Layout :=
  (loadsOf (os.segments file)).foldl Layout.add .init

/-- The file is refused by the layout pass: it cannot be opened or read, it is no file for this
translator, a table of headers cannot be read, or a segment has no place. -/
inductive RefusedLayout (os : Os) (file : File) : Prop
  | open : os.fd ≤ 0 → RefusedLayout os file
  | readEhdr : os.readEhdr.result file 0 ehdrSize ≤ 0 → RefusedLayout os file
  | foreign : (os.header file).Foreign → RefusedLayout os file
  | seekSh : ¬ seek os.seekSh (os.header file).eShoff → RefusedLayout os file
  | readShdr {p : HeaderRead} : p ∈ os.sections file → p.result ≤ 0 → RefusedLayout os file
  | seekPh : ¬ seek os.seekPh (os.header file).ePhoff → RefusedLayout os file
  | segment {p : HeaderRead} : p ∈ os.segments file → p.StopsLayout → RefusedLayout os file

/-- The file is refused before anything of a segment is read: by the layout pass, because the
range is not mapped where it was asked for, or at a header of the load pass that no segment
comes before. -/
inductive RefusedBefore (os : Os) (host : Host) (file : File) (space : Space) : Prop
  | layout : RefusedLayout os file → RefusedBefore os host file space
  | mmap : isError (host (os.layout file).call space).result → RefusedBefore os host file space
  | misplaced : (host (os.layout file).call space).result ≠ (os.layout file).startAddr →
      RefusedBefore os host file space
  | seekPh2 : ¬ seek os.seekPh2 (os.header file).ePhoff → RefusedBefore os host file space
  | open2 : os.fd2 ≤ 0 → RefusedBefore os host file space
  | first {before rest : List HeaderRead} {p : HeaderRead} :
      os.segments2 file = before ++ p :: rest → (∀ q ∈ before, q.phdr.pType ≠ ptLoad) →
      os.StopsLoad p → RefusedBefore os host file space

/-- The load pass stops at one of the program headers. -/
def StopsLoading (os : Os) (file : File) : Prop := ∃ p ∈ os.segments2 file, os.StopsLoad p

/-! ## The layout pass -/

section

variable {flags : Flags} {os : Os} {host : Host} {file : File} {space : Space} {n i pos : Nat}

theorem phdr_headerRead (answers : Nat → StructAnswer) (file : File) (size i pos : Nat) :
    Phdr.ofBuffer ((answers i).buffer file pos size) =
      (headerRead answers file size i pos).phdr := rfl

theorem result_headerRead (answers : Nat → StructAnswer) (file : File) (size i pos : Nat) :
    (answers i).result file pos size = (headerRead answers file size i pos).result := rfl

theorem loadsOf_load {p : HeaderRead} {reads : List HeaderRead} (h : p.phdr.pType = ptLoad) :
    loadsOf (p :: reads) = p.phdr :: loadsOf reads := by
  simp [loadsOf, h]

theorem loadsOf_skip {p : HeaderRead} {reads : List HeaderRead} (h : p.phdr.pType ≠ ptLoad) :
    loadsOf (p :: reads) = loadsOf reads := by
  simp [loadsOf, h]

theorem readHeader_ok_iff {header : Ehdr} : readHeader flags os file = .ok header ↔
    0 < os.fd ∧ 0 < os.readEhdr.result file 0 ehdrSize ∧ ¬ (os.header file).Foreign ∧
      header = os.header file := by
  unfold readHeader Ehdr.Foreign
  simp only [← Os.header.eq_1]
  split
  · rename_i hfd
    exact ⟨fun h => (nomatch h), fun h => absurd h.1 (Int.not_lt.2 hfd)⟩
  · rename_i hfd
    split
    · rename_i hread
      exact ⟨fun h => (nomatch h), fun h => absurd h.2.1 (Int.not_lt.2 hread)⟩
    · rename_i hread
      split
      · exact ⟨fun h => (nomatch h), fun h => absurd (.inl ‹_›) h.2.2.1⟩
      · split
        · exact ⟨fun h => (nomatch h), fun h => absurd (.inr (.inl ‹_›)) h.2.2.1⟩
        · split
          · exact ⟨fun h => (nomatch h), fun h => absurd (.inr (.inr (.inl ‹_›))) h.2.2.1⟩
          · split
            · exact ⟨fun h => (nomatch h), fun h => absurd (.inr (.inr (.inr ‹_›))) h.2.2.1⟩
            · rename_i hmachine hclass htype habi
              refine ⟨fun h => ?_, fun h => ?_⟩
              · refine ⟨Int.not_le.1 hfd, Int.not_le.1 hread, ?_, (Except.ok.inj h).symm⟩
                rintro (h | h | h | h)
                · exact hmachine h
                · exact hclass h
                · exact htype h
                · exact habi h
              · rw [h.2.2.2]

/-- The sections are read up to the first header that is not given. -/
theorem sectionLoop_ok_iff {r : ExecRange} : (∃ r', sectionLoop os file n i pos r = .ok r') ↔
    ∀ p ∈ headersRead os.readShdr file shdrSize n i pos, 0 < p.result := by
  induction n generalizing i pos r with
  | zero => exact ⟨fun _ _ hmem => absurd hmem List.not_mem_nil, fun _ => ⟨r, rfl⟩⟩
  | succ n ih =>
      unfold sectionLoop headersRead
      rw [List.forall_mem_cons]
      dsimp only
      split
      · rename_i hread
        exact ⟨fun ⟨_, h⟩ => (nomatch h), fun h => absurd h.1 (Int.not_lt.2 hread)⟩
      · rename_i hread
        rw [ih]
        exact ⟨fun h => ⟨Int.not_le.1 hread, h⟩, fun h => h.2⟩

/-- The layout is that of the segments that are read, if the pass stops at none of them. -/
theorem layoutLoop_ok_iff {l l' : Layout} : layoutLoop os file n i pos l = .ok l' ↔
    (∀ p ∈ headersRead os.readPhdr file phdrSize n i pos, ¬ p.StopsLayout) ∧
      l' = (loadsOf (headersRead os.readPhdr file phdrSize n i pos)).foldl Layout.add l := by
  induction n generalizing i pos l with
  | zero =>
      refine ⟨fun h => ⟨fun _ hmem => absurd hmem List.not_mem_nil, (Except.ok.inj h).symm⟩,
        fun h => ?_⟩
      rw [h.2]
      rfl
  | succ n ih =>
      unfold layoutLoop headersRead
      rw [List.forall_mem_cons]
      dsimp only
      rw [result_headerRead, phdr_headerRead]
      generalize headerRead os.readPhdr file phdrSize i pos = p
      split
      · rename_i hread
        exact ⟨fun h => (nomatch h), fun h => absurd (.inl hread) h.1.1⟩
      · rename_i hread
        split
        · rename_i hload
          rw [loadsOf_load hload, List.foldl_cons]
          split
          · rename_i hhigh
            exact ⟨fun h => (nomatch h), fun h => absurd (.inr (.inl ⟨hload, hhigh⟩)) h.1.1⟩
          · rename_i hlow
            rw [ih]
            refine ⟨fun h => ⟨⟨?_, h.1⟩, h.2⟩, fun h => ⟨h.1.2, h.2⟩⟩
            -- a segment stops the pass if it is not read, lies too high or names an interpreter
            rintro (hstop | ⟨-, hstop⟩ | hstop)
            · exact hread hstop
            · exact hlow hstop
            · exact absurd (hload.symm.trans hstop) (by decide)
        · rename_i hload
          rw [loadsOf_skip hload]
          split
          · rename_i hinterp
            exact ⟨fun h => (nomatch h), fun h => absurd (.inr (.inr hinterp)) h.1.1⟩
          · rename_i hinterp
            rw [ih]
            refine ⟨fun h => ⟨⟨?_, h.1⟩, h.2⟩, fun h => ⟨h.1.2, h.2⟩⟩
            rintro (hstop | ⟨hstop, -⟩ | hstop)
            · exact hread hstop
            · exact hload hstop
            · exact hinterp hstop

/-- The layout pass refuses exactly these files. -/
theorem layoutPass_cases (flags : Flags) (os : Os) (file : File) :
    (RefusedLayout os file ∧ ∃ reason, layoutPass flags os file = .error reason) ∨
    (¬ RefusedLayout os file ∧ ∃ exec,
      layoutPass flags os file = .ok ⟨os.header file, exec, os.layout file⟩) := by
  unfold layoutPass
  cases hheader : readHeader flags os file with
  | error reason =>
      -- each stage fails for one of its reasons only, so without them it would have gone on
      refine .inl ⟨?_, _, rfl⟩
      by_contra hnot
      have hok : readHeader flags os file = .ok (os.header file) := by
        refine readHeader_ok_iff.2 ⟨?_, ?_, fun h => hnot (.foreign h), rfl⟩
        · exact Int.not_le.1 fun h => hnot (.open h)
        · exact Int.not_le.1 fun h => hnot (.readEhdr h)
      cases hheader.symm.trans hok
  | ok header =>
      obtain ⟨hfd, hread, hknown, rfl⟩ := readHeader_ok_iff.1 hheader
      simp only [bind, Except.bind]
      split
      · rename_i hseek
        exact .inl ⟨.seekSh hseek, _, rfl⟩
      · rename_i hseekSh
        cases hsections : sectionLoop os file (os.header file).eShnum.toNat 0
            (os.header file).eShoff.toNat ⟨0#64, 0#64⟩ with
        | error reason =>
            refine .inl ⟨?_, _, rfl⟩
            by_contra hnot
            obtain ⟨r, hok⟩ := sectionLoop_ok_iff.2 fun p hp =>
              Int.not_le.1 fun h => hnot (.readShdr hp h)
            cases hsections.symm.trans hok
        | ok exec =>
            dsimp only
            split
            · rename_i hseek
              exact .inl ⟨.seekPh hseek, _, rfl⟩
            · rename_i hseekPh
              cases hlayout : layoutLoop os file (os.header file).ePhnum.toNat 0
                  (os.header file).ePhoff.toNat .init with
              | error reason =>
                  refine .inl ⟨?_, _, rfl⟩
                  by_contra hnot
                  have hok : layoutLoop os file (os.header file).ePhnum.toNat 0
                      (os.header file).ePhoff.toNat .init = .ok (os.layout file) :=
                    layoutLoop_ok_iff.2 ⟨fun p hp h => hnot (.segment hp h), rfl⟩
                  cases hlayout.symm.trans hok
              | ok layout =>
                  obtain ⟨hgoes, rfl⟩ := layoutLoop_ok_iff.1 hlayout
                  -- every stage has succeeded, which excludes the reasons one by one
                  refine .inr ⟨fun hrefused => ?_, exec, rfl⟩
                  cases hrefused with
                  | «open» h => exact absurd hfd (Int.not_lt.2 h)
                  | readEhdr h => exact absurd hread (Int.not_lt.2 h)
                  | foreign h => exact hknown h
                  | seekSh h => exact hseekSh h
                  | readShdr hp h =>
                      exact absurd (sectionLoop_ok_iff.1 ⟨exec, hsections⟩ _ hp) (Int.not_lt.2 h)
                  | seekPh h => exact hseekPh h
                  | segment hp h => exact hgoes _ hp h

/-! ## The load pass -/

/-- The load pass is through unless it stops at one of the headers. -/
theorem loadLoop_ok_iff {s : LoadState} : (loadLoop os file n i pos s).1 = .ok () ↔
    ∀ p ∈ headersRead os.readPhdr2 file phdrSize n i pos, ¬ os.StopsLoad p := by
  induction n generalizing i pos s with
  | zero => exact ⟨fun _ _ hmem => absurd hmem List.not_mem_nil, fun _ => rfl⟩
  | succ n ih =>
      unfold loadLoop headersRead
      rw [List.forall_mem_cons]
      dsimp only
      split
      · rename_i hread
        exact ⟨fun h => (nomatch h), fun h => absurd (.inl hread) h.1⟩
      · rename_i hread
        split
        · rename_i hload
          split
          · rename_i hseek
            exact ⟨fun h => (nomatch h), fun h => absurd (.inr ⟨hload, hseek⟩) h.1⟩
          · rename_i hseek
            rw [ih]
            refine ⟨fun h => ⟨?_, h⟩, fun h => h.2⟩
            rintro (hstop | ⟨-, hstop⟩)
            · exact hread hstop
            · exact hseek hstop
        · rename_i hload
          rw [ih]
          refine ⟨fun h => ⟨?_, h⟩, fun h => h.2⟩
          rintro (hstop | ⟨hstop, -⟩)
          · exact hread hstop
          · exact hload hstop

/-- Where the pass stops before the first segment, nothing has been read. -/
theorem loadLoop_first {s : LoadState} {before rest : List HeaderRead} {p : HeaderRead}
    (hreads : headersRead os.readPhdr2 file phdrSize n i pos = before ++ p :: rest)
    (hbefore : ∀ q ∈ before, q.phdr.pType ≠ ptLoad) (hstop : os.StopsLoad p) :
    (loadLoop os file n i pos s).2 = s := by
  induction n generalizing i pos before with
  | zero => cases before with
    | nil => cases hreads
    | cons q before => cases hreads
  | succ n ih =>
      unfold loadLoop
      unfold headersRead at hreads
      dsimp only
      rw [result_headerRead, phdr_headerRead]
      cases before with
      | nil =>
          obtain ⟨rfl, -⟩ := List.cons.inj hreads
          split
          · rfl
          · rename_i hread
            obtain ⟨hload, hseek⟩ := hstop.resolve_left hread
            have hseek' : ¬ seek (os.seekSegment i)
                (headerRead os.readPhdr2 file phdrSize i pos).phdr.pOffset := hseek
            rw [if_pos hload, if_pos hseek']
      | cons q before =>
          obtain ⟨rfl, htail⟩ := List.cons.inj hreads
          split
          · rfl
          · rw [if_neg (hbefore _ List.mem_cons_self)]
            exact ih htail fun r hr => hbefore r (List.mem_cons_of_mem _ hr)

/-! ## The loader -/

/-- A file is refused before a segment is read, or the load pass stops at one of the program
headers, or it is through. -/
theorem mapIntoMemory_outcomes (flags : Flags) (os : Os) (host : Host) (file : File)
    (space : Space) :
    (RefusedBefore os host file space ∧
      (∃ reason, (mapIntoMemory flags os host file space).1 = .error reason) ∧
      (mapIntoMemory flags os host file space).2.written = []) ∨
    (¬ RefusedBefore os host file space ∧
      ((StopsLoading os file ∧
          ∃ reason, (mapIntoMemory flags os host file space).1 = .error reason) ∨
        (¬ StopsLoading os file ∧
          ∃ r, (mapIntoMemory flags os host file space).1 = .ok r))) := by
  unfold mapIntoMemory
  rcases layoutPass_cases flags os file with ⟨hrefused, reason, hpass⟩ | ⟨hlayout, exec, hpass⟩
  · rw [hpass]
    exact .inl ⟨.layout hrefused, ⟨_, rfl⟩, rfl⟩
  rw [hpass]
  dsimp only
  split
  · rename_i hmmap
    exact .inl ⟨.mmap hmmap, ⟨_, rfl⟩, rfl⟩
  rename_i hmmap
  split
  · rename_i hplaced
    exact .inl ⟨.misplaced hplaced, ⟨_, rfl⟩, rfl⟩
  rename_i hplaced
  unfold loadPass
  split
  · rename_i hseek
    exact .inl ⟨.seekPh2 hseek, ⟨_, rfl⟩, rfl⟩
  rename_i hseek
  split
  · rename_i hopen
    exact .inl ⟨.open2 hopen, ⟨_, rfl⟩, rfl⟩
  rename_i hopen
  dsimp only
  -- the loop over the program headers
  have hstops : ∀ {s}, StopsLoading os file → ∃ reason,
      ((loadLoop os file (os.header file).ePhnum.toNat 0 (os.header file).ePhoff.toNat s).1.map
        fun _ => Plan.result ⟨os.header file, exec, os.layout file⟩) = .error reason := by
    rintro s ⟨p, hp, hstop⟩
    cases hloop : (loadLoop os file (os.header file).ePhnum.toNat 0
        (os.header file).ePhoff.toNat s).1 with
    | error reason => exact ⟨reason, rfl⟩
    | ok _ => exact absurd hstop (loadLoop_ok_iff.1 hloop p hp)
  by_cases hfirst : ∃ before p rest, os.segments2 file = before ++ p :: rest ∧
      (∀ q ∈ before, q.phdr.pType ≠ ptLoad) ∧ os.StopsLoad p
  · obtain ⟨before, p, rest, hreads, hbefore, hstop⟩ := hfirst
    refine .inl ⟨.first hreads hbefore hstop, hstops ⟨p, ?_, hstop⟩, ?_⟩
    · rw [hreads]
      exact List.mem_append_right _ List.mem_cons_self
    · rw [loadLoop_first hreads hbefore hstop]
  · refine .inr ⟨fun hrefused => ?_, ?_⟩
    · cases hrefused with
      | layout h => exact hlayout h
      | mmap h => exact hmmap h
      | misplaced h => exact hplaced h
      | seekPh2 h => exact hseek h
      | open2 h => exact hopen h
      | first hreads hbefore hstop => exact hfirst ⟨_, _, _, hreads, hbefore, hstop⟩
    · by_cases hstop : StopsLoading os file
      · exact .inl ⟨hstop, hstops hstop⟩
      · rw [loadLoop_ok_iff.2 fun p hp h => hstop ⟨p, hp, h⟩]
        exact .inr ⟨hstop, _, rfl⟩

end

end RiaJit.Elf
