import Menios.User.Growth

/-!
# Mapping and unmapping user memory

Model of `src/kernel/user/vm.c` (lines 9-230), of `map_segment` in
`src/kernel/user/elf_loader.c` (lines 96-162), of the stack of a new process
(`src/kernel/proc/proc.c`, lines 2004-2046) and of `proc_release_user_memory` (proc.c, lines
259-279). Functions that unmap pages also return the frames that they give back to the page
allocator; that list is no part of the program.
-/

namespace Menios.User
open Common Mem

/-- `page_align_up` (vm.c, lines 9-17). -/
def pageAlignUp (length : UInt64) : UInt64 :=
  if length = 0 then 4096
  else if length % 4096 = 0 then length
  else (length / 4096 + 1) * 4096

/-- The address of page `page` of a range. -/
def pageAt (base : UInt64) (page : ℕ) : UInt64 := base + page.toUInt64 * 4096

namespace Space
/-! ## Unmapping -/
variable (s : Space)
/-- `unmap_page` (vm.c, lines 185-197). -/
def unmapPage (vaddr : UInt64) : Option (Bool × List ℕ × Space) :=
  match s.paging.getMapping s.root vaddr with
  | none => some (false, [], s)
  | some (frame, _, _) =>
    match s.paging.unmapPageInRoot s.root vaddr with
    | none => none
    | some (false, paging) => some (false, [], { s with paging := paging })
    | some (true, paging) =>
      some (true, [frame], { s with
        paging := paging
        segments := unregisterUserSegment s.segments frame.toUInt64 1 })

/-- The loop of `vm_unmap` (vm.c, lines 212-216) over the first pages of a range. -/
def unmapPages (s : Space) (base : UInt64) : ℕ → Option (List ℕ × Space)
  | 0 => some ([], s)
  | page + 1 =>
    match s.unmapPages base page with
    | none => none
    | some (freed, s) =>
      match s.unmapPage (pageAt base page) with
      | none => none
      | some (_, freed', s) => some (freed ++ freed', s)

/-- `vm_unmap` (vm.c, lines 199-230). -/
def vmUnmap (base length : UInt64) : Option (Bool × List ℕ × Space) :=
  if length = 0 then some (false, [], s)
  else
    let alignedLen := pageAlignUp length
    let alignedBase := pageAlignDown base
    match vmRegionFind s.regions alignedBase with
    | none => some (false, [], s)
    | some index =>
      match s.unmapPages alignedBase (alignedLen / 4096).toNat with
      | none => none
      | some (freed, s) => some (true, freed, { s with regions := s.regions.eraseIdx index })

/-- The loop of `proc_release_user_memory` (proc.c, lines 264-272). Every round that does not
leave the loop removes a region. -/
def releaseLoop : ℕ → Space → Option (List ℕ × Space)
  | 0, s => some ([], s)
  | fuel + 1, s =>
    match s.regions.getLast? with
    | none => some ([], s)
    | some region =>
      match s.vmUnmap region.base region.length with
      | none => none
      | some (false, freed, s) => some (freed, s)
      | some (true, freed, s) => (releaseLoop fuel s).map fun (freed', s) => (freed ++ freed', s)

/-- `proc_release_user_memory` (proc.c, lines 259-279). -/
def releaseUserMemory : Option (List ℕ × Space) :=
  (releaseLoop s.regions.length s).map fun (freed, s) => (freed, { s with segments := [] })

/-! ## Mapping -/

/-- `vm_region_note_mapping` for the region at `index`. -/
def noteMapping (s : Space) (index : ℕ) (base length : UInt64) : Space :=
  { s with regions := s.regions.modify index (·.noteMapping base length) }

/-- `pmm_unmap_page_in_root` for the first pages of a range (vm.c, lines 34-37). -/
def rollback (s : Space) (base : UInt64) : ℕ → Option Space
  | 0 => some s
  | page + 1 =>
    match s.rollback base page with
    | none => none
    | some s =>
      (s.paging.unmapPageInRoot s.root (pageAt base page)).map fun r => { s with paging := r.2 }

/-- The same from the last page down, with the segments (vm.c, lines 45-51). -/
def rollbackSegments (s : Space) (base : UInt64) (phys : ℕ) : ℕ → Option Space
  | 0 => some s
  | page + 1 =>
    match s.paging.unmapPageInRoot s.root (pageAt base page) with
    | none => none
    | some (_, paging) =>
      rollbackSegments { s with
        paging := paging
        segments := unregisterUserSegment s.segments (phys + page * pageSize).toUInt64 1 }
        base phys page

/-- The loop of `map_pages` (vm.c, lines 30-54) with `left` pages to go. `index`: the place of
the region. -/
def mapPagesFrom (base : UInt64) (phys : ℕ) (writable user : Bool) (index : ℕ) :
    ℕ → ℕ → Space → Option (Bool × Space)
  | _, 0, s => some (true, s)
  | page, left + 1, s =>
    let vaddr := pageAt base page
    let paddr := (phys + page * pageSize).toUInt64
    match s.paging.mapPageInRoot s.root vaddr paddr writable user with
    | none => none
    | some (false, paging) => ({ s with paging := paging }.rollback base page).map (false, ·)
    | some (true, paging) =>
      let s := { s with paging := paging }.noteMapping index vaddr 4096
      match registerUserSegment s.segments paddr 1 with
      | none =>
        match s.paging.unmapPageInRoot s.root vaddr with
        | none => none
        | some (_, paging) =>
          ({ s with paging := paging }.rollbackSegments base phys page).map (false, ·)
      | some segments =>
        mapPagesFrom base phys writable user index (page + 1) left { s with segments := segments }

/-- `vm_map` (vm.c, lines 77-112). -/
def vmMap (base length : UInt64) (type : RegionType) (flags : RegionFlags) :
    Option (Bool × Space) :=
  if length = 0 then some (false, s)
  else
    let length := pageAlignUp length
    let base := pageAlignDown base
    match vmRegionAdd s.regions base length type flags with
    | none => some (false, s)
    | some regions =>
      let s := { s with regions := regions }
      match vmRegionFind s.regions base with
      | none => some (false, s)
      | some index =>
        let pages := length / 4096
        match s.paging.pmm.pmmAllocPages pages with
        | none => none
        | some (phys, pmm) =>
          let s := { s with paging := { s.paging with pmm := pmm } }
          if phys = 0 then some (false, s)
          else
            let s := { s with bytes := zeroPages s.bytes phys pages.toNat }
            match mapPagesFrom base phys flags.write flags.user index 0 pages.toNat s with
            | none => none
            | some (true, s) => some (true, s)
            | some (false, s) =>
              (s.paging.pmm.pmmFreePages phys pages.toNat).map fun pmm =>
                (false, { s with paging := { s.paging with pmm := pmm } })

/-! ## Program segments -/

/-- `Elf64_Phdr` (elf_loader.c, lines 43-52), as far as the loader reads it. -/
structure Phdr where
  flags : BitVec 32
  offset : UInt64
  vaddr : UInt64
  filesz : UInt64
  memsz : UInt64

/-- `PF_X`. -/
def pfX : BitVec 32 := 1#32

/-- `PF_W`. -/
def pfW : BitVec 32 := 2#32

/-- The type of the region (elf_loader.c, lines 141-149). -/
def Phdr.regionType (p : Phdr) : RegionType :=
  if p.flags &&& pfX ≠ 0#32 then .text
  else if p.flags &&& pfW = 0#32 then .rodata
  else .data

/-- The flags of the region (elf_loader.c, lines 142-153). -/
def Phdr.regionFlags (p : Phdr) : RegionFlags where
  read := true
  write := p.flags &&& pfW ≠ 0#32
  exec := p.flags &&& pfX ≠ 0#32
  user := true
  growDown := false
  growUp := false

/-- Where the segment starts in its first page (elf_loader.c, lines 110-111). -/
def Phdr.pageOffset (p : Phdr) : UInt64 := p.vaddr - pageAlignDown p.vaddr

/-- `total_pages` (elf_loader.c, lines 112-113). -/
def Phdr.totalPages (p : Phdr) : UInt64 := (p.pageOffset + p.memsz + 4095) / 4096

/-- `memcpy` to physical memory. -/
def writeBytes (bytes : ℕ → UInt8) (dest : ℕ) (src : List UInt8) : ℕ → UInt8 :=
  fun x => if dest ≤ x then src.getD (x - dest) (bytes x) else bytes x

/-- The loop of `map_segment` (elf_loader.c, lines 132-139) with `left` pages to go. -/
def mapSegmentPages (base : UInt64) (phys : ℕ) (writable : Bool) :
    ℕ → ℕ → Space → Option (Bool × Space)
  | _, 0, s => some (true, s)
  | page, left + 1, s =>
    match s.paging.mapPageInRoot s.root (pageAt base page) (phys + page * pageSize).toUInt64
        writable true with
    | none => none
    | some (false, paging) => some (false, { s with paging := paging })
    | some (true, paging) =>
      mapSegmentPages base phys writable (page + 1) left { s with paging := paging }

/-- `map_segment` (elf_loader.c, lines 96-162). A read beyond the image, or a copy beyond the
pages, has no result. -/
def mapSegment (image : List UInt8) (p : Phdr) : Option (Bool × Space) :=
  if p.memsz = 0 then some (true, s)
  else if image.length < (p.offset + p.filesz).toNat then some (false, s)
  else
    match s.paging.pmm.pmmAllocPages p.totalPages with
    | none => none
    | some (phys, pmm) =>
      let s := { s with paging := { s.paging with pmm := pmm } }
      if phys = 0 then some (false, s)
      else
        match registerUserSegment s.segments phys.toUInt64 p.totalPages.toNat with
        | none =>
          (s.paging.pmm.pmmFreePages phys p.totalPages.toNat).map fun pmm =>
            (false, { s with paging := { s.paging with pmm := pmm } })
        | some segments =>
          if image.length < p.offset.toNat + p.filesz.toNat ∨
              p.totalPages.toNat * pageSize < p.pageOffset.toNat + p.filesz.toNat then none
          else
            let content := (image.drop p.offset.toNat).take p.filesz.toNat
            let s := { s with
              segments := segments
              bytes := writeBytes (zeroPages s.bytes phys p.totalPages.toNat)
                (phys + p.pageOffset.toNat) content }
            match mapSegmentPages (pageAlignDown p.vaddr) phys p.regionFlags.write 0
                p.totalPages.toNat s with
            | none => none
            | some (false, s) => some (false, s)
            | some (true, s) =>
              -- the result of `vm_region_add` is not looked at
              let s := { s with regions :=
                (vmRegionAdd s.regions p.vaddr p.memsz p.regionType p.regionFlags).getD s.regions }
              match vmRegionFind s.regions p.vaddr with
              | none => some (true, s)
              | some index => some (true, s.noteMapping index p.vaddr p.memsz)

/-! ## The stack -/

/-- `PROC_USER_STACK_SIZE`. -/
def procUserStackSize : UInt64 := 0x100000

/-- `PROC_INITIAL_STACK_PAGES`. -/
def procInitialStackPages : ℕ := 4

/-- The flags of the stack region. -/
def stackFlags : RegionFlags where
  read := true
  write := true
  exec := false
  user := true
  growDown := true
  growUp := false

/-- One of the first pages of the stack (proc.c, lines 2018-2045). The kernel halts when the
page cannot be had. -/
def mapStackPage (pageAddr : UInt64) : Option Space :=
  match s.paging.pmm.pmmAllocPages 1 with
  | none => none
  | some (phys, pmm) =>
    if phys = 0 then none
    else
      let s := { s with
        paging := { s.paging with pmm := pmm }
        bytes := zeroPages s.bytes phys 1 }
      match s.paging.mapPageInRoot s.root pageAddr phys.toUInt64 true true with
      | some (true, paging) =>
        match registerUserSegment s.segments phys.toUInt64 1 with
        | none => none
        | some segments =>
          let s := { s with paging := paging, segments := segments }
          match vmRegionFind s.regions pageAddr with
          | none => some s
          | some index => some (s.noteMapping index pageAddr 4096)
      | _ => none

/-- The address of a page of the stack, counted from the top. -/
def stackPageAt (top : UInt64) (page : ℕ) : UInt64 := top - (page + 1).toUInt64 * 4096

/-- The first pages of the stack (proc.c, lines 2017-2046) with `left` pages to go. -/
def mapStackPages (top : UInt64) : ℕ → ℕ → Space → Option Space
  | _, 0, s => some s
  | page, left + 1, s =>
    (s.mapStackPage (stackPageAt top page)).bind (mapStackPages top (page + 1) left)

/-- The stack of a new process (proc.c, lines 2004-2046). -/
def mapStack (top : UInt64) : Option Space :=
  let base := top - procUserStackSize
  match vmRegionAdd s.regions base procUserStackSize .stack stackFlags with
  | none => none
  | some regions => mapStackPages top 0 procInitialStackPages { s with regions := regions }
end Space
end Menios.User
