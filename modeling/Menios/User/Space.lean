import Menios.Common.Bytes
import Menios.Mem.Mapping

/-!
# The user memory of a process

Model of the regions and segments that the kernel keeps for a process, of growing a region
on demand (`src/kernel/user/vm_region.c`) and of copying between the kernel and user memory
(`src/kernel/proc/proc.c`, lines 822-931 and 1843-1980).

Physical memory is the page tables of `Menios.Mem.Paging` and beside them `bytes`, the
contents of the pages that are used for data. A copy is a sequence of accesses at virtual
addresses: an access faults when the address is not canonical, not mapped, or when it writes
to a page that is not writable while `CR0.WP` is set. The kernel does not handle such faults
(`src/kernel/arch/x86_64/idt.c`, lines 151–), so a copy that faults has no result.
-/

namespace Menios.User
open Common Mem

/-- `VM_REGION_FLAG_READ` and the other flags. -/
structure RegionFlags where
  read : Bool
  write : Bool
  exec : Bool
  user : Bool
  growDown : Bool
  growUp : Bool
  deriving DecidableEq

/-- `vm_region_type_t`. -/
inductive RegionType
  | text | rodata | data | heap | stack | mmap | shared
  deriving DecidableEq

/-- `vm_region_t`. -/
structure Region where
  base : UInt64
  length : UInt64
  type : RegionType
  flags : RegionFlags
  committedBase : UInt64
  committedTop : UInt64
  deriving DecidableEq

/-- `proc_user_segment_t`. -/
structure Segment where
  phys : UInt64
  pages : ℕ
  deriving DecidableEq

/-- `PROC_MAX_VM_REGIONS`. -/
def procMaxVmRegions : ℕ := 32

/-- `PROC_MAX_USER_SEGMENTS`. -/
def procMaxUserSegments : ℕ := 4096

/-- The memory of a process. `root` is the page number of `address_space_root`,
`kernelRoot` that of `pmm_get_kernel_cr3()`. -/
structure Space where
  paging : Paging
  bytes : ℕ → UInt8
  writeProtect : Bool
  kernelRoot : ℕ
  root : ℕ
  regions : List Region
  segments : List Segment

/-! ## Regions -/

/-- `page_align_down` (vm_region.c, lines 12-14) and `align_down` (vm.c, lines 19-21). -/
def pageAlignDown (addr : UInt64) : UInt64 := addr / 4096 * 4096

namespace Region
/-- `region_limit` (lines 16-18). -/
def limit (r : Region) : UInt64 := r.base + r.length

/-- The test in `vm_region_find` (line 54). -/
def holds (r : Region) (address : UInt64) : Bool := decide (r.base ≤ address ∧ address < r.limit)

/-- `vm_region_note_mapping` (lines 62-86); both branches do the same. -/
def noteMapping (r : Region) (base length : UInt64) : Region :=
  if length = 0 then r
  else
    { r with
      committedBase := if base < r.committedBase then base else r.committedBase
      committedTop := if r.committedTop < base + length then base + length else r.committedTop }
end Region

/-- `vm_region_add` (lines 20-44). -/
def vmRegionAdd (regions : List Region) (base length : UInt64) (type : RegionType)
    (flags : RegionFlags) : Option (List Region) :=
  if length = 0 ∨ procMaxVmRegions ≤ regions.length then none
  else
    let committed := if flags.growDown then base + length else base
    some (regions ++ [{ base := base, length := length, type := type, flags := flags,
                        committedBase := committed, committedTop := committed }])

/-- `vm_region_find` (lines 46-60): the index of the region. -/
def vmRegionFind (regions : List Region) (address : UInt64) : Option ℕ :=
  regions.findIdx? (·.holds address)

/-! ## Segments -/

/-- `proc_register_user_segment` (proc.c, lines 822-860). -/
def registerUserSegment (segments : List Segment) (phys : UInt64) (pages : ℕ) :
    Option (List Segment) :=
  if pages = 0 ∨ phys = 0 then none
  else
    let append := if procMaxUserSegments ≤ segments.length then none
      else some (segments ++ [⟨phys, pages⟩])
    match segments.getLast? with
    | none => append
    | some last =>
      if last.phys + last.pages.toUInt64 * 4096 = phys then
        if 2 ^ 64 - 1 - pages < last.pages then none
        else some (segments.dropLast ++ [{ last with pages := last.pages + pages }])
      else append

/-- The part of a segment before `phys` and the part after it are kept (proc.c, lines
889-928). -/
def Segment.split (s : Segment) (phys : UInt64) (pages count : ℕ) : List Segment :=
  let removeEnd := phys + pages.toUInt64 * 4096
  let segEnd := s.phys + s.pages.toUInt64 * 4096
  if phys = s.phys ∧ removeEnd = segEnd then []
  else if phys = s.phys then [⟨removeEnd, s.pages - pages⟩]
  else if removeEnd = segEnd then [⟨s.phys, s.pages - pages⟩]
  else
    let before := ((phys - s.phys) / 4096).toNat
    let after := s.pages - before - pages
    if after = 0 ∨ procMaxUserSegments ≤ count then [⟨s.phys, before⟩]
    else [⟨s.phys, before⟩, ⟨removeEnd, after⟩]

/-- `proc_unregister_user_segment` (proc.c, lines 873-931): the first segment that holds the
pages is split. -/
def unregisterUserSegment (segments : List Segment) (phys : UInt64) (pages : ℕ) : List Segment :=
  if pages = 0 then segments
  else
    match segments.findIdx? fun s =>
        decide (¬ (phys < s.phys ∨
          s.phys + s.pages.toUInt64 * 4096 < phys + pages.toUInt64 * 4096)) with
    | none => segments
    | some i =>
      match segments[i]? with
      | none => segments
      | some s => segments.take i ++ s.split phys pages segments.length ++ segments.drop (i + 1)

namespace Space
variable (s : Space)
/-- The root that user accesses go through (proc.c, lines 1848-1851). -/
def activeRoot : ℕ := if s.root = 0 then s.kernelRoot else s.root

/-- What `pmm_get_mapping` finds for an address: the page, `writable` and `user`. -/
def mapping (vaddr : UInt64) : Option (ℕ × Bool × Bool) := s.paging.getMapping s.activeRoot vaddr

/-! ## Growing a region -/

/-- `memset(physical_to_virtual(phys), 0, pages * PAGE_SIZE)`. -/
def zeroPages (bytes : ℕ → UInt8) (phys pages : ℕ) : ℕ → UInt8 :=
  fun x => if phys ≤ x ∧ x < phys + pages * pageSize then 0 else bytes x

/-- `pmm_free_pages(phys, 1)`. -/
def freePage (s : Space) (phys : ℕ) : Option Space :=
  (s.paging.freePage phys).map fun paging => { s with paging := paging }

/-- A page is allocated, cleared, mapped at `aligned` and noted (vm_region.c, lines 101-129
and 145-167). -/
def commitPage (index : ℕ) (region : Region) (aligned : UInt64) : Option (Bool × Space) :=
  match s.paging.pmm.pmmAllocPages 1 with
  | none => none
  | some (phys, pmm) =>
    let s := { s with paging := { s.paging with pmm := pmm } }
    if phys = 0 then some (false, s)
    else
      let s := { s with bytes := zeroPages s.bytes phys 1 }
      match s.paging.mapPageInRoot s.root aligned phys.toUInt64 region.flags.write true with
      | none => none
      | some (false, paging) => ({ s with paging := paging }.freePage phys).map (false, ·)
      | some (true, paging) =>
        let s := { s with paging := paging }
        match registerUserSegment s.segments phys.toUInt64 1 with
        | none =>
          match s.paging.unmapPageInRoot s.root aligned with
          | none => none
          | some (_, paging) => ({ s with paging := paging }.freePage phys).map (false, ·)
        | some segments =>
          some (true, { s with
            segments := segments
            regions := s.regions.set index (region.noteMapping aligned 4096) })

/-- `vm_region_grow_down` (vm_region.c, lines 88-130). -/
def growDown (index : ℕ) (region : Region) (faultAddr : UInt64) : Option (Bool × Space) :=
  let aligned := pageAlignDown faultAddr
  if aligned < region.base then some (false, s)
  else if region.committedBase ≤ aligned then some (true, s)
  else s.commitPage index region aligned

/-- `vm_region_grow_up` (vm_region.c, lines 132-168). -/
def growUp (index : ℕ) (region : Region) (faultAddr : UInt64) : Option (Bool × Space) :=
  let aligned := pageAlignDown faultAddr
  if region.limit ≤ aligned then some (false, s)
  else if aligned < region.committedTop then some (true, s)
  else s.commitPage index region aligned

/-- `vm_region_handle_page_fault` (vm_region.c, lines 170-197) for a page that is not present
and a fault in user mode. -/
def handlePageFault (faultAddr : UInt64) (isWrite : Bool) : Option (Bool × Space) :=
  match vmRegionFind s.regions faultAddr with
  | none => some (false, s)
  | some index =>
    match s.regions[index]? with
    | none => some (false, s)
    | some region =>
      if isWrite = true ∧ region.flags.write = false then some (false, s)
      else if region.flags.growDown then s.growDown index region faultAddr
      else if region.flags.growUp then s.growUp index region faultAddr
      else some (false, s)

/-! ## Touching a range -/

/-- The loop body of `proc_user_touch_range` (proc.c, lines 1857-1877). -/
def touchPage (current : UInt64) (write : Bool) : Option (Bool × Space) :=
  if (s.mapping current).isSome then some (true, s)
  else
    match s.handlePageFault current write with
    | none => none
    | some (false, s) => some (false, s)
    | some (true, s) => some ((s.mapping current).isSome, s)

/-- `page_remaining` (proc.c, lines 1879-1882). -/
def pageRemaining (current : UInt64) (left : ℕ) : ℕ := min (4096 - (current % 4096).toNat) left

/-- The loop of `proc_user_touch_range` (proc.c, lines 1853-1885) with `left` bytes to go. -/
def touchFrom (write : Bool) : ℕ → Space → UInt64 → ℕ → Option (Bool × Space)
  | _, s, _, 0 => some (true, s)
  | 0, _, _, _ + 1 => none
  | fuel + 1, s, current, left + 1 =>
    match s.touchPage current write with
    | none => none
    | some (false, s) => some (false, s)
    | some (true, s) =>
      let step := pageRemaining current (left + 1)
      touchFrom write fuel s (current + step.toUInt64) (left + 1 - step)

/-- `proc_user_touch_range` (proc.c, lines 1843-1886). -/
def touchRange (addr : UInt64) (length : ℕ) (write : Bool) : Option (Bool × Space) :=
  touchFrom write length s addr length

/-! ## Copying -/

/-- The lower half of the address space ends here. -/
def userLimit : ℕ := 0x800000000000

lemma two_pow_47 : (2 : ℕ) ^ 47 = userLimit := by decide

/-- Bits 47 to 63 of the address agree. -/
def canonical (vaddr : UInt64) : Bool :=
  decide (vaddr.toNat < userLimit ∨ 2 ^ 64 - userLimit ≤ vaddr.toNat)

/-- The physical address of an access of the kernel. -/
def access (vaddr : UInt64) (write : Bool) : Option ℕ :=
  if canonical vaddr then
    match s.mapping vaddr with
    | none => none
    | some (page, writable, _) =>
      if write = true ∧ s.writeProtect = true ∧ writable = false then none
      else some (page + (vaddr % 4096).toNat)
  else none

/-- Write one byte of physical memory. -/
def setByte (x : ℕ) (b : UInt8) : Space := { s with bytes := Function.update s.bytes x b }

/-- `memcpy` to a user address. -/
def store (s : Space) (dest : UInt64) : List UInt8 → Option Space
  | [] => some s
  | b :: src =>
    match s.access dest true with
    | none => none
    | some x => (s.setByte x b).store (dest + 1) src

/-- `memcpy` from a user address. -/
def load (s : Space) (src : UInt64) : ℕ → Option (List UInt8)
  | 0 => some []
  | length + 1 =>
    match s.access src false with
    | none => none
    | some x => (s.load (src + 1) length).map (s.bytes x :: ·)

/-- `proc_user_copy_out` (proc.c, lines 1952-1980). -/
def copyOut (dest : UInt64) (src : List UInt8) : Option (Bool × Space) :=
  if src.length = 0 then some (true, s)
  else
    match s.touchRange dest src.length true with
    | none => none
    | some (false, s) => some (false, s)
    | some (true, s) => (s.store dest src).map (true, ·)

/-- `proc_user_copy_in` (proc.c, lines 1922-1950): the bytes that arrive in `dest`. -/
def copyIn (src : UInt64) (length : ℕ) : Option (Bool × List UInt8 × Space) :=
  if length = 0 then some (true, [], s)
  else
    match s.touchRange src length false with
    | none => none
    | some (false, s) => some (false, [], s)
    | some (true, s) => (s.load src length).map (true, ·, s)

/-- `proc_user_write64` (proc.c, lines 1888-1920). -/
def write64 (addr value : UInt64) : Option (Bool × Space) :=
  match s.touchRange addr 8 true with
  | none => none
  | some (false, s) => some (false, s)
  | some (true, s) =>
    if (s.mapping addr).isSome then (s.store addr (wordBytes value)).map (true, ·)
    else some (false, s)
end Space
end Menios.User
