import Menios.Common.RadixTree
import Menios.Mem.FreeCount

/-!
# Page tables

Model of the functions of `src/kernel/mem/pmm.c` that change and read page tables:
`pmm_map_page_in_root`, `pmm_walk_address`, `pmm_unmap_page_internal`,
`pmm_get_mapping` and `pmm_clone_kernel_address_space`.

The four entry types of `include/kernel/pmm.h` have one layout, and one structure
stands for them here: `base` is `page_directory_base`, `page_table_base` or `frame`.
It is a bit-field of 40 bits. The kernel is built with gcc, which gives such a
bit-field a type of 40 bits, so `entry->base << 12` is a shift in 40 bits: bits 28 to
39 of the field are lost.

The kernel reaches physical memory through a fixed offset, so memory is a function
from page numbers to tables. `root_phys` is a multiple of the page size and stands
here as its page number.
-/

namespace Menios.Mem
open Common

/-- A page table entry of any level (include/kernel/pmm.h, lines 28-103): the fields
that the modelled functions read or write. -/
structure TableEntry where
  present : Bool
  writable : Bool
  user : Bool
  writeThrough : Bool
  cacheDisable : Bool
  largePage : Bool
  global : Bool
  available : ℕ
  base : BitVec 40
  noExecute : Bool

namespace TableEntry
/-- An entry of a page cleared by `memset`. -/
def zero : TableEntry where
  present := false
  writable := false
  user := false
  writeThrough := false
  cacheDisable := false
  largePage := false
  global := false
  available := 0
  base := 0
  noExecute := false

/-- `entry->base << 12`. -/
def address (e : TableEntry) : ℕ := (e.base <<< 12).toNat

/-- The page number of `entry->base << 12`. -/
def page (e : TableEntry) : ℕ := e.address / pageSize
end TableEntry

/-- The contents of a page used as a table. -/
abbrev Table := Fin 512 → TableEntry

instance neZero512 : NeZero 512 := ⟨by decide⟩

/-- The page allocator and the pages that page tables live in. -/
structure Paging where
  pmm : Pmm
  mem : ℕ → Table

variable (vaddr : UInt64)
/-- `(vaddr >> shift) & 0x1ff`. -/
def tableIndex (shift : ℕ) : Fin 512 := ⟨vaddr.toNat / 2 ^ shift % 512, Nat.mod_lt _ (by decide)⟩

/-- `pml4_index`. -/
def pml4Index : Fin 512 := tableIndex vaddr 39

/-- `pdpt_index`. -/
def pdptIndex : Fin 512 := tableIndex vaddr 30

/-- `pd_index`. -/
def pdIndex : Fin 512 := tableIndex vaddr 21

/-- `pt_index`. -/
def ptIndex : Fin 512 := tableIndex vaddr 12

namespace Paging
/-- Write an entry. -/
def setEntry (s : Paging) (table : ℕ) (index : Fin 512) (e : TableEntry) : Paging :=
  { s with mem := Radix.setEntry s.mem table index e }

/-! ## Mapping -/
variable (s : Paging)
/-- The table below an entry is allocated and cleared if there is none, and the entry
gets the user bit if the mapping has it (lines 309-323, 329-343 and 353-367).
`keepUser`: the first of them keeps the user bit of the old entry. The result is
false when no page is left. -/
def ensureTable (table : ℕ) (index : Fin 512) (user keepUser : Bool) : Option (Bool × Paging) :=
  if (s.mem table index).present then
    some (true, if user then s.setEntry table index { s.mem table index with user := true } else s)
  else
    match s.pmm.pmmAllocPages 1 with
    | none => none
    | some (phys, pmm) =>
      if phys = 0 then some (false, { s with pmm := pmm })
      else
        let s : Paging :=
          { pmm := pmm, mem := Function.update s.mem (phys / pageSize) fun _ => TableEntry.zero }
        let e := s.mem table index
        some (true, s.setEntry table index
          { e with
            present := true
            writable := true
            user := user || (keepUser && e.user)
            base := BitVec.ofNat 40 (phys / 2 ^ 12) })

/-- The entry written by lines 377-385. -/
def leafEntry (e : TableEntry) (paddr : UInt64) (writable user : Bool) : TableEntry :=
  { e with
    present := true
    writable := writable
    user := user
    writeThrough := false
    cacheDisable := false
    global := false
    available := 0
    base := BitVec.ofNat 40 (paddr.toNat / 2 ^ 12)
    noExecute := false }

/-- The part of `pmm_map_page_in_root` in the page directory (lines 349-388). -/
def mapInPd (pd : ℕ) (vaddr paddr : UInt64) (writable user : Bool) : Option (Bool × Paging) :=
  match s.ensureTable pd (pdIndex vaddr) user false with
  | none => none
  | some (false, s) => some (false, s)
  | some (true, s) =>
    if (s.mem pd (pdIndex vaddr)).largePage then some (false, s)
    else
      let pt := (s.mem pd (pdIndex vaddr)).page
      some (true, s.setEntry pt (ptIndex vaddr)
        (leafEntry (s.mem pt (ptIndex vaddr)) paddr writable user))

/-- The part of `pmm_map_page_in_root` in the page directory pointer table
(lines 325-347). -/
def mapInPdpt (pdpt : ℕ) (vaddr paddr : UInt64) (writable user : Bool) : Option (Bool × Paging) :=
  match s.ensureTable pdpt (pdptIndex vaddr) user false with
  | none => none
  | some (false, s) => some (false, s)
  | some (true, s) =>
    if (s.mem pdpt (pdptIndex vaddr)).largePage then some (false, s)
    else s.mapInPd (s.mem pdpt (pdptIndex vaddr)).page vaddr paddr writable user

/-- `pmm_map_page_in_root` (lines 299-389). -/
def mapPageInRoot (root : ℕ) (vaddr paddr : UInt64) (writable user : Bool) :
    Option (Bool × Paging) :=
  if paddr.toNat % pageSize ≠ 0 ∨ root = 0 then some (false, s)
  else
    match s.ensureTable root (pml4Index vaddr) user true with
    | none => none
    | some (false, s) => some (false, s)
    | some (true, s) => s.mapInPdpt (s.mem root (pml4Index vaddr)).page vaddr paddr writable user

/-! ## Reading -/

/-- `pml4_walk_result_t`: the entries as places in memory. -/
structure WalkResult where
  pml4Entry : Option (ℕ × Fin 512)
  pdptEntry : Option (ℕ × Fin 512)
  pdEntry : Option (ℕ × Fin 512)
  ptEntry : Option (ℕ × Fin 512)

/-- `pmm_walk_address` (lines 395-437). -/
def walkAddress (root : ℕ) (vaddr : UInt64) : WalkResult :=
  if root = 0 then ⟨none, none, none, none⟩
  else
    let pml4Entry := s.mem root (pml4Index vaddr)
    let result : WalkResult := ⟨some (root, pml4Index vaddr), none, none, none⟩
    if pml4Entry.present = false then result
    else
      let pdpt := pml4Entry.page
      let pdptEntry := s.mem pdpt (pdptIndex vaddr)
      let result := { result with pdptEntry := some (pdpt, pdptIndex vaddr) }
      if pdptEntry.present = false ∨ pdptEntry.largePage = true then result
      else
        let pd := pdptEntry.page
        let pdEntry := s.mem pd (pdIndex vaddr)
        let result := { result with pdEntry := some (pd, pdIndex vaddr) }
        if pdEntry.present = false ∨ pdEntry.largePage = true then result
        else { result with ptEntry := some (pdEntry.page, ptIndex vaddr) }

/-- `pmm_get_mapping` (lines 536-557): the address, `writable` and `user`. -/
def getMapping (root : ℕ) (vaddr : UInt64) : Option (ℕ × Bool × Bool) :=
  match (s.walkAddress root vaddr).ptEntry with
  | none => none
  | some (pt, index) =>
    let e := s.mem pt index
    if e.present then some (e.address, e.writable, e.user) else none

/-! ## Unmapping -/

/-- `pt_has_present_entries`, `pd_has_present_entries` and `pdpt_has_present_entries`
(lines 439-473). -/
def hasPresentEntries (t : Table) : Bool := decide (∃ i, (t i).present = true)

/-- The entry with its table taken away. -/
def clearedEntry (e : TableEntry) : TableEntry := { e with present := false, base := 0 }

/-- `pmm_free_pages(address, 1)`. -/
def freePage (address : ℕ) : Option Paging :=
  (s.pmm.pmmFreePages address 1).map fun pmm => { s with pmm := pmm }

/-- The table below an entry is freed if no entry of it is present (lines 492-500,
502-510 and 512-520). -/
def collapse : Option (ℕ × Fin 512) → Option Paging
  | none => some s
  | some (table, index) =>
    let e := s.mem table index
    if hasPresentEntries (s.mem e.page) then some s
    else (s.setEntry table index (clearedEntry e)).freePage e.address

/-- `pmm_unmap_page_internal` (lines 475-526). -/
def unmapPageInternal (root : ℕ) (vaddr : UInt64) (freeFrame : Bool) : Option (Bool × Paging) :=
  if root = 0 then some (false, s)
  else
    let walk := s.walkAddress root vaddr
    match walk.ptEntry with
    | none => some (false, s)
    | some (pt, index) =>
      let e := s.mem pt index
      if e.present = false then some (false, s)
      else do
        let s := s.setEntry pt index (clearedEntry e)
        let s ← s.collapse walk.pdEntry
        let s ← s.collapse walk.pdptEntry
        let s ← s.collapse walk.pml4Entry
        let s ← if freeFrame then s.freePage e.address else some s
        pure (true, s)

/-- `pmm_unmap_page_in_root` (lines 528-530). -/
def unmapPageInRoot (root : ℕ) (vaddr : UInt64) : Option (Bool × Paging) :=
  s.unmapPageInternal root vaddr true

/-- `pmm_remove_mapping_in_root` (lines 532-534). -/
def removeMappingInRoot (root : ℕ) (vaddr : UInt64) : Option (Bool × Paging) :=
  s.unmapPageInternal root vaddr false

/-! ## Cloning -/
variable (mem : ℕ → Table)
/-- Clear the user bit of the present entries of a table. -/
def clearUserTable (table : ℕ) : ℕ → Table :=
  Function.update mem table fun i =>
    if (mem table i).present then { mem table i with user := false } else mem table i

/-- The loop of lines 241-260 over a page directory: its entries and the page tables
below them. -/
def clearUserPd (pd : ℕ) : ℕ → Table :=
  (List.finRange 512).foldl (fun mem i =>
    let e := mem pd i
    if e.present = false then mem
    else
      let mem := Radix.setEntry mem pd i { e with user := false }
      if e.largePage then mem else clearUserTable mem e.page) mem

/-- The loop of lines 229-261 over a page directory pointer table. -/
def clearUserPdpt (pdpt : ℕ) : ℕ → Table :=
  (List.finRange 512).foldl (fun mem i =>
    let e := mem pdpt i
    if e.present = false then mem
    else
      let mem := Radix.setEntry mem pdpt i { e with user := false }
      if e.largePage then mem else clearUserPd mem e.page) mem

/-- `clear_kernel_user_permissions` (lines 213-263). -/
def clearKernelUserPermissions (root : ℕ) : ℕ → Table :=
  if root = 0 then mem
  else
    ((List.finRange 512).filter fun i => 256 ≤ i.val).foldl (fun mem i =>
      let e := mem root i
      if e.present = false then mem
      else
        let mem := Radix.setEntry mem root i { e with user := false }
        clearUserPdpt mem e.page) mem

/-- `pmm_clone_kernel_address_space` (lines 559-575) from the root `kernelRoot`; the
result is the page number of the new root, and 0 when no page is left. -/
def cloneKernelAddressSpace (kernelRoot : ℕ) : Option (ℕ × Paging) :=
  match s.pmm.pmmAllocPages 1 with
  | none => none
  | some (phys, pmm) =>
    if phys = 0 then some (0, { s with pmm := pmm })
    else
      let newRoot := phys / pageSize
      let mem := Function.update s.mem newRoot fun i =>
        if i.val < 256 then TableEntry.zero else s.mem kernelRoot i
      some (newRoot, { pmm := pmm, mem := clearKernelUserPermissions mem newRoot })
end Paging
end Menios.Mem
