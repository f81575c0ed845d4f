import Menios.Common.BuddyTiling
import Menios.Common.DoublyLinked

/-!
# The heap of a process

Model of the allocator of `src/user/libc/stdlib.c`: `malloc`, `calloc`, `realloc`, `reallocarray`
and `free` (lines 986-1136) over buddy blocks (lines 275-494 and 672-873) and direct mappings
(lines 875-982).

Memory is what the headers hold, by address: a block header lies in front of every payload, an
arena header at the start of every mapping with buddy blocks. What the program or the library
writes to a payload may change every header whose bytes it touches (`Heap.overwrite`); old headers
stay in memory when their blocks are split or merged, and the model reads them as the code does.
`mmap` gives any range that is not mapped, or fails.

Left out: `errno`, the log lines, the fields that nothing here reads.
-/

namespace Menios.Libc.Buddy
open Common Function

/-! ## Sizes -/

/-- `BUDDY_MIN_ORDER`. -/
def buddyMinOrder : ℕ := 7

/-- `BUDDY_MAX_ORDER`. -/
def buddyMaxOrder : ℕ := 27

/-- `DEFAULT_ALIGNMENT`. -/
def defaultAlignment : ℕ := 16

/-- `sizeof(block_header_t)`. -/
def headerBytes : ℕ := 80

/-- `sizeof(arena_header_t)`. -/
def arenaHeaderBytes : ℕ := 552

/-- `ARENA_INITIAL_SIZE`. -/
def arenaSize : ℕ := 2 ^ 27

/-- `default_page_size()`. -/
def pageBytes : ℕ := 4096

/-- `align_up` (lines 600-602); the sum is a `size_t`. -/
def alignUp (value alignment : ℕ) : ℕ := (value + (alignment - 1)) % 2 ^ 64 / alignment * alignment

/-- Where the blocks of an arena start: `buddy_offset` of `grow_heap`. -/
def buddyOffset : ℕ := alignUp (alignUp arenaHeaderBytes defaultAlignment) pageBytes

/-- `mapping_size` of `grow_heap`. -/
def mappingSize : ℕ := alignUp (buddyOffset + arenaSize) pageBytes

/-- `buddy_order_valid` (lines 275-277). -/
def BuddyOrderValid (order : ℕ) : Prop := buddyMinOrder ≤ order ∧ order ≤ buddyMaxOrder

instance (order : ℕ) : Decidable (BuddyOrderValid order) := inferInstanceAs (Decidable (_ ∧ _))

/-- `buddy_order_index` (lines 279-281). -/
def buddyOrderIndex (order : ℕ) : ℕ := order - buddyMinOrder

/-- `buddy_payload_capacity` (lines 676-681). -/
def buddyPayloadCapacity (order : ℕ) : ℕ := 2 ^ order - headerBytes

/-- The loop of `buddy_order_for_size`. -/
def orderForSizeLoop (total : ℕ) : ℕ → ℕ → ℕ
  | 0, order => order
  | n + 1, order => if 2 ^ order < total then orderForSizeLoop total n (order + 1) else order

/-- `buddy_order_for_size` (lines 683-694). -/
def buddyOrderForSize (total : ℕ) : ℕ :=
  let order := orderForSizeLoop total (buddyMaxOrder - buddyMinOrder) buddyMinOrder
  if 2 ^ order < total then buddyMaxOrder + 1 else order

/-! ## State -/

/-- `struct block_header`, without the links. -/
structure BlockHeader where
  arena : Option ℕ
  buddyOrder : ℕ
  /-- `BUDDY_FLAG_FREE` of `buddy_flags`. -/
  buddyFree : Bool
  /-- `BUDDY_FLAG_USED` of `buddy_flags`. -/
  buddyUsed : Bool
  buddyOffset : ℕ
  mappingBase : ℕ
  mappingSize : ℕ
  size : ℕ
  /-- `BLOCK_FLAG_FREE`, `BLOCK_FLAG_DIRECT` and `BLOCK_FLAG_BUDDY` of `flags`. -/
  flagFree : Bool
  flagDirect : Bool
  flagBuddy : Bool

/-- `struct arena_header`, without the links. -/
structure ArenaHeader where
  buddyBase : ℕ
  buddySize : ℕ
  freelists : ℕ → Option ℕ

/-- What the headers hold, by address. `links`: `buddy_next` and `buddy_prev` of the blocks;
`orderLinks`: `buddy_order_next` and `buddy_order_prev` of the arenas, by index. -/
structure Memory where
  blocks : ℕ → BlockHeader
  links : Links ℕ
  arenas : ℕ → ArenaHeader
  orderLinks : ℕ → Links ℕ

/-- The allocator. `maps`: the mappings it has, with their lengths; `answers`: what the system
proposes for the calls of `mmap`. -/
structure Heap extends Memory where
  arenaList : List ℕ
  orderHeads : ℕ → Option ℕ
  directAllocationCount : ℕ
  directTotalBytes : ℕ
  doubleFreeAttempts : ℕ
  maps : List (ℕ × ℕ)
  answers : ℕ → Option ℕ
  calls : ℕ

namespace Heap
variable (h : Heap)
/-- The header at `p` is changed. -/
def setBlock (p : ℕ) (f : BlockHeader → BlockHeader) : Heap :=
  { h with blocks := update h.blocks p (f (h.blocks p)) }

/-- The header at `p` is changed and its links are set to NULL. -/
def resetBlock (p : ℕ) (f : BlockHeader → BlockHeader) : Heap :=
  { h.setBlock p f with links := h.links.clear p }

/-- The head of a free list is written. -/
def setFreelist (arena index : ℕ) (v : Option ℕ) : Heap :=
  { h with
    arenas := update h.arenas arena
      { h.arenas arena with freelists := update (h.arenas arena).freelists index v } }

/-- The range is not mapped. -/
def Fresh (base length : ℕ) : Prop :=
  base ≠ 0 ∧ base + length ≤ 2 ^ 64 ∧
    ∀ m ∈ h.maps, base + length ≤ m.1 ∨ m.1 + m.2 ≤ base

instance (h : Heap) (base length : ℕ) : Decidable (h.Fresh base length) :=
  inferInstanceAs (Decidable (_ ∧ _ ∧ _))

/-- `mmap`: a fresh range, or nothing. -/
def mmap (length : ℕ) : Option ℕ × Heap :=
  match h.answers h.calls with
  | none => (none, { h with calls := h.calls + 1 })
  | some base =>
    if h.Fresh base length then
      (some base, { h with calls := h.calls + 1, maps := (base, length) :: h.maps })
    else (none, { h with calls := h.calls + 1 })

/-- `munmap`. -/
def munmap (base length : ℕ) : Heap := { h with maps := h.maps.erase (base, length) }

/-- Bytes `[start, start + n)` are written. What the headers hold that have bytes there is
given by `w`. -/
def overwrite (start n : ℕ) (w : Memory) : Heap :=
  { h with
    blocks := fun q => if q < start + n ∧ start < q + headerBytes then w.blocks q else h.blocks q
    links :=
      { next := fun q =>
          if q < start + n ∧ start < q + headerBytes then w.links.next q else h.links.next q
        prev := fun q =>
          if q < start + n ∧ start < q + headerBytes then w.links.prev q else h.links.prev q }
    arenas := fun a =>
      if a < start + n ∧ start < a + arenaHeaderBytes then w.arenas a else h.arenas a
    orderLinks := fun i =>
      { next := fun a =>
          if a < start + n ∧ start < a + arenaHeaderBytes then (w.orderLinks i).next a
          else (h.orderLinks i).next a
        prev := fun a =>
          if a < start + n ∧ start < a + arenaHeaderBytes then (w.orderLinks i).prev a
          else (h.orderLinks i).prev a } }

/-! ## Buddy blocks -/

/-- `buddy_materialize_block` (lines 294-316). -/
def buddyMaterializeBlock (arena offset order : ℕ) : Option (ℕ × Heap) :=
  if (h.arenas arena).buddySize ≤ offset then none
  else
    let block := (h.arenas arena).buddyBase + offset
    some (block, h.resetBlock block fun _ =>
      { arena := some arena, buddyOrder := order, buddyFree := true, buddyUsed := false
        buddyOffset := offset, mappingBase := 0, mappingSize := 0
        size := buddyPayloadCapacity order
        flagFree := false, flagDirect := false, flagBuddy := false })

/-- `buddy_order_list_insert` (lines 318-326). -/
def buddyOrderListInsert (arena index : ℕ) : Heap :=
  { h with
    orderLinks := update h.orderLinks index
      ((h.orderLinks index).pushFront (h.orderHeads index) arena)
    orderHeads := update h.orderHeads index (some arena) }

/-- `buddy_order_list_remove` (lines 328-341). -/
def buddyOrderListRemove (arena index : ℕ) : Heap :=
  let r := (h.orderLinks index).remove (h.orderHeads index) arena
  { h with
    orderLinks := update h.orderLinks index r.2
    orderHeads := update h.orderHeads index r.1 }

/-- `buddy_freelist_push` (lines 343-361). -/
def buddyFreelistPush (arena block : ℕ) : Heap :=
  if BuddyOrderValid (h.blocks block).buddyOrder then
    let index := buddyOrderIndex (h.blocks block).buddyOrder
    let head := (h.arenas arena).freelists index
    let h := h.setBlock block fun b => { b with buddyUsed := false, buddyFree := true }
    let h := { h with links := h.links.pushFront head block }
    let h := h.setFreelist arena index (some block)
    if head = none then h.buddyOrderListInsert arena index else h
  else h

/-- `buddy_freelist_remove` (lines 363-391). -/
def buddyFreelistRemove (arena block : ℕ) : Heap :=
  if BuddyOrderValid (h.blocks block).buddyOrder ∧ (h.blocks block).buddyFree = true then
    let index := buddyOrderIndex (h.blocks block).buddyOrder
    let r := h.links.remove ((h.arenas arena).freelists index) block
    let h := h.setBlock block fun b => { b with buddyFree := false, buddyUsed := true }
    let h := { h with links := r.2 }
    let h := h.setFreelist arena index r.1
    if r.1 = none then h.buddyOrderListRemove arena index else h
  else h

/-- `buddy_freelist_pop` (lines 393-404). -/
def buddyFreelistPop (arena order : ℕ) : Option ℕ × Heap :=
  if BuddyOrderValid order then
    match (h.arenas arena).freelists (buddyOrderIndex order) with
    | none => (none, h)
    | some block => (some block, h.buddyFreelistRemove arena block)
  else (none, h)

/-- The loop of `buddy_split_to_order`. -/
def splitLoop : ℕ → Heap → ℕ → ℕ → ℕ → Option Heap
  | 0, _, _, _, _ => none
  | n + 1, h, arena, block, target =>
    if target < (h.blocks block).buddyOrder then
      let newOrder := (h.blocks block).buddyOrder - 1
      match h.buddyMaterializeBlock arena ((h.blocks block).buddyOffset + 2 ^ newOrder) newOrder with
      | none => some h
      | some (right, h) =>
        let h := h.buddyFreelistPush arena right
        let h := h.setBlock block fun b =>
          { b with buddyOrder := newOrder, size := 2 ^ newOrder - headerBytes }
        splitLoop n h arena block target
    else some h

/-- `buddy_split_to_order` (lines 406-436). -/
def buddySplitToOrder (block target : ℕ) : Option (Option ℕ × Heap) :=
  match (h.blocks block).arena with
  | none => some (none, h)
  | some arena =>
    if ¬ BuddyOrderValid target ∨ (h.blocks block).buddyOrder < target then some (none, h)
    else
      (splitLoop ((h.blocks block).buddyOrder + 1) h arena block target).map fun h =>
        (some block, h.resetBlock block fun b => { b with buddyFree := false, buddyUsed := true })

/-- The loop of `buddy_coalesce_block`: gives the block in hand. -/
def coalesceLoop : ℕ → Heap → ℕ → ℕ → Option (ℕ × Heap)
  | 0, _, _, _ => none
  | n + 1, h, arena, block =>
    if (h.blocks block).buddyOrder < buddyMaxOrder then
      let currentOrder := (h.blocks block).buddyOrder
      let offset := (h.blocks block).buddyOffset
      let other := offset ^^^ 2 ^ currentOrder
      if (h.arenas arena).buddySize ≤ other then some (block, h)
      else
        let buddy := (h.arenas arena).buddyBase + other
        if (h.blocks buddy).buddyOrder ≠ currentOrder ∨ (h.blocks buddy).buddyFree = false then
          some (block, h)
        else
          let h := h.buddyFreelistRemove arena buddy
          match h.buddyMaterializeBlock arena (min offset other) (currentOrder + 1) with
          | none => some (block, h.buddyFreelistPush arena buddy)
          | some (merged, h) => coalesceLoop n h arena merged
    else some (block, h)

/-- `buddy_coalesce_block` (lines 451-494). -/
def buddyCoalesceBlock (block : ℕ) : Option Heap :=
  match (h.blocks block).arena with
  | none => some h
  | some arena =>
    let h := h.resetBlock block fun b => { b with buddyFree := true, buddyUsed := false }
    (coalesceLoop (buddyMaxOrder + 1) h arena block).map fun r => r.2.buddyFreelistPush arena r.1

/-! ## Arenas -/

/-- `grow_heap` (lines 791-873): whether there is a new arena. -/
def growHeap : Bool × Heap :=
  match h.mmap mappingSize with
  | (none, h) => (false, h)
  | (some arena, h) =>
    let grown : Heap := { h with
      arenas := update h.arenas arena
        { buddyBase := arena + buddyOffset, buddySize := arenaSize, freelists := fun _ => none }
      orderLinks := fun i => (h.orderLinks i).clear arena
      arenaList := arena :: h.arenaList }
    match grown.buddyMaterializeBlock arena 0 buddyMaxOrder with
    | none => (false, h.munmap arena mappingSize)
    | some (root, h) => (true, h.buddyFreelistPush arena root)

/-- The loop over the arenas with a free block of the order `current`. -/
def arenaLoop (order current : ℕ) : ℕ → Heap → Option ℕ → Option (Option ℕ × Heap)
  | 0, _, _ => none
  | _ + 1, h, none => some (none, h)
  | n + 1, h, some arena =>
    let next := (h.orderLinks (buddyOrderIndex current)).next arena
    match h.buddyFreelistPop arena current with
    | (none, h) => arenaLoop order current n h next
    | (some candidate, h) =>
      match h.buddySplitToOrder candidate order with
      | none => none
      | some (some block, h) => some (some block, h)
      | some (none, h) => arenaLoop order current n h next

/-- The loop over the orders from `current` on. -/
def orderLoop (order : ℕ) : ℕ → ℕ → Heap → Option (Option ℕ × Heap)
  | 0, _, h => some (none, h)
  | n + 1, current, h =>
    match arenaLoop order current (h.arenaList.length + 1) h
        (h.orderHeads (buddyOrderIndex current)) with
    | none => none
    | some (some block, h) => some (some block, h)
    | some (none, h) => orderLoop order n (current + 1) h

/-- The loop over the attempts. -/
def attemptLoop (order : ℕ) : ℕ → Heap → Option (Option ℕ × Heap)
  | 0, h => some (none, h)
  | n + 1, h =>
    match orderLoop order (buddyMaxOrder + 1 - order) order h with
    | none => none
    | some (some block, h) => some (some block, h)
    | some (none, h) =>
      match h.growHeap with
      | (false, h) => some (none, h)
      | (true, h) => attemptLoop order n h

/-- `buddy_acquire_block` (lines 696-729). -/
def buddyAcquireBlock (order : ℕ) : Option (Option ℕ × Heap) :=
  if BuddyOrderValid order then attemptLoop order 2 h else some (none, h)

/-- `buddy_allocate_block` (lines 731-757). -/
def buddyAllocateBlock (payloadSize : ℕ) : Option (Option ℕ × Heap) :=
  let total := (payloadSize + headerBytes) % 2 ^ 64
  if total < payloadSize then some (none, h)
  else
    let order := buddyOrderForSize total
    if buddyMaxOrder < order then some (none, h)
    else
      (h.buddyAcquireBlock order).map fun r =>
        match r.1 with
        | none => (none, r.2)
        | some block => (some block, r.2.setBlock block fun b =>
            { b with buddyFree := false, buddyUsed := true, mappingBase := 0, mappingSize := 0
                     size := buddyPayloadCapacity order
                     flagFree := false, flagDirect := false, flagBuddy := true })

/-- `buddy_release_block` (lines 759-789). -/
def buddyReleaseBlock (block : ℕ) : Option Heap :=
  if (h.blocks block).arena = none then some h
  else if (h.blocks block).buddyFree = true then
    some { h with doubleFreeAttempts := h.doubleFreeAttempts + 1 }
  else
    let h := h.resetBlock block fun b =>
      { b with flagFree := false, buddyFree := true, buddyUsed := false
               size := buddyPayloadCapacity b.buddyOrder }
    h.buddyCoalesceBlock block

/-! ## Direct mappings -/

/-- `is_power_of_two` (lines 596-598). -/
def isPowerOfTwo (value : ℕ) : Bool := value ≠ 0 && (value &&& (value - 1)) = 0

/-- `align_up_checked_size` and `align_up_checked_uintptr` (lines 604-639). -/
def alignUpChecked (value alignment : ℕ) : Option ℕ :=
  if alignment = 0 ∨ (alignment &&& (alignment - 1)) ≠ 0 then none
  else if 2 ^ 64 - 1 - (alignment - 1) < value then none
  else some (alignUp value alignment)

/-- `allocate_direct` (lines 875-982): gives the payload. -/
def allocateDirect (size alignment : ℕ) : Option ℕ × Heap :=
  let alignment := if ¬ isPowerOfTwo alignment ∨ alignment < 8 then defaultAlignment else alignment
  match alignUpChecked size alignment with
  | none => (none, h)
  | some padded =>
    if 2 ^ 64 - 1 - headerBytes < alignment then (none, h)
    else if 2 ^ 64 - 1 - (alignment + headerBytes) < padded then (none, h)
    else
      let total := padded + (alignment + headerBytes)
      match h.mmap total with
      | (none, h) => (none, h)
      | (some mapping, h) =>
        if 2 ^ 64 - 1 - total < mapping then (none, h.munmap mapping total)
        else
          match alignUpChecked (mapping + headerBytes) alignment with
          | none => (none, h.munmap mapping total)
          | some aligned =>
            if mapping + total < aligned then (none, h.munmap mapping total)
            else if padded ≠ 0 ∧ mapping + total < aligned + padded then
              (none, h.munmap mapping total)
            else if aligned - headerBytes < mapping then (none, h.munmap mapping total)
            else
              let header := aligned - headerBytes
              let h := h.resetBlock header fun _ =>
                { arena := none, buddyOrder := 0, buddyFree := false, buddyUsed := false
                  buddyOffset := 0, mappingBase := mapping, mappingSize := total, size := padded
                  flagFree := false, flagDirect := true, flagBuddy := false }
              (some aligned, { h with
                directAllocationCount := h.directAllocationCount + 1
                directTotalBytes := h.directTotalBytes + total })

/-! ## The library calls -/

/-- `malloc` (lines 986-1034). -/
def malloc (size : ℕ) : Option (Option ℕ × Heap) :=
  if size = 0 then some (none, h)
  else
    let aligned := alignUp size defaultAlignment
    if aligned < size then some (none, h)
    else
      let total := (aligned + headerBytes) % 2 ^ 64
      if total < aligned then some (none, h)
      else if 2 ^ buddyMaxOrder < total then some (h.allocateDirect aligned defaultAlignment)
      else (h.buddyAllocateBlock aligned).map fun r => (r.1.map (· + headerBytes), r.2)

/-- `free` (lines 1036-1060). -/
def free (ptr : Option ℕ) : Option Heap :=
  match ptr with
  | none => some h
  | some p =>
    let block := h.blocks (p - headerBytes)
    if block.flagDirect = true then
      if block.mappingBase ≠ 0 ∧ block.mappingSize ≠ 0 then
        some ({ h with
          directAllocationCount := h.directAllocationCount - 1
          directTotalBytes := h.directTotalBytes - block.mappingSize }.munmap
            block.mappingBase block.mappingSize)
      else some h
    else h.buddyReleaseBlock (p - headerBytes)

/-- `calloc` (lines 1062-1077). `w`: what the headers in the cleared payload hold. -/
def calloc (nmemb size : ℕ) (w : Memory) : Option (Option ℕ × Heap) :=
  if nmemb = 0 ∨ size = 0 then h.malloc 0
  else if (2 ^ 64 - 1) / size < nmemb then some (none, h)
  else
    (h.malloc (nmemb * size)).map fun r =>
      match r.1 with
      | none => (none, r.2)
      | some p => (some p, r.2.overwrite p (nmemb * size) w)

/-- `realloc` (lines 1080-1123). `w`: what the headers in the copied payload hold. -/
def realloc (ptr : Option ℕ) (size : ℕ) (w : Memory) : Option (Option ℕ × Heap) :=
  match ptr with
  | none => h.malloc size
  | some p =>
    if size = 0 then (h.free (some p)).map fun h => (none, h)
    else
      let block := h.blocks (p - headerBytes)
      let aligned := alignUp size defaultAlignment
      if aligned < size then some (none, h)
      else if block.flagDirect = true ∧ aligned ≤ block.size then some (some p, h)
      else if block.flagDirect = false ∧ block.buddyFree = false ∧ block.buddyUsed = true ∧
          aligned ≤ block.size then some (some p, h)
      else
        let total := (aligned + headerBytes) % 2 ^ 64
        let r := if 2 ^ buddyMaxOrder < total ∨ block.flagDirect = true then
            some (h.allocateDirect aligned defaultAlignment)
          else (h.buddyAllocateBlock aligned).map fun r => (r.1.map (· + headerBytes), r.2)
        match r with
        | none => none
        | some (none, h) => some (none, h)
        | some (some q, h) =>
          let copy := if block.size < size then block.size else size
          ((h.overwrite q copy w).free (some p)).map fun h => (some q, h)

/-- `reallocarray` (lines 1125-1136). -/
def reallocarray (ptr : Option ℕ) (nmemb size : ℕ) (w : Memory) : Option (Option ℕ × Heap) :=
  if nmemb = 0 ∨ size = 0 then (h.free ptr).map fun h => (none, h)
  else if (2 ^ 64 - 1) / size < nmemb then some (none, h)
  else h.realloc ptr (nmemb * size) w
end Heap
end Menios.Libc.Buddy
