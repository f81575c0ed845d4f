import Menios.Common.Buffer

/-!
# The buffer cache

Model of `src/kernel/block/block_cache.c`: a pool of 512 buffers, hash chains
over `(device, lba)`, a list in order of last use, and a counter of dirty
buffers.

`BCache` is what `bcache_lock` protects, and its operations are the pieces of
code that run under the lock without a break. `World` adds the devices, and its
operations are whole calls in a run with one caller: there `kcondvar_wait` is
never followed by a wake-up, and a call that reaches it has no result (`none`).

The chains are lists of buffers. `bcache_hash_insert` and
`bcache_lru_push_front` link a buffer that is on no chain of that kind, so the
pointers they set do form these lists.
-/

namespace Menios.Block
open Common Function

/-! ## The cache under its lock -/

/-- `BCACHE_MAX_BUFFERS` (line 10). -/
def bcacheMaxBuffers : ℕ := 512

/-- `BCACHE_HASH_BUCKETS` (line 11). -/
def bcacheHashBuckets : ℕ := 256

/-- `BCACHE_MAX_BLOCK_BYTES` (line 12). -/
def bcacheMaxBlockBytes : ℕ := 4096

/-- `BCACHE_DIRTY_LIMIT` (line 13). -/
def bcacheDirtyLimit : ℕ := 128

/-- A buffer, named by its place in `bcache_pool`. -/
abbrev Slot := Fin bcacheMaxBuffers

/-- The address of a `block_device_t`; 0 is `NULL`. -/
abbrev DevPtr := ℕ

/-- `buffer_head_t` (include/kernel/block_cache.h, lines 14-27) without its
links. -/
structure BufferHead where
  device : DevPtr
  lba : ℕ
  blockSize : ℕ
  data : Buffer
  valid : Bool
  dirty : Bool
  busy : Bool
  allocated : Bool
  refcount : ℕ

/-- The static variables of the cache (lines 20-27): `hash` has the chain of each
bucket, `lru` the list from `bcache_lru_head` to `bcache_lru_tail`. -/
structure BCache where
  pool : Slot → BufferHead
  hash : ℕ → List Slot
  lru : List Slot
  dirtyCount : ℕ

/-- `bcache_hash_key` (lines 29-31). -/
def bcacheHashKey (device : DevPtr) (lba : ℕ) : ℕ :=
  ((device / 2 ^ 4) ^^^ (lba % 2 ^ 32)) % 2 ^ 32 % bcacheHashBuckets

namespace BCache
variable (c : BCache)
/-- Assign the fields of one buffer. -/
@[simps -fullyApplied pool hash lru]
def modify (i : Slot) (f : BufferHead → BufferHead) : BCache :=
  { c with pool := update c.pool i (f (c.pool i)) }

/-- `bcache_lru_detach` (lines 33-48). -/
@[simps -fullyApplied pool hash lru]
def lruDetach (i : Slot) : BCache := { c with lru := c.lru.erase i }

/-- `bcache_lru_push_front` (lines 50-60). -/
@[simps -fullyApplied pool hash lru]
def lruPushFront (i : Slot) : BCache := { c with lru := i :: c.lru }

/-- `bcache_hash_insert` (lines 62-66). -/
@[simps -fullyApplied pool lru]
def hashInsert (i : Slot) : BCache :=
  let key := bcacheHashKey (c.pool i).device (c.pool i).lba
  { c with hash := update c.hash key (i :: c.hash key) }

/-- `bcache_hash_remove` (lines 68-79). -/
@[simps -fullyApplied pool lru]
def hashRemove (i : Slot) : BCache :=
  let key := bcacheHashKey (c.pool i).device (c.pool i).lba
  { c with hash := update c.hash key ((c.hash key).erase i) }

/-- `bcache_hash_lookup` (lines 81-89). -/
def hashLookup (device : DevPtr) (lba : ℕ) : Option Slot :=
  (c.hash (bcacheHashKey device lba)).find? fun i =>
    (c.pool i).valid && (c.pool i).device == device && (c.pool i).lba == lba

/-- `bcache_select_victim` (lines 91-98). -/
def selectVictim : Option Slot :=
  c.lru.reverse.find? fun i => (c.pool i).refcount == 0 && !(c.pool i).busy

/-- `bcache_alloc_locked` (lines 124-134). -/
def allocLocked : Option (BCache × Slot) :=
  ((List.finRange bcacheMaxBuffers).find? fun i => !(c.pool i).allocated).map fun i =>
    (c.modify i fun bh => { bh with allocated := true }, i)

/-- The choice of a buffer to reuse (lines 156-169): the least recently used one
that nobody holds, else a new one. -/
def chooseVictim : Option (BCache × Slot) :=
  match c.selectVictim with
  | some victim => some (c, victim)
  | none =>
    c.allocLocked.map fun (c, unused) =>
      (c.modify unused fun bh =>
        { bh with refcount := 0, dirty := false, valid := false, busy := false, device := 0,
                  lba := 0, blockSize := 0 }, unused)

/-- A hit in `bcache_get_locked` (lines 148-151). -/
def acquire (i : Slot) : BCache :=
  ((c.modify i fun bh => { bh with busy := true, refcount := bh.refcount + 1 }).lruDetach
    i).lruPushFront i

/-- `victim->busy = true` (line 176). -/
def setBusy (i : Slot) : BCache := c.modify i fun bh => { bh with busy := true }

/-- The victim becomes the buffer of another block (lines 186-198). -/
def takeOver (victim : Slot) (device : DevPtr) (lba blockSize : ℕ) : BCache :=
  let c := if (c.pool victim).valid then c.hashRemove victim else c
  let c := c.modify victim fun bh =>
    { bh with device := device, lba := lba, blockSize := blockSize, valid := false, dirty := false,
              refcount := 1 }
  ((c.hashInsert victim).lruDetach victim).lruPushFront victim

/-- A fresh buffer has its contents: lines 294-298 of `bread`, 316-319 of `bget`. -/
def fill (i : Slot) (data : Buffer) (f : BufferHead → BufferHead) : BCache :=
  c.modify i fun bh => f { bh with data := data, valid := true }

/-- The read of a fresh buffer failed (lines 283-290). -/
def discard (i : Slot) : BCache :=
  (((c.modify i fun bh => { bh with valid := false, refcount := 0, busy := false }).hashRemove
    i).lruDetach i).lruPushFront i

/-- `bcache_release_locked` (lines 204-216). -/
def releaseLocked (i : Slot) : BCache :=
  if (c.pool i).refcount = 0 then c
  else ((c.modify i fun bh => { bh with refcount := bh.refcount - 1, busy := false }).lruDetach
    i).lruPushFront i

/-- Lines 329-332 of `bdirty`. -/
def markDirty (i : Slot) : BCache :=
  if (c.pool i).dirty then c
  else { c.modify i fun bh => { bh with dirty := true } with dirtyCount := c.dirtyCount + 1 }

/-- The buffer `bdirty` writes back when too many are dirty (lines 333-339). -/
def overLimit : Option Slot :=
  if c.dirtyCount > bcacheDirtyLimit then
    c.lru.reverse.find? fun i => (c.pool i).dirty && (c.pool i).refcount == 0 && !(c.pool i).busy
  else none

/-- After a successful write (lines 115-120, 365-370). -/
def markClean (i : Slot) : BCache :=
  if (c.pool i).dirty then
    { c.modify i fun bh => { bh with dirty := false } with dirtyCount := c.dirtyCount - 1 }
  else c

/-- One buffer of `block_cache_invalidate_device` after its write-back
(lines 417-426). -/
def invalidate (i : Slot) : BCache :=
  let c := if (c.pool i).valid then c.hashRemove i else c
  ((c.modify i fun bh =>
    { bh with valid := false, dirty := false, device := 0, lba := 0, blockSize := 0 }).lruDetach
    i).lruPushFront i

/-- The cache after `block_cache_initialize` (lines 218-233). -/
def initial : BCache where
  pool := fun _ =>
    { device := 0, lba := 0, blockSize := 0, data := fun _ => 0, valid := false, dirty := false,
      busy := false, allocated := false, refcount := 0 }
  hash := fun _ => []
  lru := []
  dirtyCount := 0
end BCache

/-! ## Devices and whole calls -/

/-- The fields of `block_device_t` and its `ops` that do not change
(include/kernel/block_device.h): for each operation, whether it is there. -/
structure BlockDevice where
  blockSize : ℕ
  blockCount : ℕ
  readBlocks : Bool
  writeBlocks : Bool
  flush : Bool

/-- Where a driver operation is called from. -/
inductive Site where
  /-- `bread` fills a fresh buffer (line 282). -/
  | fill
  /-- `bcache_get_locked` writes its victim back (line 179). -/
  | evict
  /-- `bdirty` is over the dirty limit (line 336). -/
  | limit
  /-- `bwrite` (line 360). -/
  | bwrite
  /-- `block_cache_flush_device` (line 392). -/
  | flushDevice
  /-- `block_cache_invalidate_device` (line 411). -/
  | invalidateDevice
  /-- `ops->flush` in `block_device_flush`. -/
  | flush
  deriving DecidableEq

/-- The devices, and the drivers' answers: `driver site n` says whether the `n`-th
driver call of a run succeeds if it is made from `site`. Both are arbitrary. -/
structure System where
  device : DevPtr → BlockDevice
  driver : Site → ℕ → Bool

/-- The state between two calls: `media` is what the devices hold, `calls` the
number of driver calls so far, `readahead` the fields `readahead_last_lba`
and `readahead_last_count` of each device. -/
structure World where
  cache : BCache
  media : DevPtr → ℕ → Buffer
  calls : ℕ
  readahead : DevPtr → ℕ × ℕ

variable (sys : System)
namespace World
/-- `dev->ops->write_blocks(dev, lba, local, 1)`. A failed write leaves the block
as it was. -/
def driverWrite (site : Site) (w : World) (dev : DevPtr) (lba : ℕ) (buf : Buffer) : World × Bool :=
  if sys.driver site w.calls then
    ({ w with
        calls := w.calls + 1
        media := update w.media dev (update (w.media dev) lba fun k =>
          if k < (sys.device dev).blockSize then buf k else w.media dev lba k) }, true)
  else ({ w with calls := w.calls + 1 }, false)

variable (w : World)
/-- `device->ops->read_blocks(device, lba, data, 1)`: the new contents of `data`. -/
def driverRead (dev : DevPtr) (lba : ℕ) (data : Buffer) : World × Option Buffer :=
  if sys.driver .fill w.calls then
    ({ w with calls := w.calls + 1 },
      some fun k => if k < (sys.device dev).blockSize then w.media dev lba k else data k)
  else ({ w with calls := w.calls + 1 }, none)

/-- `uint8_t local[]` after `memcpy(local, bh->data, block_size)` (lines 110-111,
357); 0 stands for what the stack held. -/
def localCopy (bh : BufferHead) : Buffer := fun k => if k < bh.blockSize then bh.data k else 0

/-- `bcache_flush_locked` (lines 100-122). -/
def flushLocked (site : Site) (w : World) (i : Slot) : World × Bool :=
  let bh := w.cache.pool i
  if bh.dirty = false ∨ bh.valid = false ∨ bh.device = 0 then (w, true)
  else if (sys.device bh.device).writeBlocks = false then (w, false)
  else
    let (w, ok) := w.driverWrite sys site bh.device bh.lba (localCopy bh)
    (if ok then { w with cache := w.cache.markClean i } else w, ok)

/-- `device == NULL || device->block_size == 0 || device->block_size >
BCACHE_MAX_BLOCK_BYTES` (lines 137, 266, 305). -/
def badDevice (dev : DevPtr) : Bool :=
  dev == 0 || (sys.device dev).blockSize == 0 ||
    decide ((sys.device dev).blockSize > bcacheMaxBlockBytes)

/-- `bcache_get_locked` (lines 136-202) for a usable device: the buffer and
`*fresh_block`; no result if the caller is put to sleep. -/
def getLocked (dev : DevPtr) (lba : ℕ) : Option (World × Slot × Bool) :=
  match w.cache.hashLookup dev lba with
  | some i =>
    if (w.cache.pool i).busy then none
    else some ({ w with cache := w.cache.acquire i }, i, false)
  | none =>
    match w.cache.chooseVictim with
    | none => none
    | some (c, victim) =>
      let w := { w with cache := c.setBusy victim }
      let w := if (c.pool victim).valid && (c.pool victim).dirty then
        (w.flushLocked sys .evict victim).1 else w
      some ({ w with cache := w.cache.takeOver victim dev lba (sys.device dev).blockSize }, victim,
        true)

/-- `bread` (lines 265-302): `some (_, none)` is a `NULL` result. -/
def bread (dev : DevPtr) (lba : ℕ) : Option (World × Option Slot) :=
  if badDevice sys dev then some (w, none)
  else if (sys.device dev).readBlocks = false then some (w, none)
  else
    match w.getLocked sys dev lba with
    | none => none
    | some (w, i, false) => some (w, some i)
    | some (w, i, true) =>
      match w.driverRead sys dev lba (w.cache.pool i).data with
      | (w, none) => some ({ w with cache := w.cache.discard i }, none)
      | (w, some data) =>
        some ({ w with cache := w.cache.fill i data fun bh =>
          { bh with dirty := false, blockSize := (sys.device dev).blockSize } }, some i)

/-- `bget` (lines 304-322). -/
def bget (dev : DevPtr) (lba : ℕ) : Option (World × Option Slot) :=
  if badDevice sys dev then some (w, none)
  else
    match w.getLocked sys dev lba with
    | none => none
    | some (w, i, false) => some (w, some i)
    | some (w, i, true) =>
      let data : Buffer := fun k =>
        if k < (sys.device dev).blockSize then 0 else (w.cache.pool i).data k
      some ({ w with cache := w.cache.fill i data id }, some i)

/-- `bdirty` (lines 324-342). -/
def bdirty (i : Slot) : World :=
  let w := { w with cache := w.cache.markDirty i }
  match w.cache.overLimit with
  | some tail => (w.flushLocked sys .limit tail).1
  | none => w

/-- `bwrite` (lines 344-373). -/
def bwrite (w : World) (i : Slot) : World × Bool :=
  let bh := w.cache.pool i
  if bh.device = 0 ∨ (sys.device bh.device).writeBlocks = false then (w, false)
  else
    match w.driverWrite sys .bwrite bh.device bh.lba (localCopy bh) with
    | (w, false) => (w, false)
    | (w, true) => ({ w with cache := w.cache.markClean i }, true)

/-- `brelse` (lines 375-382). -/
def brelse (i : Slot) : World := { w with cache := w.cache.releaseLocked i }

/-- The body of the loop of `block_cache_flush_device` (lines 390-397). -/
def flushSlot (device : DevPtr) (w : World) (i : Slot) : World :=
  if (w.cache.pool i).device = device ∧ (w.cache.pool i).dirty = true ∧
      (w.cache.pool i).valid = true then
    (w.flushLocked sys .flushDevice i).1
  else w

/-- `block_cache_flush_device` (lines 384-400). -/
def flushDevice (device : DevPtr) : World :=
  if device = 0 then w
  else (List.finRange bcacheMaxBuffers).foldl (flushSlot sys device) w

/-- The body of the loop of `block_cache_invalidate_device` (lines 408-427). -/
def invalidateSlot (device : DevPtr) (w : World) (i : Slot) : World :=
  if (w.cache.pool i).device = device then
    let w := if (w.cache.pool i).dirty && (w.cache.pool i).valid then
      (w.flushLocked sys .invalidateDevice i).1 else w
    { w with cache := w.cache.invalidate i }
  else w

/-- `block_cache_invalidate_device` (lines 402-431). -/
def invalidateDevice (device : DevPtr) : World :=
  if device = 0 then w
  else (List.finRange bcacheMaxBuffers).foldl (invalidateSlot sys device) w

/-- The state after boot, with devices that hold `media`. -/
def initial (media : DevPtr → ℕ → Buffer) : World where
  cache := BCache.initial
  media := media
  calls := 0
  readahead := fun _ => (2 ^ 64 - 1, 0)
end World
end Menios.Block
