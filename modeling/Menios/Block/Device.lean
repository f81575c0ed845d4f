import Menios.Block.Cache
import Menios.Common.Memory

/-!
# Block devices over the cache

Models of `block_device_read`, `block_device_write`, `block_device_flush` and
`block_device_readahead` (`src/kernel/block/block_device.c`, lines 44-62 and
323-392), and of a run: a sequence of these calls, of
`block_cache_flush_device` and `block_cache_invalidate_device`, and of direct
uses of a buffer (`bread` or `bget`, then changes with `bdirty` and `bwrite`,
then `brelse`).

A run leaves a trace of the blocks that were handed to a caller and of those
that were written.
-/

namespace Menios.Block
open Common
variable (sys : System)
/-- A block of a device. -/
abbrev BlockAddr := DevPtr × ℕ

/-- A block handed to a caller or written through the cache, as bytes. -/
abbrev Event := MemEvent BlockAddr (List UInt8)

namespace World
/-- `BLOCK_DEVICE_READAHEAD_WINDOW` (line 44). -/
def readaheadWindow : ℕ := 4

/-- The `for` loop of `block_device_readahead` (lines 55-61). -/
def readaheadLoop (dev : DevPtr) : World → ℕ → ℕ → Option World
  | w, _, 0 => some w
  | w, lba, n + 1 =>
    match w.bread sys dev lba with
    | none => none
    | some (w, none) => some w
    | some (w, some i) => readaheadLoop dev (w.brelse i) ((lba + 1) % 2 ^ 64) n

/-- `block_device_readahead` (lines 46-62). -/
def blockDeviceReadahead (w : World) (dev : DevPtr) (startLba window : ℕ) : Option World :=
  if dev = 0 ∨ (sys.device dev).readBlocks = false then some w
  else if startLba ≥ (sys.device dev).blockCount then some w
  else
    let remaining := (sys.device dev).blockCount - startLba
    let count := if window < remaining then window else remaining % 2 ^ 32
    readaheadLoop sys dev w startLba count

/-- The `for` loop of `block_device_read` (lines 340-347): the blocks copied to
`out`, or `none` for a failed `bread`. -/
def readLoop (dev : DevPtr) : World → ℕ → ℕ → Option (World × Option (List (List UInt8)))
  | w, _, 0 => some (w, some [])
  | w, lba, n + 1 =>
    match w.bread sys dev lba with
    | none => none
    | some (w, none) => some (w, none)
    | some (w, some i) =>
      let block := (w.cache.pool i).data.toList (sys.device dev).blockSize
      match readLoop dev (w.brelse i) ((lba + 1) % 2 ^ 64) n with
      | none => none
      | some (w, none) => some (w, none)
      | some (w, some blocks) => some (w, some (block :: blocks))

/-- `block_device_validate` (lines 246-248). -/
def blockDeviceValidate (dev : DevPtr) : Bool :=
  dev != 0 && (sys.device dev).readBlocks && (sys.device dev).blockSize != 0

/-- `block_device_read` (lines 323-358): the blocks read, `none` for `false`. -/
def blockDeviceRead (w : World) (dev : DevPtr) (lba blockCount : ℕ) :
    Option (World × Option (List (List UInt8))) :=
  if blockDeviceValidate sys dev = false ∨ blockCount = 0 then some (w, none)
  else if (lba + blockCount) % 2 ^ 64 > (sys.device dev).blockCount then some (w, none)
  else
    let (lastLba, lastCount) := w.readahead dev
    let sequential := lastCount > 0 ∧ lastLba ≠ 2 ^ 64 - 1 ∧ lba = (lastLba + lastCount) % 2 ^ 64
    match readLoop sys dev w lba blockCount with
    | none => none
    | some (w, none) => some (w, none)
    | some (w, some blocks) =>
      let w := { w with readahead := Function.update w.readahead dev (lba, blockCount % 2 ^ 32) }
      let nextLba := (lba + blockCount) % 2 ^ 64
      if sequential ∨ blockCount > 1 then
        match w.blockDeviceReadahead sys dev nextLba readaheadWindow with
        | none => none
        | some w => some (w, some blocks)
      else some (w, some blocks)

/-- Lines 377-379 of `block_device_write`: the block is copied into the buffer. -/
def storeBlock (w : World) (i : Slot) (blockSize : ℕ) (src : Buffer) : World :=
  { w with cache := w.cache.modify i fun bh =>
      { bh with data := fun k => if k < blockSize then src k else bh.data k
                blockSize := blockSize, valid := true } }

/-- The `for` loop of `block_device_write` (lines 372-382), with the caller's
buffer from the current block on. -/
def writeLoop (dev : DevPtr) : World → ℕ → Buffer → ℕ → Option (World × Bool)
  | w, _, _, 0 => some (w, true)
  | w, lba, src, n + 1 =>
    let blockSize := (sys.device dev).blockSize
    match w.bget sys dev lba with
    | none => none
    | some (w, none) => some (w, false)
    | some (w, some i) =>
      let w := w.storeBlock i blockSize src
      let w := w.bdirty sys i
      writeLoop dev (w.brelse i) ((lba + 1) % 2 ^ 64) (fun k => src (blockSize + k)) n

/-- `block_device_write` (lines 360-384). -/
def blockDeviceWrite (w : World) (dev : DevPtr) (lba : ℕ) (buffer : Buffer) (blockCount : ℕ) :
    Option (World × Bool) :=
  if dev = 0 ∨ blockCount = 0 then some (w, false)
  else if (sys.device dev).writeBlocks = false then some (w, false)
  else if (lba + blockCount) % 2 ^ 64 > (sys.device dev).blockCount then some (w, false)
  else writeLoop sys dev w lba buffer blockCount

/-- `block_device_flush` (lines 386-392). -/
def blockDeviceFlush (w : World) (dev : DevPtr) : World × Bool :=
  if dev = 0 ∨ (sys.device dev).flush = false then (w, true)
  else
    let w := w.flushDevice sys dev
    ({ w with calls := w.calls + 1 }, sys.driver .flush w.calls)
end World

/-! ## Runs -/

/-- What a caller does with a buffer it holds. -/
inductive Action where
  /-- Change the bytes of the block. -/
  | modify (f : Buffer → Buffer)
  | bdirty
  | bwrite

/-- How a caller gets a buffer. -/
inductive Fetch where
  | bread
  | bget

/-- One call, or one use of a buffer from `bread` or `bget` to `brelse`. -/
inductive Op where
  | read (dev : DevPtr) (lba blockCount : ℕ)
  | write (dev : DevPtr) (lba : ℕ) (buffer : Buffer) (blockCount : ℕ)
  | flush (dev : DevPtr)
  | flushDevice (dev : DevPtr)
  | invalidateDevice (dev : DevPtr)
  | use (fetch : Fetch) (dev : DevPtr) (lba : ℕ) (actions : List Action)

/-- The bytes of the block a buffer holds. -/
def blockOf (dev : DevPtr) (w : World) (i : Slot) : List UInt8 :=
  (w.cache.pool i).data.toList (sys.device dev).blockSize

/-- One action on the held buffer `i` of block `lba`. A block is written when its
buffer is marked dirty, or when `bwrite` succeeds. -/
def Action.run (dev : DevPtr) (lba : ℕ) (i : Slot) (w : World) : Action → World × List Event
  | .modify f => ({ w with cache := w.cache.modify i fun bh => { bh with data := f bh.data } }, [])
  | .bdirty => (w.bdirty sys i, [.write (dev, lba) (blockOf sys dev w i)])
  | .bwrite =>
    let (w', ok) := w.bwrite sys i
    (w', if ok then [.write (dev, lba) (blockOf sys dev w i)] else [])

/-- A sequence of actions. -/
def runActions (dev : DevPtr) (lba : ℕ) (i : Slot) : World → List Action → World × List Event
  | w, [] => (w, [])
  | w, a :: as =>
    let (w, e) := a.run sys dev lba i w
    let (w, es) := runActions dev lba i w as
    (w, e ++ es)

/-- The events of `count` consecutive blocks. -/
def blockEvents (e : BlockAddr → List UInt8 → Event) (dev : DevPtr) :
    ℕ → List (List UInt8) → List Event
  | _, [] => []
  | lba, b :: bs => e (dev, lba) b :: blockEvents e dev ((lba + 1) % 2 ^ 64) bs

/-- The blocks of the caller's buffer. -/
def blocksOf (blockSize : ℕ) (src : Buffer) (blockCount : ℕ) : List (List UInt8) :=
  (List.range blockCount).map fun i => Buffer.toList (fun k => src (i * blockSize + k)) blockSize

/-- One operation of a run: the state after it and its events; no result if the
caller sleeps for ever. -/
def Op.run (w : World) : Op → Option (World × List Event)
  | .read dev lba n =>
    match w.blockDeviceRead sys dev lba n with
    | none => none
    | some (w, none) => some (w, [])
    | some (w, some blocks) => some (w, blockEvents .read dev lba blocks)
  | .write dev lba buffer n =>
    match w.blockDeviceWrite sys dev lba buffer n with
    | none => none
    | some (w, false) => some (w, [])
    | some (w, true) =>
      some (w, blockEvents .write dev lba (blocksOf (sys.device dev).blockSize buffer n))
  | .flush dev => some ((w.blockDeviceFlush sys dev).1, [])
  | .flushDevice dev => some (w.flushDevice sys dev, [])
  | .invalidateDevice dev => some (w.invalidateDevice sys dev, [])
  | .use fetch dev lba actions =>
    match (match fetch with | .bread => w.bread sys dev lba | .bget => w.bget sys dev lba) with
    | none => none
    | some (w, none) => some (w, [])
    | some (w, some i) =>
      let got : List Event := match fetch with
        | .bread => [.read (dev, lba) (blockOf sys dev w i)]
        | .bget => []
      let (w, es) := runActions sys dev lba i w actions
      some (w.brelse i, got ++ es)

/-- A run. -/
def run : World → List Op → Option (World × List Event)
  | w, [] => some (w, [])
  | w, op :: ops =>
    match op.run sys w with
    | none => none
    | some (w, es) =>
      match run w ops with
      | none => none
      | some (w, es') => some (w, es ++ es')
end Menios.Block
