import Menios.Common.Buffer

/-!
# The block layer as the file system sees it

`fat32.c` reaches the disk through `bread`, `bget` + `bdirty` + `bwrite` and
`block_device_read` / `block_device_write`
(`src/kernel/block/block_device.c`, lines 323-384). Below the file system the
block cache is transparent, so a device is here the bytes of its blocks, and
which blocks can be read and written.
-/

namespace Menios.Fat32
open Common List

/-- A registered `block_device_t`: the fields the file system reads, and for each
block whether `bread`, `bget` and `bwrite` succeed on it. -/
structure Device where
  blockSize : ℕ
  blockCount : ℕ
  readOk : ℕ → Bool
  getOk : ℕ → Bool
  writeOk : ℕ → Bool

/-- The contents of a device as the cache shows them: block number, offset in
the block. -/
abbrev Disk := ℕ → Buffer

/-- Fill a buffer head with `blockSize` bytes of `src`. -/
def Disk.setBlock (disk : Disk) (blockSize lba : ℕ) (src : Buffer) : Disk :=
  Function.update disk lba fun k => if k < blockSize then src k else disk lba k

/-- `block_device_read` (lines 323-358) into `buffer`; the read-ahead it may
start is not visible. -/
def blockDeviceRead (device : Device) (disk : Disk) (lba : ℕ) (buffer : Buffer) (blockCount : ℕ) :
    Option Buffer :=
  if device.blockSize = 0 ∨ blockCount = 0 then none
  else if (lba + blockCount) % 2 ^ 64 > device.blockCount then none
  else if (List.range blockCount).all fun i => device.readOk ((lba + i) % 2 ^ 64) then
    some fun k =>
      if k < blockCount * device.blockSize then
        disk ((lba + k / device.blockSize) % 2 ^ 64) (k % device.blockSize)
      else buffer k
  else none

/-- Fill the blocks `lba + i` one after the other, block `i` from
`src + i * block_size`. A block stays filled in the cache when `written`
fails on it, but nothing is stored behind it. -/
def storeBlocks (device : Device) (written : ℕ → Bool) (lba : ℕ) (src : Buffer) :
    List ℕ → Disk → Bool × Disk
  | [], disk => (true, disk)
  | i :: is, disk =>
    let block := (lba + i) % 2 ^ 64
    if device.getOk block = false then (false, disk)
    else
      let disk := disk.setBlock device.blockSize block fun k => src (i * device.blockSize + k)
      if written block then storeBlocks device written lba src is disk else (false, disk)

/-- `block_device_write` (lines 360-384). The blocks are only made dirty. -/
def blockDeviceWrite (device : Device) (disk : Disk) (lba : ℕ) (src : Buffer) (blockCount : ℕ) :
    Bool × Disk :=
  if blockCount = 0 then (false, disk)
  else if (lba + blockCount) % 2 ^ 64 > device.blockCount then (false, disk)
  else storeBlocks device (fun _ => true) lba src (List.range blockCount) disk

/-- A little-endian integer of `n` bytes at `off`. -/
def leNat (buffer : Buffer) (off : ℕ) : ℕ → ℕ
  | 0 => 0
  | n + 1 => (buffer off).toNat + 256 * leNat buffer (off + 1) n

/-! ## Blocks that are stored -/

lemma Disk.setBlock_of_ne (ds : Disk) {b l l' : ℕ} (h : l' ≠ l) (s : Buffer) :
    ds.setBlock b l s l' = ds l' :=
  Function.update_of_ne h _ _

lemma Disk.setBlock_self (ds : Disk) {b k : ℕ} (h : k < b) (l : ℕ)
    (s : Buffer) : ds.setBlock b l s l k = s k := by
  rw [Disk.setBlock, Function.update_self, if_pos h]

variable {d : Device}
lemma storeBlocks_of_ne {w : ℕ → Bool} {l l' : ℕ} {s : Buffer} :
    ∀ {is : List ℕ} {ds : Disk}, (∀ i ∈ is, l' ≠ (l + i) % 2 ^ 64) →
      (storeBlocks d w l s is ds).2 l' = ds l' := by
  intro is
  induction is with
  | nil => intro ds _; rfl
  | cons i is ih =>
    intro ds hne
    have hi := hne i (by simp)
    simp only [storeBlocks]
    split_ifs
    · rfl
    · rw [ih fun j hj => hne j (mem_cons_of_mem _ hj), Disk.setBlock_of_ne ds hi]
    · exact Disk.setBlock_of_ne ds hi _

lemma blockDeviceWrite_of_ne {ds : Disk} {l l' b : ℕ}
    {s : Buffer} (h : ∀ i < b, l' ≠ (l + i) % 2 ^ 64) :
    (blockDeviceWrite d ds l s b).2 l' = ds l' := by
  unfold blockDeviceWrite
  split_ifs
  · rfl
  · rfl
  · exact storeBlocks_of_ne fun i hi => h i (mem_range.1 hi)

lemma storeBlocks_spec {w : ℕ → Bool} {l : ℕ} {s : Buffer} :
    ∀ {is : List ℕ} (ds : Disk), is.Nodup → (∀ i ∈ is, l + i < 2 ^ 64) →
      (∀ i ∈ is, d.getOk (l + i) = true ∧ w (l + i) = true) →
      (storeBlocks d w l s is ds).1 = true ∧ ∀ i ∈ is, ∀ k < d.blockSize,
          (storeBlocks d w l s is ds).2 (l + i) k = s (i * d.blockSize + k) := by
  intro is
  induction is with
  | nil => intro ds _ _ _; simp [storeBlocks]
  | cons i is ih =>
    intro ds hnd hlt hok
    obtain ⟨hi, hnd⟩ := nodup_cons.1 hnd
    have hmod : (l + i) % 2 ^ 64 = l + i := Nat.mod_eq_of_lt (hlt i (by simp))
    obtain ⟨hget, hwr⟩ := hok i (by simp)
    obtain ⟨h1, h2⟩ := ih (ds.setBlock d.blockSize (l + i) fun k =>
        s (i * d.blockSize + k)) hnd (fun j hj => hlt j (mem_cons_of_mem _ hj))
      (fun j hj => hok j (mem_cons_of_mem _ hj))
    simp only [storeBlocks, hmod, hget, hwr, Bool.true_eq_false, if_false, if_true]
    refine ⟨h1, fun j hj k hk => ?_⟩
    rcases mem_cons.1 hj with rfl | hj
    · rw [storeBlocks_of_ne, Disk.setBlock_self _ hk]
      intro j' hj' he
      rw [Nat.mod_eq_of_lt (hlt j' (mem_cons_of_mem _ hj'))] at he
      have hjj : j = j' := by omega
      exact hi (hjj ▸ hj')
    · exact h2 j hj k hk
end Menios.Fat32
