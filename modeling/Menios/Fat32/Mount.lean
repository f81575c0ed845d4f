import Menios.Fat32.Disk

/-!
# Mounting a FAT32 partition

Models of `fat32_validate_bpb`, `fat32_load_fat_table` and
`fat32_mount_from_partition` (`src/kernel/fs/fat32/fat32.c`, lines 301-412).

`max_cluster_index` is the number of entries of the FAT. Nothing relates it to
`total_sectors` or to the size of the partition: `fat32_validate_bpb` only asks
for 65525 clusters, in arithmetic modulo `2^32`.

Results:

* `mountFromPartition_inside_iff`: a mounted volume addresses only sectors of
  its partition iff the clusters of its FAT fit behind the FAT.
* `mountFromPartition_beyond`: an accepted boot sector with a FAT for 128000
  clusters in a partition of 70000 sectors.
-/

namespace Menios.Fat32
open Common Option

/-! ## Model -/

/-- The fields of `gpt_entry_t` the mount reads (lines 130-137). -/
structure GptEntry where
  firstLba : UInt64
  lastLba : UInt64

/-- The fields of `fat32_bpb_t` that are read (lines 139-167). -/
structure Bpb where
  bytesPerSector : UInt16
  sectorsPerCluster : UInt8
  reservedSectorCount : UInt16
  numFats : UInt8
  totalSectors16 : UInt16
  totalSectors32 : UInt32
  fatSize32 : UInt32
  rootCluster : UInt32

/-- `(const fat32_bpb_t*)sector_buffer` (line 376). -/
def Bpb.ofSector (sector : Buffer) : Bpb where
  bytesPerSector := UInt16.ofNat (leNat sector 11 2)
  sectorsPerCluster := sector 13
  reservedSectorCount := UInt16.ofNat (leNat sector 14 2)
  numFats := sector 16
  totalSectors16 := UInt16.ofNat (leNat sector 19 2)
  totalSectors32 := UInt32.ofNat (leNat sector 32 4)
  fatSize32 := UInt32.ofNat (leNat sector 36 4)
  rootCluster := UInt32.ofNat (leNat sector 44 4)

/-- `fat32_validate_bpb` (lines 319-352). `data_sectors` is computed in
`uint32_t`. -/
def validateBpb (bpb : Bpb) (device : Device) : Bool :=
  if bpb.bytesPerSector = 0 ∨ bpb.sectorsPerCluster = 0 then false
  else if bpb.bytesPerSector.toNat ≠ device.blockSize then false
  else if bpb.numFats = 0 ∨ bpb.fatSize32 = 0 then false
  else
    let totalSectors : UInt32 :=
      if bpb.totalSectors32 = 0 then bpb.totalSectors16.toUInt32 else bpb.totalSectors32
    if totalSectors = 0 then false
    else
      let dataSectors : UInt32 :=
        totalSectors - (bpb.reservedSectorCount.toUInt32 + bpb.numFats.toUInt32 * bpb.fatSize32)
      if dataSectors = 0 then false
      else
        let totalClusters : UInt32 := dataSectors / bpb.sectorsPerCluster.toUInt32
        if totalClusters < 65525 then false else true

/-- `fat32_fs_t` (lines 195-211) without the FAT, which changes. -/
structure Fat32Fs where
  device : Device
  partitionStartLba : ℕ
  partitionBlockCount : ℕ
  bytesPerSector : ℕ
  sectorsPerCluster : ℕ
  reservedSectors : ℕ
  numFats : ℕ
  fatSizeSectors : ℕ
  rootCluster : ℕ
  fatStartLba : ℕ
  dataStartLba : ℕ
  clusterSizeBytes : ℕ
  maxClusterIndex : ℕ

/-- The FAT: the entry of each cluster, all 32 bits. -/
abbrev FatTable := ℕ → ℕ

/-- `fat32_load_fat_table` (lines 301-317). `kmalloc n` says whether an
allocation of `n` bytes succeeds; the entries are read little-endian. -/
def loadFatTable (kmalloc : ℕ → Bool) (disk : Disk) (memory : Buffer) (fs : Fat32Fs) :
    Option (Fat32Fs × FatTable) :=
  let fatTableBytes := fs.fatSizeSectors * fs.bytesPerSector
  if kmalloc fatTableBytes then
    match blockDeviceRead fs.device disk fs.fatStartLba memory fs.fatSizeSectors with
    | none => none
    | some fatTable =>
      some ({ fs with maxClusterIndex := fatTableBytes / 4 % 2 ^ 32 },
        fun cluster => leNat fatTable (4 * cluster) 4)
  else none

/-- `sizeof(fs_mount_t)`. -/
def sizeofMount : ℕ := 96

/-- `fat32_mount_from_partition` (lines 354-412) into the sector buffer
`sectorBuffer`; `memory` is what `kmalloc` returns uninitialised. -/
def mountFromPartition (kmalloc : ℕ → Bool) (device : Device) (disk : Disk) (partition : GptEntry)
    (sectorBuffer memory : Buffer) : Option (Fat32Fs × FatTable) :=
  if partition.firstLba = 0 ∨ partition.lastLba ≤ partition.firstLba then none
  else
    let partitionBlocks : UInt64 := (partition.lastLba - partition.firstLba) + 1
    match blockDeviceRead device disk partition.firstLba.toNat sectorBuffer 1 with
    | none => none
    | some sector =>
      if sector 510 ≠ 0x55 ∨ sector 511 ≠ 0xAA then none
      else
        let bpb := Bpb.ofSector sector
        if validateBpb bpb device = false then none
        else if kmalloc sizeofMount = false then none
        else
          let fatStartLba : UInt64 := partition.firstLba + bpb.reservedSectorCount.toUInt64
          let dataStartLba : UInt64 := fatStartLba + bpb.numFats.toUInt64 * bpb.fatSize32.toUInt64
          loadFatTable kmalloc disk memory {
            device := device
            partitionStartLba := partition.firstLba.toNat
            partitionBlockCount := partitionBlocks.toNat
            bytesPerSector := bpb.bytesPerSector.toNat
            sectorsPerCluster := bpb.sectorsPerCluster.toNat
            reservedSectors := bpb.reservedSectorCount.toNat
            numFats := bpb.numFats.toNat
            fatSizeSectors := bpb.fatSize32.toNat
            rootCluster := bpb.rootCluster.toNat
            fatStartLba := fatStartLba.toNat
            dataStartLba := dataStartLba.toNat
            clusterSizeBytes := bpb.bytesPerSector.toNat * bpb.sectorsPerCluster.toNat
            maxClusterIndex := 0 }

/-! ## The sectors of a mounted volume -/

/-- The boot sector that the mount of a partition looks at. -/
def bootSector (device : Device) (disk : Disk) (partition : GptEntry) (sectorBuffer : Buffer) : Buffer :=
  fun k => if k < device.blockSize then disk partition.firstLba.toNat k else sectorBuffer k

/-- The number of FAT entries a boot sector asks for. -/
def Bpb.fatEntries (bpb : Bpb) : ℕ := bpb.fatSize32.toNat * bpb.bytesPerSector.toNat / 4 % 2 ^ 32

/-- The first data sector of a boot sector in a partition. -/
def Bpb.dataStart (bpb : Bpb) (partition : GptEntry) : ℕ :=
  (partition.firstLba.toNat + bpb.reservedSectorCount.toNat +
    bpb.numFats.toNat * bpb.fatSize32.toNat) % 2 ^ 64

/-- The clusters of the FAT lie before the end of the partition. -/
def ClustersFit (bpb : Bpb) (partition : GptEntry) : Prop :=
  bpb.fatEntries ≤ 2 ∨
    bpb.dataStart partition + (bpb.fatEntries - 2) * bpb.sectorsPerCluster.toNat ≤
      partition.lastLba.toNat + 1

/-- No cluster of the FAT has a sector outside of the partition. -/
def Fat32Fs.InsidePartition (fs : Fat32Fs) : Prop :=
  ∀ c, 2 ≤ c → c < fs.maxClusterIndex →
    fs.dataStartLba + (c - 2) * fs.sectorsPerCluster + fs.sectorsPerCluster ≤
      fs.partitionStartLba + fs.partitionBlockCount

lemma blockDeviceRead_one {d : Device} {ds : Disk} {p : GptEntry} {s sc : Buffer}
    (h : blockDeviceRead d ds p.firstLba.toNat s 1 = some sc) : sc = bootSector d ds p s := by
  have hlt := p.firstLba.toNat_lt
  rw [blockDeviceRead, ite_none_left_eq_some, ite_none_left_eq_some, ite_none_right_eq_some] at h
  rw [← Option.some.inj h.2.2.2]
  funext k
  unfold bootSector
  by_cases hk : k < d.blockSize
  · rw [if_pos (by omega), if_pos hk, Nat.div_eq_of_lt hk, Nat.mod_eq_of_lt hk, Nat.add_zero,
      Nat.mod_eq_of_lt hlt]
  · rw [if_neg (by omega), if_neg hk]

lemma loadFatTable_fst {k : ℕ → Bool} {d : Disk} {m : Buffer} {fs f' : Fat32Fs}
    {f : FatTable} (h : loadFatTable k d m fs = some (f', f)) :
    k (fs.fatSizeSectors * fs.bytesPerSector) = true ∧
      f' = { fs with maxClusterIndex := fs.fatSizeSectors * fs.bytesPerSector / 4 % 2 ^ 32 } := by
  unfold loadFatTable at h
  dsimp only at h
  split_ifs at h with hk
  split at h
  · simp at h
  · exact ⟨hk, (congrArg Prod.fst (Option.some.inj h)).symm⟩

/-- What a successful mount says about the geometry of the volume. -/
structure Mounted (kmalloc : ℕ → Bool) (device : Device) (bpb : Bpb) (partition : GptEntry)
    (fs : Fat32Fs) : Prop where
  valid : validateBpb bpb device = true
  ordered : partition.firstLba.toNat < partition.lastLba.toNat
  device_eq : fs.device = device
  start : fs.partitionStartLba = partition.firstLba.toNat
  count : fs.partitionBlockCount = partition.lastLba.toNat - partition.firstLba.toNat + 1
  perCluster : fs.sectorsPerCluster = bpb.sectorsPerCluster.toNat
  bytesPerSector : fs.bytesPerSector = bpb.bytesPerSector.toNat
  clusterSize : fs.clusterSizeBytes = fs.bytesPerSector * fs.sectorsPerCluster
  dataStart : fs.dataStartLba = bpb.dataStart partition
  maxCluster : fs.maxClusterIndex = bpb.fatEntries
  allocated : kmalloc (bpb.fatSize32.toNat * bpb.bytesPerSector.toNat) = true

lemma mountFromPartition_mounted {k : ℕ → Bool} {d : Device} {ds : Disk}
    {p : GptEntry} {s m : Buffer} {fs : Fat32Fs} {f : FatTable}
    (h : mountFromPartition k d ds p s m = some (fs, f)) :
    Mounted k d (Bpb.ofSector (bootSector d ds p s)) p fs := by
  rw [mountFromPartition, ite_none_left_eq_some] at h
  obtain ⟨h0, h⟩ := h
  cases hr : blockDeviceRead d ds p.firstLba.toNat s 1 with
  | none => simp [hr] at h
  | some sector =>
  simp only [hr, blockDeviceRead_one hr, ite_none_left_eq_some] at h
  obtain ⟨_, hv, _, h⟩ := h
  obtain ⟨ha, rfl⟩ := loadFatTable_fst h
  generalize Bpb.ofSector (bootSector d ds p s) = bpb at *
  obtain ⟨_, hl⟩ := not_or.1 h0
  have hlt : p.firstLba.toNat < p.lastLba.toNat := UInt64.lt_iff_toNat_lt.1 (UInt64.not_le.1 hl)
  have := p.lastLba.toNat_lt
  have h1 := bpb.numFats.toNat_lt
  have h2 := bpb.fatSize32.toNat_lt
  exact {
    valid := by simpa using hv
    ordered := hlt
    device_eq := rfl
    start := rfl
    count := by
      have hle : p.firstLba ≤ p.lastLba := UInt64.le_iff_toNat_le.2 hlt.le
      have : 0 < p.firstLba.toNat := by
        rcases Nat.eq_zero_or_pos p.firstLba.toNat with hz | hz
        · exact absurd (UInt64.toNat_inj.1 (by simpa using hz)) (not_or.1 h0).1
        · exact hz
      simp only [UInt64.toNat_add, UInt64.toNat_sub_of_le _ _ hle, UInt64.toNat_one]
      omega
    perCluster := rfl
    bytesPerSector := rfl
    clusterSize := rfl
    dataStart := by
      simp only [Bpb.dataStart, UInt64.toNat_add, UInt64.toNat_mul, UInt8.toNat_toUInt64,
        UInt16.toNat_toUInt64, UInt32.toNat_toUInt64]
      omega
    maxCluster := rfl
    allocated := ha }

/-- **A mounted volume addresses only sectors of its partition iff the clusters
of its FAT fit there.** -/
theorem mountFromPartition_inside_iff {kmalloc : ℕ → Bool} {device : Device} {disk : Disk}
    {partition : GptEntry} {sectorBuffer memory : Buffer} {fs : Fat32Fs} {fat : FatTable}
    (h : mountFromPartition kmalloc device disk partition sectorBuffer memory = some (fs, fat)) :
    fs.InsidePartition ↔
      ClustersFit (Bpb.ofSector (bootSector device disk partition sectorBuffer)) partition := by
  have hm := mountFromPartition_mounted h
  generalize Bpb.ofSector (bootSector device disk partition sectorBuffer) = bpb at *
  have := hm.ordered
  unfold Fat32Fs.InsidePartition ClustersFit
  rw [hm.start, hm.count, hm.perCluster, hm.dataStart, hm.maxCluster]
  constructor
  · intro hin
    by_cases h2 : bpb.fatEntries ≤ 2
    · exact .inl h2
    · -- the last cluster of the FAT decides
      right
      have := hin (bpb.fatEntries - 1) (by omega) (by omega)
      have hmul : (bpb.fatEntries - 2) * bpb.sectorsPerCluster.toNat =
          (bpb.fatEntries - 1 - 2) * bpb.sectorsPerCluster.toNat + bpb.sectorsPerCluster.toNat := by
        rw [← Nat.succ_mul]; congr 1; omega
      omega
  rintro (h2 | hf) c hc hmax
  · omega
  have hmul : (c - 2) * bpb.sectorsPerCluster.toNat + bpb.sectorsPerCluster.toNat ≤
      (bpb.fatEntries - 2) * bpb.sectorsPerCluster.toNat := by
    rw [← Nat.succ_mul]
    exact Nat.mul_le_mul_right _ (by omega)
  omega

/-! ## Two boot sectors -/

/-- A disk of 512-byte blocks whose block 2048 is a boot sector: one sector a
cluster, 32 reserved sectors, one FAT of `256 * hi + lo` sectors, 70000
sectors in all. -/
def bootDisk (lo hi : UInt8) : Disk := fun lba k =>
  if lba = 2048 then
    match k with
    | 12 => 0x02
    | 13 => 1
    | 14 => 32
    | 16 => 1
    | 32 => 0x70
    | 33 => 0x11
    | 34 => 0x01
    | 36 => lo
    | 37 => hi
    | 44 => 2
    | 510 => 0x55
    | 511 => 0xAA
    | _ => 0
  else 0

/-- A reliable device of `2^20` blocks of 512 bytes. -/
def bootDevice : Device where
  blockSize := 512
  blockCount := 2 ^ 20
  readOk := fun _ => true
  getOk := fun _ => true
  writeOk := fun _ => true

/-- The partition of 70000 blocks that starts at block 2048. -/
def bootPartition : GptEntry := { firstLba := 2048, lastLba := 72047 }

/-- With a FAT of 512 sectors (65536 clusters) the volume stays inside. -/
theorem mountFromPartition_inside_iff_small :
    ∃ fs fat, mountFromPartition (fun _ => true) bootDevice (bootDisk 0 2) bootPartition
        (fun _ => 0) (fun _ => 0) = some (fs, fat) ∧ fs.InsidePartition := by
  obtain ⟨⟨fs, fat⟩, h⟩ := isSome_iff_exists.1
    (by decide +kernel : (mountFromPartition (fun _ => true) bootDevice (bootDisk 0 2) bootPartition
      (fun _ => 0) (fun _ => 0)).isSome = true)
  exact ⟨fs, fat, h, (mountFromPartition_inside_iff h).2 (.inr (by decide +kernel))⟩

/-- With a FAT of 1000 sectors (128000 clusters) it does not: cluster 127999
lies 59030 sectors behind the partition. -/
theorem mountFromPartition_beyond :
    ∃ fs fat, mountFromPartition (fun _ => true) bootDevice (bootDisk 0xE8 3) bootPartition
        (fun _ => 0) (fun _ => 0) = some (fs, fat) ∧ ¬ fs.InsidePartition := by
  obtain ⟨⟨fs, fat⟩, h⟩ := isSome_iff_exists.1
    (by decide +kernel : (mountFromPartition (fun _ => true) bootDevice (bootDisk 0xE8 3) bootPartition
      (fun _ => 0) (fun _ => 0)).isSome = true)
  have hm := mountFromPartition_mounted h
  refine ⟨fs, fat, h, fun hin => ?_⟩
  have hl := hin 127999 (by omega) (by rw [hm.maxCluster]; decide +kernel)
  rw [hm.start, hm.count, hm.perCluster, hm.dataStart] at hl
  exact absurd hl (by decide +kernel)
end Menios.Fat32
