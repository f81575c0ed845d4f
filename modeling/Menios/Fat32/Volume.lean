import Menios.Common.Chain
import Menios.Fat32.Mount

/-!
# The state of a mounted volume

A mounted volume is the FAT in memory and the blocks of the device. Models of
the functions that touch either: `fat32_get_fat_entry` to `fat32_zero_cluster`
(`src/kernel/fs/fat32/fat32.c`, lines 414-560).

The layers above see a volume through two functions only: `link`, what the FAT
says about a cluster, and `data`, the bytes of a cluster. Each lemma here says
what a function does to these two.

A cluster buffer that cannot be allocated has the effect of a cluster that
cannot be read, so `kmalloc` is not modelled here.
-/

namespace Menios.Fat32
open Common List Nat Function

/-! ## Model -/

/-- `FAT32_EOC_MARK`. -/
def eocMark : ℕ := 0x0FFFFFF8

/-- `FAT32_BAD_CLUSTER`. -/
def badCluster : ℕ := 0x0FFFFFF7

/-- A mounted volume. `exhausted` is a history variable: it records that
`fat32_allocate_cluster` has returned 0. -/
structure Volume where
  fs : Fat32Fs
  fat : FatTable
  disk : Disk
  exhausted : Bool

/-- The clusters the FAT describes, `cluster >= 2u && cluster < fs->max_cluster_index`. -/
abbrev Fat32Fs.InRange (fs : Fat32Fs) (cluster : ℕ) : Prop :=
  2 ≤ cluster ∧ cluster < fs.maxClusterIndex

/-- The test with which every walk along a chain ends,
`next >= FAT32_EOC_MARK || next == FAT32_BAD_CLUSTER || next < 2u`. -/
abbrev EndsChain (next : ℕ) : Prop := next ≥ eocMark ∨ next = badCluster ∨ next < 2

variable (v : Volume)
/-- `fat32_get_fat_entry` (lines 414-420). -/
def getFatEntry (cluster : ℕ) : ℕ :=
  if cluster ≥ v.fs.maxClusterIndex then badCluster else v.fat cluster % 2 ^ 28

/-- `fat32_set_fat_entry` (lines 422-428). -/
def setFatEntry (cluster value : ℕ) : Volume :=
  if cluster ≥ v.fs.maxClusterIndex then v
  else { v with fat := update v.fat cluster (value % 2 ^ 28) }

/-- `fat32_allocate_cluster` (lines 430-443). -/
def allocateCluster : ℕ × Volume :=
  match (List.range' 2 (v.fs.maxClusterIndex - 2)).find? fun cluster => v.fat cluster % 2 ^ 28 = 0 with
  | some cluster => (cluster, { v with fat := update v.fat cluster eocMark })
  | none => (0, { v with exhausted := true })

/-- `fat32_free_cluster_chain` (lines 445-455), for at most `fuel` turns. -/
def freeClusterChain : ℕ → Volume → ℕ → Option Volume
  | 0, _, _ => none
  | fuel + 1, v, cluster =>
    if v.fs.InRange cluster then
      let next := getFatEntry v cluster
      let v := setFatEntry v cluster 0
      if EndsChain next then some v else freeClusterChain fuel v next
    else some v

/-- The bytes of `fs->fat_table`. -/
def fatBytes (fat : FatTable) : Buffer := fun k => UInt8.ofNat (fat (k / 4) / 256 ^ (k % 4))

/-- The loop of `fat32_flush_fat` over the copies of the FAT. -/
def flushLoop (fs : Fat32Fs) (src : Buffer) : List ℕ → Disk → Bool × Disk
  | [], disk => (true, disk)
  | fatIndex :: rest, disk =>
    let lba := (fs.fatStartLba + fatIndex * fs.fatSizeSectors) % 2 ^ 64
    match blockDeviceWrite fs.device disk lba src fs.fatSizeSectors with
    | (true, disk) => flushLoop fs src rest disk
    | (false, disk) => (false, disk)

/-- `fat32_flush_fat` (lines 457-469). -/
def flushFat : Bool × Volume :=
  let r := flushLoop v.fs (fatBytes v.fat) (List.range v.fs.numFats) v.disk
  (r.1, { v with disk := r.2 })

variable (fs : Fat32Fs)
/-- The first block of a cluster (line 480). -/
def Fat32Fs.clusterLba (cluster : ℕ) : ℕ :=
  (fs.dataStartLba + (cluster - 2) * fs.sectorsPerCluster) % 2 ^ 64

/-- `fat32_read_cluster` (lines 471-495). The buffer has
`sectors_per_cluster * block_size` bytes. -/
def readCluster (cluster : ℕ) : Option Buffer :=
  if cluster < 2 then none
  else if v.fs.device.blockSize = 0 then none
  else
    let lba := v.fs.clusterLba cluster
    let sectorSize := v.fs.device.blockSize
    if (List.range v.fs.sectorsPerCluster).all fun i => v.fs.device.readOk ((lba + i) % 2 ^ 64) then
      some fun k =>
        if k < v.fs.sectorsPerCluster * sectorSize then
          v.disk ((lba + k / sectorSize) % 2 ^ 64) (k % sectorSize)
        else 0
    else none

/-- `fat32_write_cluster` (lines 497-528). -/
def writeCluster (cluster : ℕ) (buffer : Buffer) : Bool × Volume :=
  if cluster < 2 then (false, v)
  else if v.fs.device.blockSize = 0 then (false, v)
  else
    let r := storeBlocks v.fs.device v.fs.device.writeOk (v.fs.clusterLba cluster) buffer
      (List.range v.fs.sectorsPerCluster) v.disk
    (r.1, { v with disk := r.2 })

/-- `fat32_zero_cluster` (lines 530-560). -/
def zeroCluster (cluster : ℕ) : Bool × Volume := writeCluster v cluster fun _ => 0

/-! ## The volume as the layers above see it -/

/-- What a FAT entry with the value `entry` means. -/
def linkOf (entry : ℕ) : Link ℕ :=
  if entry = 0 then .free
  else if eocMark ≤ entry then .last
  else if fs.InRange entry then .next entry
  else .broken

/-- What the FAT says about a cluster. -/
def Volume.link (cluster : ℕ) : Link ℕ :=
  if v.fs.InRange cluster then linkOf v.fs (getFatEntry v cluster) else .broken

/-- A buffer of `n` bytes, with zeros behind it. -/
def clip (n : ℕ) (buffer : Buffer) : Buffer := fun k => if k < n then buffer k else 0

/-- The bytes of a cluster. -/
def Volume.data (cluster : ℕ) : Buffer :=
  if v.fs.InRange cluster then
    clip v.fs.clusterSizeBytes fun k =>
      v.disk ((v.fs.clusterLba cluster + k / v.fs.bytesPerSector) % 2 ^ 64) (k % v.fs.bytesPerSector)
  else fun _ => 0

/-- The geometry a FAT32 volume has: sectors of at least 512 bytes, no entry of
the FAT that looks like a mark, and the clusters behind the copies of the
FAT, with block numbers that fit in 64 bits. -/
structure Fat32Fs.Sound (fs : Fat32Fs) : Prop where
  blockSize : fs.device.blockSize = fs.bytesPerSector
  sector : 512 ≤ fs.bytesPerSector
  perCluster : 0 < fs.sectorsPerCluster
  clusterSize : fs.clusterSizeBytes = fs.sectorsPerCluster * fs.bytesPerSector
  small : fs.clusterSizeBytes < 2 ^ 32
  marks : fs.maxClusterIndex ≤ badCluster
  fats : fs.fatStartLba + fs.numFats * fs.fatSizeSectors ≤ fs.dataStartLba
  blocks : fs.dataStartLba + (fs.maxClusterIndex - 2) * fs.sectorsPerCluster ≤ 2 ^ 64

/-- Every block of the volume can be read and written. -/
structure Fat32Fs.Reliable (fs : Fat32Fs) : Prop where
  read : ∀ c, fs.InRange c → ∀ i < fs.sectorsPerCluster,
    fs.device.readOk (fs.clusterLba c + i) = true
  write : ∀ c, fs.InRange c → ∀ i < fs.sectorsPerCluster,
    fs.device.getOk (fs.clusterLba c + i) = true ∧ fs.device.writeOk (fs.clusterLba c + i) = true
  fat : ∀ i < fs.numFats * fs.fatSizeSectors, fs.device.getOk (fs.fatStartLba + i) = true
  fatSize : 0 < fs.fatSizeSectors
  inside : fs.dataStartLba ≤ fs.device.blockCount

/-! ## Links -/

lemma clip_apply_of_lt {n k : ℕ} (h : k < n) (b : Buffer) : clip n b k = b k := if_pos h

@[simp] lemma clip_clip (n : ℕ) (buffer : Buffer) : clip n (clip n buffer) = clip n buffer := by
  funext k
  simp only [clip]
  split_ifs <;> rfl

variable {v : Volume}
lemma getFatEntry_of_lt {c : ℕ} (h : c < v.fs.maxClusterIndex) :
    getFatEntry v c = v.fat c % 2 ^ 28 :=
  if_neg (by omega)

open Volume

lemma Volume.link_congr {v v' : Volume} (hfs : v'.fs = v.fs) (hf : v'.fat = v.fat) :
    v'.link = v.link := by
  funext c
  simp only [link, getFatEntry, hfs, hf]

section
variable {v : Volume} (hs : v.fs.Sound)
lemma inRange_of_link {c : ℕ} (h : v.link c ≠ .broken) : v.fs.InRange c := by
  by_contra hc
  exact h (if_neg hc)

include hs in
/-- A link in the range is the number that `fat32_get_fat_entry` returns, and no
walk stops at it. -/
lemma link_eq_next {c d : ℕ} (h : v.link c = .next d) :
    v.fs.InRange c ∧ getFatEntry v c = d ∧ v.fs.InRange d ∧ ¬ EndsChain d := by
  have hc := inRange_of_link (v := v) (c := c) (by rw [h]; simp)
  rw [link, if_pos hc, linkOf] at h
  split_ifs at h with h0 h1 h2
  rw [Link.next.injEq] at h
  subst h
  have := hs.marks
  refine ⟨hc, rfl, h2, ?_⟩
  unfold EndsChain
  unfold eocMark at *
  unfold badCluster at *
  omega

lemma link_eq_last {c : ℕ} (h : v.link c = .last) :
    v.fs.InRange c ∧ EndsChain (getFatEntry v c) := by
  have hc := inRange_of_link (v := v) (c := c) (by rw [h]; simp)
  rw [link, if_pos hc, linkOf] at h
  split_ifs at h with h0 h1
  exact ⟨hc, .inl h1⟩

lemma link_eq_free_iff {c : ℕ} : v.link c = .free ↔ v.fs.InRange c ∧ v.fat c % 2 ^ 28 = 0 := by
  constructor
  · intro h
    have hc := inRange_of_link (v := v) (c := c) (by rw [h]; simp)
    rw [link, if_pos hc, linkOf, getFatEntry_of_lt hc.2] at h
    split_ifs at h with h0
    exact ⟨hc, h0⟩
  rintro ⟨hc, h0⟩
  rw [link, if_pos hc, getFatEntry_of_lt hc.2, h0, linkOf, if_pos rfl]
end

/-! ## Changes of the FAT -/

@[simp] lemma setFatEntry_fs (c x : ℕ) : (setFatEntry v c x).fs = v.fs := by
  unfold setFatEntry; split_ifs <;> rfl

@[simp] lemma setFatEntry_disk (c x : ℕ) : (setFatEntry v c x).disk = v.disk := by
  unfold setFatEntry; split_ifs <;> rfl

@[simp] lemma setFatEntry_exhausted (c x : ℕ) : (setFatEntry v c x).exhausted = v.exhausted := by
  unfold setFatEntry; split_ifs <;> rfl

lemma Volume.data_congr {v v' : Volume} (hf : v'.fs = v.fs) (hdi : v'.disk = v.disk) :
    v'.data = v.data := by
  funext c
  simp only [data, hf, hdi]

@[simp] lemma data_setFatEntry (c x : ℕ) : (setFatEntry v c x).data = v.data :=
  data_congr (by simp) (by simp)

lemma link_setFatEntry {c : ℕ} (hc : v.fs.InRange c) (x : ℕ) :
    (setFatEntry v c x).link = update v.link c (linkOf v.fs (x % 2 ^ 28)) := by
  have hset : setFatEntry v c x = { v with fat := update v.fat c (x % 2 ^ 28) } := if_neg (by omega)
  funext d
  simp only [hset, link, getFatEntry]
  by_cases hd : d = c
  · rw [hd, update_self, update_self, if_pos hc, if_neg (by omega), mod_mod]
  rw [update_of_ne hd, update_of_ne hd]
  rfl

lemma linkOf_zero : linkOf fs (0 % 2 ^ 28) = .free := by simp [linkOf]

lemma linkOf_eocMark : linkOf fs (eocMark % 2 ^ 28) = .last := by simp [linkOf, eocMark]

lemma linkOf_cluster {fs : Fat32Fs} (hs : fs.Sound) {d : ℕ} (hd : fs.InRange d) :
    linkOf fs (d % 2 ^ 28) = .next d := by
  have hm := hs.marks
  unfold badCluster at hm
  rw [mod_eq_of_lt (by omega), linkOf, if_neg (by omega), if_neg (by unfold eocMark; omega),
    if_pos hd]

/-- **An allocated cluster** was free, and now ends a chain. -/
lemma allocateCluster_cases : (∃ c, v.link c = .free ∧ (allocateCluster v).1 = c ∧
        (allocateCluster v).2.link = update v.link c .last ∧
        (allocateCluster v).2.exhausted = v.exhausted) ∨
      ((allocateCluster v).1 = 0 ∧ (allocateCluster v).2 = { v with exhausted := true }) := by
  unfold allocateCluster
  cases hf : (List.range' 2 (v.fs.maxClusterIndex - 2)).find? fun c => v.fat c % 2 ^ 28 = 0 with
  | none => exact .inr ⟨rfl, rfl⟩
  | some c =>
    left
    have hfr : v.fat c % 2 ^ 28 = 0 := by simpa using List.find?_some hf
    have hmem := mem_range'_1.1 (List.mem_of_find?_eq_some hf)
    have hc : v.fs.InRange c := ⟨hmem.1, by omega⟩
    refine ⟨c, link_eq_free_iff.2 ⟨hc, hfr⟩, rfl, ?_, rfl⟩
    funext d
    simp only [link, getFatEntry]
    by_cases hd : d = c
    · rw [hd, update_self, update_self, if_pos hc, if_neg (by omega)]
      exact linkOf_eocMark _
    rw [update_of_ne hd, update_of_ne hd]
    rfl

@[simp] lemma allocateCluster_fs : (allocateCluster v).2.fs = v.fs := by
  unfold allocateCluster; split <;> rfl

@[simp] lemma data_allocateCluster : (allocateCluster v).2.data = v.data := by
  unfold allocateCluster; split <;> rfl

/-- **Freeing a chain** frees its clusters and nothing else. -/
lemma freeClusterChain_spec : ∀ {l : List ℕ} {f : ℕ} {v : Volume} {c : ℕ}, v.fs.Sound →
    IsChain v.link (c :: l) → (c :: l).length ≤ f →
      ∃ v', freeClusterChain f v c = some v' ∧ v'.fs = v.fs ∧ v'.disk = v.disk ∧
        v'.exhausted = v.exhausted ∧ ∀ d, v'.link d = if d ∈ c :: l then .free else v.link d := by
  intro l
  induction l with
  | nil =>
    intro f v c hs hch hf
    obtain ⟨f, rfl⟩ : ∃ n, f = n + 1 := ⟨f - 1, by simp at hf; omega⟩
    cases hch with
    | last h0 =>
      obtain ⟨hc, he⟩ := link_eq_last h0
      refine ⟨setFatEntry v c 0, ?_, by simp, by simp, by simp, fun d => ?_⟩
      · simp only [freeClusterChain, if_pos hc, if_pos he]
      · simp only [link_setFatEntry hc, linkOf_zero, update_apply, mem_singleton]
  | cons b l ih =>
    intro f v c hs hch hf
    obtain ⟨f, rfl⟩ : ∃ n, f = n + 1 := ⟨f - 1, by simp at hf; omega⟩
    have hnd := hch.nodup
    cases hch with
    | cons h0 hch =>
      obtain ⟨hc, hget, hb, he⟩ := link_eq_next hs h0
      have hl : (setFatEntry v c 0).link = update v.link c .free := by
        rw [link_setFatEntry hc, linkOf_zero]
      have hc' : IsChain (setFatEntry v c 0).link (b :: l) := by
        refine hch.congr fun a ha => ?_
        rw [hl, update_of_ne]
        rintro rfl
        exact (nodup_cons.1 hnd).1 ha
      obtain ⟨v', h1, h2, h3, h4, h5⟩ := ih (v := setFatEntry v c 0) (by simpa using hs) hc'
        (by simp at hf ⊢; omega)
      refine ⟨v', ?_, by simpa using h2, by simpa using h3, by simpa using h4, fun d => ?_⟩
      · simp only [freeClusterChain, if_pos hc, hget, if_neg he, h1]
      rw [h5 d, hl, update_apply]
      simp only [mem_cons]
      by_cases hd : d = c
      · simp [hd]
      · simp [hd]

/-! ## Reading and writing clusters -/

lemma mul_add_le {i n : ℕ} (s : ℕ) (hi : i < n) : i * s + s ≤ n * s := by
  rw [← succ_mul]
  exact Nat.mul_le_mul_right _ hi

section
variable {fs : Fat32Fs} (hs : fs.Sound) {c d i j : ℕ}
include hs
lemma clusterLba_eq (hc : fs.InRange c) :
    fs.clusterLba c = fs.dataStartLba + (c - 2) * fs.sectorsPerCluster := by
  have := hs.blocks
  have := hs.perCluster
  have := mul_add_le fs.sectorsPerCluster (show c - 2 < fs.maxClusterIndex - 2 by omega)
  exact mod_eq_of_lt (by omega)

lemma clusterLba_add_lt (hc : fs.InRange c) (hi : i < fs.sectorsPerCluster) :
    fs.clusterLba c + i < 2 ^ 64 := by
  have := hs.blocks
  have := mul_add_le fs.sectorsPerCluster (show c - 2 < fs.maxClusterIndex - 2 by omega)
  rw [clusterLba_eq hs hc]
  omega

lemma clusterLba_add_ne (hc : fs.InRange c) (hd : fs.InRange d) (hne : d ≠ c)
    (hi : i < fs.sectorsPerCluster) (hj : j < fs.sectorsPerCluster) :
    fs.clusterLba d + j ≠ fs.clusterLba c + i := by
  rw [clusterLba_eq hs hc, clusterLba_eq hs hd]
  intro he
  have hlt : ∀ a b x y : ℕ, a < b → x < fs.sectorsPerCluster →
      a * fs.sectorsPerCluster + x ≠ b * fs.sectorsPerCluster + y := by
    intro a b x y hab hx
    have := Nat.mul_le_mul_right fs.sectorsPerCluster (succ_le_of_lt hab)
    rw [succ_mul] at this
    omega
  rcases Nat.lt_or_gt_of_ne hne with hl' | hl'
  · exact hlt (d - 2) (c - 2) j i (by omega) hj (by omega)
  · exact hlt (c - 2) (d - 2) i j (by omega) hi (by omega)

lemma div_lt_sectors {k : ℕ} (hk : k < fs.clusterSizeBytes) :
    k / fs.bytesPerSector < fs.sectorsPerCluster := by
  rw [hs.clusterSize] at hk
  exact Nat.div_lt_of_lt_mul (by rwa [Nat.mul_comm])
end

lemma readCluster_eq (hs : v.fs.Sound) (hr : v.fs.Reliable) {c : ℕ}
    (hc : v.fs.InRange c) : readCluster v c = some (v.data c) := by
  have := hs.sector
  have hsize := hs.blockSize
  have ha : ((List.range v.fs.sectorsPerCluster).all fun i =>
      v.fs.device.readOk ((v.fs.clusterLba c + i) % 2 ^ 64)) = true := by
    rw [all_eq_true]
    intro i hi
    rw [mem_range] at hi
    rw [mod_eq_of_lt (clusterLba_add_lt hs hc hi)]
    exact hr.read c hc i hi
  rw [readCluster, if_neg (by omega), if_neg (by omega)]
  rw [if_pos ha, data, if_pos hc, hs.clusterSize, hsize]
  rfl

@[simp] lemma writeCluster_fs (c : ℕ) (b : Buffer) : (writeCluster v c b).2.fs = v.fs := by
  unfold writeCluster; split_ifs <;> rfl

@[simp] lemma writeCluster_fat (c : ℕ) (b : Buffer) : (writeCluster v c b).2.fat = v.fat := by
  unfold writeCluster; split_ifs <;> rfl

@[simp] lemma writeCluster_exhausted (c : ℕ) (b : Buffer) :
    (writeCluster v c b).2.exhausted = v.exhausted := by
  unfold writeCluster; split_ifs <;> rfl

@[simp] lemma link_writeCluster (c : ℕ) (b : Buffer) : (writeCluster v c b).2.link = v.link :=
  link_congr (by simp) (by simp)

section
variable {v : Volume} (hs : v.fs.Sound) (hr : v.fs.Reliable) {c : ℕ} (hc : v.fs.InRange c)
include hs hr hc
lemma storeBlocks_cluster (b : Buffer) :
    (storeBlocks v.fs.device v.fs.device.writeOk (v.fs.clusterLba c) b
        (List.range v.fs.sectorsPerCluster) v.disk).1 = true ∧
      ∀ i ∈ List.range v.fs.sectorsPerCluster, ∀ k < v.fs.device.blockSize,
        (storeBlocks v.fs.device v.fs.device.writeOk (v.fs.clusterLba c) b
          (List.range v.fs.sectorsPerCluster) v.disk).2 (v.fs.clusterLba c + i) k =
            b (i * v.fs.device.blockSize + k) :=
  storeBlocks_spec v.disk nodup_range
    (fun _ hi => clusterLba_add_lt hs hc (mem_range.1 hi))
    (fun i hi => hr.write c hc i (mem_range.1 hi))

@[simp] lemma writeCluster_fst (b : Buffer) : (writeCluster v c b).1 = true := by
  have := hs.sector
  have := hs.blockSize
  rw [writeCluster, if_neg (by omega), if_neg (by omega)]
  exact (storeBlocks_cluster hs hr hc b).1

/-- **A written cluster** holds the buffer; the other clusters keep their bytes. -/
lemma data_writeCluster (b : Buffer) :
    (writeCluster v c b).2.data = update v.data c (clip v.fs.clusterSizeBytes b) := by
  have := hs.sector
  have hsize := hs.blockSize
  have hdi : (writeCluster v c b).2.disk = (storeBlocks v.fs.device v.fs.device.writeOk
      (v.fs.clusterLba c) b (List.range v.fs.sectorsPerCluster) v.disk).2 := by
    rw [writeCluster, if_neg (by omega), if_neg (by omega)]
  funext d
  rw [data, writeCluster_fs, hdi]
  by_cases hd : v.fs.InRange d
  · rw [if_pos hd]
    by_cases hdc : d = c
    · subst hdc
      rw [update_self]
      funext k
      simp only [clip]
      split_ifs with hk
      · have hi := div_lt_sectors hs hk
        rw [mod_eq_of_lt (clusterLba_add_lt hs hd hi),
          (storeBlocks_cluster hs hr hd b).2 _ (mem_range.2 hi) _
            (by rw [hsize]; exact mod_lt _ (by omega)), hsize, Nat.mul_comm, div_add_mod]
      · rfl
    · rw [update_of_ne hdc, data, if_pos hd]
      funext k
      simp only [clip]
      split_ifs with hk
      · have hj := div_lt_sectors hs hk
        rw [mod_eq_of_lt (clusterLba_add_lt hs hd hj), storeBlocks_of_ne]
        intro i hi
        rw [mem_range] at hi
        rw [mod_eq_of_lt (clusterLba_add_lt hs hc hi)]
        exact clusterLba_add_ne hs hc hd hdc hi hj
      · rfl
  have hdc : d ≠ c := fun h => hd (h ▸ hc)
  rw [if_neg hd, update_of_ne hdc, data, if_neg hd]
end

/-! ## A volume with given clusters -/

/-- A volume of `maxClusterIndex - 2` clusters with one FAT, behind one reserved
sector, on a device that never fails. -/
def sampleFs (bytesPerSector sectorsPerCluster maxClusterIndex : ℕ) : Fat32Fs where
  device := {
    blockSize := bytesPerSector
    blockCount := 2 ^ 40
    readOk := fun _ => true
    getOk := fun _ => true
    writeOk := fun _ => true }
  partitionStartLba := 1
  partitionBlockCount := 2 ^ 40 - 1
  bytesPerSector := bytesPerSector
  sectorsPerCluster := sectorsPerCluster
  reservedSectors := 1
  numFats := 1
  fatSizeSectors := 4 * maxClusterIndex / bytesPerSector + 1
  rootCluster := 2
  fatStartLba := 2
  dataStartLba := 2 + (4 * maxClusterIndex / bytesPerSector + 1)
  clusterSizeBytes := sectorsPerCluster * bytesPerSector
  maxClusterIndex := maxClusterIndex

lemma sampleFs_sound {b s n : ℕ} (hb : 512 ≤ b) (hspc : 0 < s) (hsize : s * b < 2 ^ 32)
    (hn : n ≤ badCluster) : (sampleFs b s n).Sound where
  blockSize := rfl
  sector := hb
  perCluster := hspc
  clusterSize := rfl
  small := hsize
  marks := hn
  fats := by simp [sampleFs]
  blocks := by
    have : 4 * n / b ≤ 4 * n := Nat.div_le_self _ _
    have h2 : (n - 2) * s ≤ badCluster * 2 ^ 32 := by
      refine Nat.mul_le_mul (by omega) ?_
      exact (Nat.le_mul_of_pos_right s (by omega)).trans hsize.le
    simp only [sampleFs]
    unfold badCluster at hn h2
    omega

/-- The volume with a given FAT and given cluster contents. -/
def volumeOf (fat : FatTable) (content : ℕ → Buffer) : Volume where
  fs := fs
  fat := fat
  disk := fun lba k => content (2 + (lba - fs.dataStartLba) / fs.sectorsPerCluster)
    ((lba - fs.dataStartLba) % fs.sectorsPerCluster * fs.bytesPerSector + k)
  exhausted := false

lemma data_volumeOf {fs : Fat32Fs} (hs : fs.Sound) (f : FatTable) (cn : ℕ → Buffer) {c : ℕ}
    (hc : fs.InRange c) : (volumeOf fs f cn).data c = clip fs.clusterSizeBytes (cn c) := by
  rw [data, if_pos (show (volumeOf fs f cn).fs.InRange c from hc)]
  funext k
  show (if k < fs.clusterSizeBytes then _ else _) = if k < fs.clusterSizeBytes then _ else _
  split_ifs with hk
  · have hi := div_lt_sectors hs hk
    simp only [volumeOf]
    rw [mod_eq_of_lt (clusterLba_add_lt hs hc hi), clusterLba_eq hs hc]
    have hsub : fs.dataStartLba + (c - 2) * fs.sectorsPerCluster + k / fs.bytesPerSector -
        fs.dataStartLba = fs.sectorsPerCluster * (c - 2) + k / fs.bytesPerSector := by
      rw [Nat.add_assoc, Nat.add_sub_cancel_left, Nat.mul_comm]
    rw [hsub, mul_add_div hs.perCluster, div_eq_of_lt hi, mul_add_mod,
      mod_eq_of_lt hi, div_add_mod']
    congr 1
    omega
  · rfl

lemma sampleFs_reliable {b s n : ℕ} (h : (sampleFs b s n).dataStartLba ≤ 2 ^ 40) :
    (sampleFs b s n).Reliable where
  read := fun _ _ _ _ => rfl
  write := fun _ _ _ _ => ⟨rfl, rfl⟩
  fat := fun _ _ => rfl
  fatSize := succ_pos _
  inside := h

/-! ## Writing the FAT back -/

@[simp] lemma flushFat_fs : (flushFat v).2.fs = v.fs := rfl

lemma flushLoop_of_ne {fs : Fat32Fs} (hs : fs.Sound) {s : Buffer} {l : ℕ}
    (hl : fs.dataStartLba ≤ l) : ∀ {is : List ℕ} {ds : Disk}, (∀ i ∈ is, i < fs.numFats) →
      (flushLoop fs s is ds).2 l = ds l := by
  intro is
  induction is with
  | nil => intro ds _; rfl
  | cons i is ih =>
    intro ds hi
    have := mul_add_le fs.fatSizeSectors (hi i (by simp))
    have := hs.fats
    have hw : (blockDeviceWrite fs.device ds ((fs.fatStartLba + i * fs.fatSizeSectors) % 2 ^ 64) s
        fs.fatSizeSectors).2 l = ds l := by
      refine blockDeviceWrite_of_ne fun j hj => ?_
      omega
    rw [flushLoop]
    split
    next d' he =>
      rw [ih fun j hj => hi j (mem_cons_of_mem _ hj)]
      rw [he] at hw
      exact hw
    next d' he =>
      rw [he] at hw
      exact hw

lemma data_flushFat (hs : v.fs.Sound) : (flushFat v).2.data = v.data := by
  funext c
  rw [data, data, flushFat_fs]
  by_cases hc : v.fs.InRange c
  · rw [if_pos hc, if_pos hc]
    funext k
    simp only [clip]
    split_ifs with hk
    · have hi := div_lt_sectors hs hk
      rw [mod_eq_of_lt (clusterLba_add_lt hs hc hi)]
      have hle : v.fs.dataStartLba ≤ v.fs.clusterLba c + k / v.fs.bytesPerSector := by
        rw [clusterLba_eq hs hc, Nat.add_assoc]
        exact Nat.le_add_right _ _
      simp only [flushFat]
      rw [flushLoop_of_ne hs hle fun i hi => mem_range.1 hi]
    · rfl
  · rw [if_neg hc, if_neg hc]

lemma flushLoop_fst {fs : Fat32Fs} (hs : fs.Sound) (hr : fs.Reliable) {s : Buffer} :
    ∀ {is : List ℕ} {ds : Disk}, (∀ i ∈ is, i < fs.numFats) → (flushLoop fs s is ds).1 = true := by
  intro is
  induction is with
  | nil => intro ds _; rfl
  | cons i is ih =>
    intro ds hi
    have := mul_add_le fs.fatSizeSectors (hi i (by simp))
    have := hs.fats
    have := hs.blocks
    have := hr.fatSize
    have hl : (fs.fatStartLba + i * fs.fatSizeSectors) % 2 ^ 64 = fs.fatStartLba + i * fs.fatSizeSectors :=
      mod_eq_of_lt (by omega)
    have hin : ¬ (fs.fatStartLba + i * fs.fatSizeSectors + fs.fatSizeSectors) % 2 ^ 64 >
        fs.device.blockCount := by
      have := hr.inside
      omega
    have hst : (storeBlocks fs.device (fun _ => true) (fs.fatStartLba + i * fs.fatSizeSectors) s
        (List.range fs.fatSizeSectors) ds).1 = true := by
      refine (storeBlocks_spec ds nodup_range (fun j hj => ?_) fun j hj => ⟨?_, rfl⟩).1
      · have := mem_range.1 hj
        omega
      have := mem_range.1 hj
      rw [Nat.add_assoc]
      exact hr.fat _ (by omega)
    have hwr : (blockDeviceWrite fs.device ds ((fs.fatStartLba + i * fs.fatSizeSectors) % 2 ^ 64) s
        fs.fatSizeSectors).1 = true := by
      rw [blockDeviceWrite, hl, if_neg (by omega), if_neg hin]
      exact hst
    rw [flushLoop]
    split
    next d' he => exact ih fun j hj => hi j (mem_cons_of_mem _ hj)
    next d' he =>
      rw [he] at hwr
      exact hwr

lemma flushFat_eq (hs : v.fs.Sound) (hr : v.fs.Reliable) : flushFat v = (true, (flushFat v).2) :=
  Prod.ext (flushLoop_fst hs hr fun _ hi => mem_range.1 hi) rfl
end Menios.Fat32
