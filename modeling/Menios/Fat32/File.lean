import Menios.Fat32.Traverse

/-!
# Files

Models of the functions that read and change the contents of a file:
`fat32_count_clusters`, `fat32_read_chain`, `fat32_write_chain`,
`fat32_update_dir_entry`, `fat32_adjust_file_size`
(`src/kernel/fs/fat32/fat32.c`, lines 562-581 and 2010-2322) and the calls of the
mount interface built on them, `fs_file_read` and `fs_file_write` (lines 3075-3254).

A result `none` means that a walk along a chain is still running when the fuel
is used up.
-/

namespace Menios.Fat32
open Common

/-! ## Chains -/
variable (fuel : ℕ)
/-- `fat32_count_clusters` (lines 562-581): the number of clusters and the last one. -/
def countClusters (v : Volume) (firstCluster : ℕ) : Option (ℕ × ℕ) :=
  match walkChain v (fun (st : ℕ × ℕ) cluster => (Except.ok (st.1 + 1, cluster) : Except Empty _))
      fuel firstCluster (0, 0) with
  | none => none
  | some (.ok st) => some st
  | some (.error e) => nomatch e

/-- The loop of `fat32_read_chain` (lines 2049-2084). `out` is what was copied. -/
def readChainLoop (v : Volume) (offset : ℕ) :
    ℕ → ℕ → ℕ → ℕ → List UInt8 → Option (Option (List UInt8))
  | 0, _, _, _, _ => none
  | fuel + 1, cluster, clusterIndex, remaining, out =>
    if v.fs.InRange cluster ∧ remaining > 0 then
      match readCluster v cluster with
      | none => some none
      | some clusterBuffer =>
        let clusterSize := v.fs.clusterSizeBytes
        let clusterOffset := clusterIndex * clusterSize
        if offset ≥ clusterOffset + clusterSize then
          readChainLoop v offset fuel (getFatEntry v cluster) (clusterIndex + 1) remaining out
        else
          let clusterStart := if offset > clusterOffset then offset - clusterOffset else 0
          let available := clusterSize - clusterStart
          let toCopy := if available < remaining then available else remaining
          let out := out ++ clusterBuffer.slice clusterStart toCopy
          let remaining := remaining - toCopy
          let next := getFatEntry v cluster
          if next ≥ eocMark then some (some out)
          else if next = badCluster ∨ next < 2 then some (some out)
          else readChainLoop v offset fuel next (clusterIndex + 1) remaining out
    else some (some out)

/-- `fat32_read_chain` (lines 2010-2092): the bytes that were read, `none` when a
cluster could not be read. -/
def readChain (v : Volume) (startCluster fileSize offset length : ℕ) :
    Option (Option (List UInt8)) :=
  if length = 0 then some (some [])
  else if offset > fileSize then some (some [])
  else
    let fileRemaining := fileSize - offset
    let remaining := if length > fileRemaining then fileRemaining else length
    readChainLoop v offset fuel startCluster 0 remaining []

/-- The cluster buffer of a turn of `fat32_write_chain` (lines 2145-2159): zeros
between the old end of the file and the first byte that is written, and then
`toCopy` bytes of `src`. -/
def writeBuffer (previousSize clusterSize clusterOffset start : ℕ) (src : List UInt8)
    (written toCopy : ℕ) (clusterBuffer : Buffer) : Buffer :=
  let validBytes :=
    if previousSize > clusterOffset then
      if previousSize - clusterOffset > clusterSize then clusterSize else previousSize - clusterOffset
    else 0
  let clusterBuffer :=
    if validBytes < start then clusterBuffer.zero validBytes (start - validBytes) else clusterBuffer
  clusterBuffer.blit start ((src.drop written).take toCopy)

/-- The loop of `fat32_write_chain` (lines 2121-2174): whether it ended without an
error, `written`, and the volume. -/
def writeChainLoop (previousSize offset : ℕ) (src : List UInt8) :
    ℕ → Volume → ℕ → ℕ → ℕ → Option (Bool × ℕ × Volume)
  | 0, _, _, _, _ => none
  | fuel + 1, v, cluster, clusterIndex, written =>
    if v.fs.InRange cluster ∧ written < src.length then
      match readCluster v cluster with
      | none => some (false, written, v)
      | some clusterBuffer =>
        let clusterSize := v.fs.clusterSizeBytes
        let clusterOffset := clusterIndex * clusterSize
        if offset ≥ clusterOffset + clusterSize then
          let next := getFatEntry v cluster
          if EndsChain next then some (true, written, v)
          else writeChainLoop previousSize offset src fuel v next (clusterIndex + 1) written
        else
          let start := if offset > clusterOffset then offset - clusterOffset else 0
          let available := clusterSize - start
          let remaining := src.length - written
          let toCopy := if available < remaining then available else remaining
          let clusterBuffer :=
            writeBuffer previousSize clusterSize clusterOffset start src written toCopy clusterBuffer
          match writeCluster v cluster clusterBuffer with
          | (false, v) => some (false, written, v)
          | (true, v) =>
            let written := written + toCopy
            let next := getFatEntry v cluster
            if EndsChain next then some (true, written, v)
            else writeChainLoop previousSize offset src fuel v next (clusterIndex + 1) written
    else some (true, written, v)

/-- `fat32_write_chain` (lines 2094-2182): the result, `*bytes_written` if it was
stored, and the volume. -/
def writeChain (v : Volume) (info : DirEntryInfo) (previousSize offset : ℕ)
    (src : List UInt8) : Option (Bool × Option ℕ × Volume) :=
  if src.length = 0 then some (true, some 0, v)
  else if info.firstCluster = 0 ∨ offset > info.size ∨ src.length > info.size - offset then
    some (false, none, v)
  else
    match writeChainLoop previousSize offset src fuel v info.firstCluster 0 0 with
    | none => none
    | some (false, _, v) => some (false, none, v)
    | some (true, written, v) => some (decide (written = src.length), some written, v)

/-! ## Directory entries -/

/-- Replace slot `i` of a cluster buffer. -/
def setSlot (buffer : Buffer) (i : ℕ) (entry : RawEntry) : Buffer := fun k =>
  if k / entrySize = i then entry ⟨k % entrySize, mod_entrySize_lt k⟩ else buffer k

/-- `UINT32_MAX`, which `fat32_update_dir_entry` reads as "leave the field". -/
def uint32Max : ℕ := 0xFFFFFFFF

/-- What `fat32_update_dir_entry` makes of an entry (lines 2205-2212). -/
def patchEntry (entry : RawEntry) (newFirstCluster newSize : ℕ) : RawEntry :=
  let entry := if newFirstCluster ≠ uint32Max then entry.setFirstCluster newFirstCluster else entry
  if newSize ≠ uint32Max then entry.setFileSize newSize else entry

/-- `fat32_update_dir_entry` (lines 2184-2217). -/
def updateDirEntry (v : Volume) (info : DirEntryInfo) (newFirstCluster newSize : ℕ) : Bool × Volume :=
  if info.dirCluster < 2 ∨ info.dirEntryIndex ≥ v.fs.entriesPerCluster then (false, v)
  else
    match readCluster v info.dirCluster with
    | none => (false, v)
    | some buffer =>
      let entry := patchEntry (slotAt buffer info.dirEntryIndex) newFirstCluster newSize
      writeCluster v info.dirCluster (setSlot buffer info.dirEntryIndex entry)

/-! ## The size of a file -/

/-- What `fat32_adjust_file_size` leaves: its result, `*info`, `*fat_dirty` and
the volume. -/
structure Adjusted where
  ok : Bool
  info : DirEntryInfo
  fatDirty : Bool
  volume : Volume

/-- The loop that adds clusters (lines 2247-2292); `first_new` and `last_cluster`
are 0 until there is one. -/
def growLoop (fuel : ℕ) : ℕ → ℕ → ℕ → DirEntryInfo → Volume → Option (Bool × DirEntryInfo × Volume)
  | 0, _, _, info, v => some (true, info, v)
  | n + 1, firstNew, lastCluster, info, v =>
    match allocateCluster v with
    | (newCluster, v) =>
      if newCluster = 0 then
        if firstNew ≠ 0 then
          match freeClusterChain fuel v firstNew with
          | none => none
          | some v =>
            some (false, info, if lastCluster ≠ 0 then setFatEntry v lastCluster eocMark else v)
        else some (false, info, v)
      else
        let firstNew := if firstNew = 0 then newCluster else firstNew
        let info := if lastCluster ≠ 0 then info else { info with firstCluster := newCluster }
        let v := if lastCluster ≠ 0 then setFatEntry v lastCluster newCluster else v
        let v := setFatEntry v newCluster eocMark
        match zeroCluster v newCluster with
        | (false, v) =>
          match freeClusterChain fuel v newCluster with
          | none => none
          | some v =>
            if firstNew ≠ newCluster then
              match freeClusterChain fuel v firstNew with
              | none => none
              | some v => some (false, info, v)
            else some (false, info, v)
        | (true, v) => growLoop fuel n firstNew newCluster info v

/-- The loop that looks for the last cluster to keep (lines 2301-2308). -/
def keepLoop (v : Volume) : ℕ → ℕ → ℕ
  | 0, lastToKeep => lastToKeep
  | n + 1, lastToKeep =>
    let next := getFatEntry v lastToKeep
    if EndsChain next then lastToKeep else keepLoop v n next

/-- The number of clusters of a file (lines 2225-2226). -/
def Fat32Fs.clustersFor (fs : Fat32Fs) (size : ℕ) : ℕ :=
  if size = 0 then 0 else (size + fs.clusterSizeBytes - 1) / fs.clusterSizeBytes

/-- The end of `fat32_adjust_file_size`: `info->size` is a `uint32_t`
(lines 2317-2320). -/
def storeSize (info : DirEntryInfo) (newSize : ℕ) : DirEntryInfo :=
  if newSize = 0 then { info with size := newSize % 2 ^ 32, firstCluster := 0 }
  else { info with size := newSize % 2 ^ 32 }

/-- `fat32_adjust_file_size` (lines 2219-2322). -/
def adjustFileSize (v : Volume) (info : DirEntryInfo) (newSize : ℕ) : Option Adjusted :=
  let currentClusters := v.fs.clustersFor info.size
  let requiredClusters := v.fs.clustersFor newSize
  if requiredClusters = currentClusters then some ⟨true, storeSize info newSize, false, v⟩
  else if requiredClusters > currentClusters then
    let last := if currentClusters > 0 then (countClusters fuel v info.firstCluster).map Prod.snd else some 0
    match last with
    | none => none
    | some lastCluster =>
      match growLoop fuel (requiredClusters - currentClusters) 0 lastCluster info v with
      | none => none
      | some (false, info, v) => some ⟨false, info, false, v⟩
      | some (true, info, v) => some ⟨true, storeSize info newSize, true, v⟩
  else if requiredClusters = 0 then
    if info.firstCluster ≠ 0 then
      match freeClusterChain fuel v info.firstCluster with
      | none => none
      | some v => some ⟨true, storeSize { info with firstCluster := 0 } newSize, true, v⟩
    else some ⟨true, storeSize info newSize, false, v⟩
  else
    let lastToKeep := keepLoop v (requiredClusters - 1) info.firstCluster
    let next := getFatEntry v lastToKeep
    let freed :=
      if next < eocMark ∧ next ≠ badCluster ∧ next ≥ 2 then freeClusterChain fuel v next else some v
    match freed with
    | none => none
    | some v => some ⟨true, storeSize info newSize, true, setFatEntry v lastToKeep eocMark⟩

/-! ## The mount interface -/

/-- `fs_file_read` (lines 3075-3113): the bytes that were read, `none` when it
returns `false`. -/
def fsFileRead (stack : Stack) (v : Volume) (path : CString) (offset length : ℕ) :
    Option (Option (List UInt8)) :=
  match traversePath fuel (stack.call 0) v path false with
  | none => none
  | some none => some none
  | some (some info) =>
    if info.isDirectory then some none
    else readChain fuel v info.firstCluster info.size offset length

/-- The result of a write: what is returned, `*bytes_written` if it was stored,
and the volume. -/
structure Written where
  ok : Bool
  bytesWritten : Option ℕ
  volume : Volume

/-- `fs_file_write` (lines 3152-3253). -/
def fsFileWrite (stack : Stack) (v : Volume) (path : CString) (offset : ℕ)
    (buffer : List UInt8) : Option Written :=
  if buffer.length = 0 then some ⟨true, some 0, v⟩
  else
    match traversePath fuel (stack.call 0) v path false with
    | none => none
    | some none => some ⟨false, none, v⟩
    | some (some info) =>
      if info.isDirectory then some ⟨false, none, v⟩
      else
        let originalSize := info.size
        let targetEnd := (offset + buffer.length) % 2 ^ 64
        let adjusted :=
          if targetEnd > info.size then adjustFileSize fuel v info targetEnd
          else some ⟨true, info, false, v⟩
        match adjusted with
        | none => none
        | some ⟨false, _, _, v⟩ => some ⟨false, none, v⟩
        | some ⟨true, info, fatDirty, v⟩ =>
          match writeChain fuel v info originalSize offset buffer with
          | none => none
          | some (false, _, v) => some ⟨false, some 0, v⟩
          | some (true, stored, v) =>
            let written := stored.getD 0
            let info :=
              if (offset + written) % 2 ^ 64 > info.size then
                { info with size := (offset + written) % 2 ^ 32 }
              else info
            match updateDirEntry v info info.firstCluster info.size with
            | (false, v) => some ⟨false, none, v⟩
            | (true, v) =>
              if fatDirty then
                match flushFat v with
                | (false, v) => some ⟨false, none, v⟩
                | (true, v) => some ⟨decide (written = buffer.length), some written, v⟩
              else some ⟨decide (written = buffer.length), some written, v⟩
end Menios.Fat32
