import Menios.Fat32.Lfn
import Menios.Fat32.Volume

/-!
# Reading a directory

Models of `fat32_decode_sfn`, `fat32_iterate_directory` and `fat32_find_entry`
(`src/kernel/fs/fat32/fat32.c`, lines 1690-1717 and 1766-1930), of the
case-insensitive comparison (lines 218-238), and of the two loops every reader
of a directory is made of: along the chain of clusters, and over the slots of
a cluster.

Results:

* `walkChain_eq`, `walkDirectory_eq`: along a proper chain these loops are folds.
* `iterateDirectory_eq`: the iterator visits the entries of `listing`, a function
  of the slots alone.
* `findEntry_eq`: a lookup is a search in `listing`.
-/

namespace Menios.Fat32
open Common List

/-! ## Names -/

/-- `fat32_upcase` (lines 218-223). -/
def upcase (ch : UInt8) : UInt8 := if 0x61 ≤ ch ∧ ch ≤ 0x7A then ch - 0x61 + 0x41 else ch

/-- `fat32_equals_ignore_case` (lines 225-238). -/
def equalsIgnoreCase : CString → CString → Bool
  | a :: as, b :: bs => if upcase a ≠ upcase b then false else equalsIgnoreCase as bs
  | as, bs => as.isEmpty && bs.isEmpty

/-- `fat32_decode_sfn` (lines 1690-1717). Both callers pass a buffer that is
larger than the 13 bytes it can need. -/
def decodeSfn (name : List UInt8) : CString :=
  let base := (name.take 8).takeWhile (· != 0x20)
  let ext :=
    if name.getD 8 0 != 0x20 then 0x2E :: ((name.drop 8).take 3).takeWhile (· != 0x20) else []
  (base ++ ext).takeWhile (· != 0)

/-! ## Slots -/

/-- The cases the readers of a directory distinguish (lines 1792-1823). -/
inductive EntryKind where
  | endMarker
  | deleted
  | longName
  | volumeLabel
  | entry
  deriving DecidableEq

namespace RawEntry
/-- What a slot holds. -/
def kind (e : RawEntry) : EntryKind :=
  if e.first = 0x00 then .endMarker
  else if e.first = 0xE5 then .deleted
  else if e.attr = 0x0F then .longName
  else if e.attr &&& 0x08 ≠ 0 then .volumeLabel
  else .entry

/-- `(entry->attr & 0x10u) != 0`. -/
def isDirectory (e : RawEntry) : Bool := e.attr &&& 0x10 != 0
end RawEntry

/-- `fat32_entry_pos_t` (lines 2545-2548): a slot of a volume. -/
structure EntryPos where
  cluster : ℕ
  index : ℕ
  deriving DecidableEq

variable (fs : Fat32Fs)
/-- `fs->cluster_size_bytes / sizeof(fat32_dir_entry_raw_t)`. -/
def Fat32Fs.entriesPerCluster : ℕ := fs.clusterSizeBytes / entrySize

/-- Slot `i` of a cluster buffer. -/
def slotAt (buffer : Buffer) (i : ℕ) : RawEntry := fun j => buffer (i * entrySize + j)

/-- The slots of a cluster, with their places. -/
def clusterSlots (cluster : ℕ) (buffer : Buffer) : List (EntryPos × RawEntry) :=
  (List.range fs.entriesPerCluster).map fun i => (⟨cluster, i⟩, slotAt buffer i)

/-- `fat32_dir_entry_info_t` (lines 1240-1249). -/
structure DirEntryInfo where
  name : CString
  isDirectory : Bool
  firstCluster : ℕ
  size : ℕ
  dirCluster : ℕ
  dirEntryIndex : ℕ
  lfnEntries : ℕ
  rawEntry : RawEntry

/-- The slot of an entry. -/
def DirEntryInfo.pos (info : DirEntryInfo) : EntryPos := ⟨info.dirCluster, info.dirEntryIndex⟩

/-! ## The loops -/
section
variable {σ ρ : Type}
/-- The loop along a chain that begins at `cluster`, for at most `fuel` turns.
`body` stops it with `Except.error`; `none` means that it is still running. -/
def walkChain (v : Volume) (body : σ → ℕ → Except ρ σ) : ℕ → ℕ → σ → Option (Except ρ σ)
  | 0, _, _ => none
  | fuel + 1, cluster, st =>
    if v.fs.InRange cluster then
      match body st cluster with
      | .error r => some (.error r)
      | .ok st =>
        let next := getFatEntry v cluster
        if EndsChain next then some (.ok st) else walkChain v body fuel next st
    else some (.ok st)

/-- The loop over the slots of a directory: every cluster is read, `enter` is run
when its turn begins, and `slot` for each slot. -/
def walkDirectory (v : Volume) (failed : σ → ρ) (enter : σ → σ)
    (slot : σ → EntryPos × RawEntry → Except ρ σ) (fuel cluster : ℕ) (st : σ) :
    Option (Except ρ σ) :=
  walkChain v (fun st cluster =>
    match readCluster v cluster with
    | none => .error (failed st)
    | some buffer => (clusterSlots v.fs cluster buffer).foldlM slot (enter st)) fuel cluster st
end

/-! ## The iterator -/

/-- `lfn` and `lfn_count` of the iterator (lines 1788-1790). -/
structure LfnState where
  lfn : Buffer
  count : ℕ

namespace LfnState
/-- `fat32_reset_lfn(lfn, sizeof(lfn)); lfn_count = 0;`. -/
def reset (st : LfnState) : LfnState := ⟨resetLfn st.lfn, 0⟩

/-- A long-name slot (lines 1804-1813). -/
def append (st : LfnState) (entry : RawEntry) : LfnState :=
  let st := if entry.first &&& 0x40 ≠ 0 then st.reset else st
  ⟨appendLfnSegment st.lfn lfnSize entry, st.count + 1⟩
end LfnState

/-- The record built for a short entry (lines 1825-1845). -/
def entryInfo (st : LfnState) (pos : EntryPos) (entry : RawEntry) : DirEntryInfo where
  name := if st.lfn 0 ≠ 0 then st.lfn.cString (lfnSize - 1) else decodeSfn entry.name
  isDirectory := entry.isDirectory
  firstCluster :=
    if entry.firstCluster = 0 ∧ entry.isDirectory = true then fs.rootCluster else entry.firstCluster
  size := entry.fileSize
  dirCluster := pos.cluster
  dirEntryIndex := pos.index
  lfnEntries := st.count % 256
  rawEntry := entry

section
variable {τ : Type}
/-- One turn of the inner loop of `fat32_iterate_directory` (lines 1792-1877).
`visit` returns `false` to stop. -/
def iterateSlot (fs : Fat32Fs) (visit : τ → DirEntryInfo → τ × Bool) (st : LfnState × τ)
    (slot : EntryPos × RawEntry) : Except (Bool × τ) (LfnState × τ) :=
  match slot.2.kind with
  | .endMarker => .error (true, st.2)
  | .deleted => .ok (st.1.reset, st.2)
  | .longName => .ok (st.1.append slot.2, st.2)
  | .volumeLabel => .ok (st.1.reset, st.2)
  | .entry =>
    match visit st.2 (entryInfo fs st.1 slot.1 slot.2) with
    | (context, true) => .ok (st.1.reset, context)
    | (context, false) => .error (true, context)

/-- `fat32_iterate_directory` (lines 1766-1898). `stale` is what the stack holds
where the function keeps `lfn`; the array keeps its place from one cluster
to the next. The function either compares names or calls `iter`; `visit` is
what it does with an entry. -/
def iterateDirectory (fuel : ℕ) (stale : Buffer) (v : Volume) (startCluster : ℕ)
    (visit : τ → DirEntryInfo → τ × Bool) (context : τ) : Option (Bool × τ) :=
  match walkDirectory v (fun st => (false, st.2)) (fun st => (st.1.reset, st.2))
      (iterateSlot v.fs visit) fuel startCluster (⟨stale, 0⟩, context) with
  | none => none
  | some (.error r) => some r
  | some (.ok st) => some (true, st.2)
end

/-- The comparison with `match_name` (lines 1850-1862); `context` is `single_match`. -/
def matchVisit (matchName : CString) (matchDirectoryOnly : Bool) (context : Option DirEntryInfo)
    (info : DirEntryInfo) : Option DirEntryInfo × Bool :=
  if matchDirectoryOnly && !info.isDirectory then (context, true)
  else if equalsIgnoreCase info.name matchName then (some info, false)
  else (context, true)

/-- `fat32_find_entry` (lines 1900-1930). -/
def findEntry (fuel : ℕ) (stale : Buffer) (v : Volume) (startCluster : ℕ) (name : CString)
    (requireDirectory : Bool) : Option (Option DirEntryInfo) :=
  match iterateDirectory fuel stale v startCluster (matchVisit name requireDirectory) none with
  | none => none
  | some (false, _) => some none
  | some (true, none) => some none
  | some (true, some tmp) =>
    if tmp.name = [] then some none
    else if equalsIgnoreCase tmp.name name = false then some none
    else some (some tmp)

/-- `fs_dir_entry_t`, what `iter` is given (lines 1865-1871). -/
structure DirEntry where
  name : CString
  isDirectory : Bool
  size : ℕ
  deriving DecidableEq

/-- The public part of an entry. -/
def DirEntryInfo.toDirEntry (info : DirEntryInfo) : DirEntry :=
  ⟨info.name, info.isDirectory, info.size⟩

/-- `fat32_iterate_directory` with an `iter` that collects every entry. -/
def listDirectory (fuel : ℕ) (stale : Buffer) (v : Volume) (startCluster : ℕ) :
    Option (Bool × List DirEntry) :=
  iterateDirectory fuel stale v startCluster
    (fun entries info => (entries ++ [info.toDirEntry], true)) []

/-! ## The loops along a chain -/
section
variable {σ ρ : Type} {v : Volume}
/-- **Along a chain the loop is a fold.** -/
theorem walkChain_eq (hs : v.fs.Sound) (bd : σ → ℕ → Except ρ σ) :
    ∀ {l : List ℕ} {fl c : ℕ} {s : σ}, IsChain v.link (c :: l) → (c :: l).length ≤ fl →
      walkChain v bd fl c s = some ((c :: l).foldlM bd s) := by
  intro l
  induction l with
  | nil =>
    intro fl c s hch hf
    obtain ⟨fl, rfl⟩ : ∃ n, fl = n + 1 := ⟨fl - 1, by simp at hf; omega⟩
    cases hch with
    | last h0 =>
      obtain ⟨hc, he⟩ := link_eq_last h0
      rw [walkChain, if_pos hc, foldlM_cons]
      cases bd s c with
      | error r => rfl
      | ok s => simp only [if_pos he]; rfl
  | cons b l ih =>
    intro fl c s hch hf
    obtain ⟨fl, rfl⟩ : ∃ n, fl = n + 1 := ⟨fl - 1, by simp at hf; omega⟩
    cases hch with
    | cons h0 hch =>
      obtain ⟨hc, hget, _, he⟩ := link_eq_next hs h0
      rw [walkChain, if_pos hc, foldlM_cons]
      cases bd s c with
      | error r => rfl
      | ok s =>
        simp only [hget, if_neg he]
        exact ih hch (by simp at hf ⊢; omega)

/-- The slots of a directory in the order of its chain. -/
def dirSlots (v : Volume) (clusters : List ℕ) : List (EntryPos × RawEntry) :=
  clusters.flatMap fun c => clusterSlots v.fs c (v.data c)

/-- What a turn of a directory loop does with a slot, the beginning of the
cluster included. -/
def atSlot (enter : σ → σ) (slot : σ → EntryPos × RawEntry → Except ρ σ) (st : σ)
    (x : EntryPos × RawEntry) : Except ρ σ :=
  slot (if x.1.index = 0 then enter st else st) x

lemma foldlM_clusterSlots {fs : Fat32Fs} (hn : 0 < fs.entriesPerCluster) (e : σ → σ)
    (s : σ → EntryPos × RawEntry → Except ρ σ) (c : ℕ) (b : Buffer) (st : σ) :
    (clusterSlots fs c b).foldlM s (e st) = (clusterSlots fs c b).foldlM (atSlot e s) st := by
  obtain ⟨n, hn⟩ : ∃ n, fs.entriesPerCluster = n + 1 := ⟨fs.entriesPerCluster - 1, by omega⟩
  have hr : ∀ (is : List ℕ) (st : σ), (∀ i ∈ is, i ≠ 0) →
      (is.map fun i => ((⟨c, i⟩ : EntryPos), slotAt b i)).foldlM s st =
        (is.map fun i => ((⟨c, i⟩ : EntryPos), slotAt b i)).foldlM (atSlot e s) st := by
    intro is
    induction is with
    | nil => intro st _; rfl
    | cons i is ih =>
      intro st hi
      rw [map_cons, foldlM_cons, foldlM_cons, atSlot, if_neg (hi i (by simp))]
      congr 1
      funext st
      exact ih st fun j hj => hi j (mem_cons_of_mem _ hj)
  rw [clusterSlots, hn, range_succ_eq_map, map_cons, foldlM_cons, foldlM_cons, atSlot, if_pos rfl]
  congr 1
  funext st
  exact hr _ st (by simp)

lemma entriesPerCluster_pos {fs : Fat32Fs} (hs : fs.Sound) : 0 < fs.entriesPerCluster := by
  have h1 := hs.sector
  have h2 := hs.perCluster
  have h3 : 1 * 512 ≤ fs.sectorsPerCluster * fs.bytesPerSector := Nat.mul_le_mul h2 h1
  rw [← hs.clusterSize] at h3
  exact Nat.div_pos (by unfold entrySize; omega) (by decide)

lemma inRange_of_mem {l : List ℕ} (h : IsChain v.link l) {c : ℕ} (hc : c ∈ l) : v.fs.InRange c :=
  inRange_of_link (h.link_ne_broken hc)

/-- **Over the slots of a directory the loop is a fold.** -/
theorem walkDirectory_eq (hs : v.fs.Sound) (hr : v.fs.Reliable) (fl : σ → ρ) (en : σ → σ)
    (s : σ → EntryPos × RawEntry → Except ρ σ) {l : List ℕ} {fu c : ℕ} {st : σ}
    (hc : IsChain v.link (c :: l)) (hf : (c :: l).length ≤ fu) : walkDirectory v fl en s fu c st =
      some ((dirSlots v (c :: l)).foldlM (atSlot en s) st) := by
  rw [walkDirectory, walkChain_eq hs _ hc hf]
  have hin : ∀ d ∈ c :: l, v.fs.InRange d := fun d hd => inRange_of_mem hc hd
  generalize c :: l = cs at hin
  congr 1
  induction cs generalizing st with
  | nil => rfl
  | cons d cs ih =>
    rw [foldlM_cons, dirSlots, flatMap_cons, foldlM_append,
      ← foldlM_clusterSlots (entriesPerCluster_pos hs)]
    simp only [readCluster_eq hs hr (hin d (by simp))]
    congr 1
    funext st
    exact ih fun e he => hin e (mem_cons_of_mem _ he)
end

lemma length_clusterSlots (c : ℕ) (b : Buffer) :
    (clusterSlots fs c b).length = fs.entriesPerCluster := by
  simp [clusterSlots]

lemma index_dirSlots (v : Volume) : ∀ (cs : List ℕ) (m : ℕ) (h : m < (dirSlots v cs).length),
      (dirSlots v cs)[m].1.index = m % v.fs.entriesPerCluster := by
  intro cs
  induction cs with
  | nil => intro m h; simp [dirSlots] at h
  | cons c cs ih =>
    intro m h
    have hl := length_clusterSlots v.fs c (v.data c)
    have hc : dirSlots v (c :: cs) = clusterSlots v.fs c (v.data c) ++ dirSlots v cs := rfl
    simp only [hc] at h ⊢
    by_cases hm : m < v.fs.entriesPerCluster
    · rw [getElem_append_left (by omega), Nat.mod_eq_of_lt hm]
      simp [clusterSlots]
    rw [getElem_append_right (by omega)]
    simp only [hl]
    rw [ih (m - v.fs.entriesPerCluster) (by rw [length_append] at h; omega)]
    exact (Nat.mod_eq_sub_mod (by omega)).symm

variable {v : Volume} {l : List ℕ}
/-- A chain has at most the clusters of the FAT, which begin at 2. -/
lemma length_add_two_le (h : IsChain v.link l) : l.length + 2 ≤ v.fs.maxClusterIndex := by
  have hsub : l.toFinset ⊆ Finset.Ico 2 v.fs.maxClusterIndex := fun c hc =>
    Finset.mem_Ico.2 (inRange_of_mem h (mem_toFinset.1 hc))
  have hca := Finset.card_le_card hsub
  rw [toFinset_card_of_nodup h.nodup, Nat.card_Ico] at hca
  have := length_pos_of_ne_nil h.ne_nil
  omega

lemma length_le_maxClusterIndex (h : IsChain v.link l) : l.length ≤ v.fs.maxClusterIndex := by
  have := length_add_two_le h
  omega

/-! ## A cluster with given slots -/

/-- The bytes of a cluster with the given slots. -/
def slotBytes (slot : ℕ → RawEntry) : Buffer := fun k =>
  slot (k / entrySize) ⟨k % entrySize, mod_entrySize_lt k⟩

lemma slotAt_slotBytes (s : ℕ → RawEntry) {n i : ℕ} (h : (i + 1) * entrySize ≤ n) :
    slotAt (clip n (slotBytes s)) i = s i := by
  funext j
  have hlt : i * entrySize + j < n := by unfold entrySize at h ⊢; omega
  have hdiv : (i * entrySize + j) / entrySize = i := by unfold entrySize; omega
  have hmod : (i * entrySize + j) % entrySize = j := by unfold entrySize; omega
  simp only [slotAt, clip_apply_of_lt hlt, slotBytes, hdiv, hmod]

lemma map_snd_clusterSlots (c : ℕ) (s : ℕ → RawEntry) :
    (clusterSlots fs c (clip fs.clusterSizeBytes (slotBytes s))).map Prod.snd =
      (List.range fs.entriesPerCluster).map s := by
  rw [clusterSlots, map_map]
  apply map_congr_left
  intro i hi
  rw [mem_range] at hi
  have hle : (i + 1) * entrySize ≤ fs.clusterSizeBytes :=
    (Nat.mul_le_mul_right _ hi).trans (Nat.div_mul_le_self _ _)
  exact slotAt_slotBytes s hle

/-! ## The entries of a directory -/

/-- The entries an iterator sees in a list of slots. -/
def listing (fs : Fat32Fs) : LfnState → List (EntryPos × RawEntry) → List DirEntryInfo
  | _, [] => []
  | st, (pos, entry) :: rest =>
    let st := if pos.index = 0 then st.reset else st
    match entry.kind with
    | .endMarker => []
    | .deleted => listing fs st.reset rest
    | .longName => listing fs (st.append entry) rest
    | .volumeLabel => listing fs st.reset rest
    | .entry => entryInfo fs st pos entry :: listing fs st.reset rest

lemma listing_takeWhile : ∀ (s : List (EntryPos × RawEntry)) (st : LfnState),
      listing fs st (s.takeWhile fun x => x.2.kind ≠ .endMarker) = listing fs st s := by
  intro s
  induction s with
  | nil => intro st; rfl
  | cons x s ih =>
    intro st
    obtain ⟨pos, e⟩ := x
    by_cases hk : e.kind = .endMarker
    · rw [takeWhile_cons_of_neg (by simp [hk]), listing, listing]
      simp only [hk]
    rw [takeWhile_cons_of_pos (by simp [hk]), listing, listing]
    simp only [ih]

/-- Show entries to a visitor until it stops. -/
def visitAll {τ : Type} (visit : τ → DirEntryInfo → τ × Bool) : τ → List DirEntryInfo → τ
  | context, [] => context
  | context, info :: rest =>
    match visit context info with
    | (context, true) => visitAll visit context rest
    | (context, false) => context

variable {f c : ℕ}
/-- **The iterator visits the entries of the listing.** -/
theorem iterateDirectory_eq {τ : Type} (hs : v.fs.Sound) (hr : v.fs.Reliable) (s : Buffer)
    (vs : τ → DirEntryInfo → τ × Bool) (cn : τ) (hc : IsChain v.link (c :: l))
    (hf : (c :: l).length ≤ f) : iterateDirectory f s v c vs cn =
      some (true, visitAll vs cn (listing v.fs ⟨s, 0⟩ (dirSlots v (c :: l)))) := by
  rw [iterateDirectory, walkDirectory_eq hs hr _ _ _ hc hf]
  generalize dirSlots v (c :: l) = slots
  generalize (⟨s, 0⟩ : LfnState) = st
  induction slots generalizing st cn with
  | nil => rfl
  | cons x slots ih =>
    obtain ⟨pos, entry⟩ := x
    have hst : (if pos.index = 0 then ((st, cn).1.reset, (st, cn).2) else (st, cn)) =
        (if pos.index = 0 then st.reset else st, cn) := by
      split_ifs <;> rfl
    rw [foldlM_cons, atSlot, hst, iterateSlot, listing]
    generalize (if pos.index = 0 then st.reset else st) = st
    cases entry.kind with
    | endMarker => rfl
    | deleted => exact ih cn st.reset
    | longName => exact ih cn (st.append entry)
    | volumeLabel => exact ih cn st.reset
    | entry =>
      rw [visitAll]
      rcases vs cn (entryInfo v.fs st pos entry) with ⟨cn, go⟩
      cases go with
      | true => exact ih cn st.reset
      | false => rfl

/-- The entry a lookup finds. -/
def lookup (name : CString) (requireDirectory : Bool) (infos : List DirEntryInfo) :
    Option DirEntryInfo :=
  (infos.find? fun info =>
    !(requireDirectory && !info.isDirectory) && equalsIgnoreCase info.name name).filter
      fun info => info.name != []

lemma visitAll_matchVisit (n : CString) (r : Bool) (i : List DirEntryInfo) :
    visitAll (matchVisit n r) none i =
      i.find? fun info => !(r && !info.isDirectory) && equalsIgnoreCase info.name n := by
  induction i with
  | nil => rfl
  | cons info i ih =>
    rw [visitAll, matchVisit, List.find?_cons]
    cases hd : r && !info.isDirectory with
    | true => simpa using ih
    | false =>
      cases he : equalsIgnoreCase info.name n with
      | true => simp
      | false => simpa using ih

/-- **A lookup searches the listing.** -/
theorem findEntry_eq (hs : v.fs.Sound) (hr : v.fs.Reliable) (s : Buffer) (n : CString)
    (r : Bool) (hc : IsChain v.link (c :: l)) (hfu : (c :: l).length ≤ f) : findEntry f s v c n r =
      some (lookup n r (listing v.fs ⟨s, 0⟩ (dirSlots v (c :: l)))) := by
  rw [findEntry, iterateDirectory_eq hs hr _ _ _ hc hfu, visitAll_matchVisit]
  generalize listing v.fs ⟨s, 0⟩ (dirSlots v (c :: l)) = infos
  rw [lookup]
  cases hf : infos.find? fun info => !(r && !info.isDirectory) && equalsIgnoreCase info.name n with
  | none => rfl
  | some info =>
    have he : equalsIgnoreCase info.name n = true := by
      have := List.find?_some hf
      rw [Bool.and_eq_true] at this
      exact this.2
    simp only [he, Bool.true_eq_false, if_false]
    by_cases hn : info.name = [] <;> simp [Option.filter, hn]

/-- **A listing shows every entry.** -/
lemma listDirectory_eq (hs : v.fs.Sound) (hr : v.fs.Reliable) (s : Buffer)
    (hc : IsChain v.link (c :: l)) (hf : (c :: l).length ≤ f) : listDirectory f s v c =
      some (true, (listing v.fs ⟨s, 0⟩ (dirSlots v (c :: l))).map DirEntryInfo.toDirEntry) := by
  have ha : ∀ (i : List DirEntryInfo) (entries : List DirEntry),
      visitAll (fun entries info => (entries ++ [info.toDirEntry], true)) entries i =
        entries ++ i.map DirEntryInfo.toDirEntry := by
    intro i
    induction i with
    | nil => intro entries; simp [visitAll]
    | cons info i ih => intro entries; simp only [visitAll, ih]; simp
  rw [listDirectory, iterateDirectory_eq hs hr _ _ _ hc hf, ha, nil_append]
end Menios.Fat32
