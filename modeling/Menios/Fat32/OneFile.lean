import Menios.Fat32.FileOps

/-!
# A volume with one file

The smallest well-formed volumes with something in them: the root directory is
cluster 2, its only entry is the file `A`, and the file has the clusters from 3
on.

Results:

* `oneFile_wellFormed`: it is well formed.
* `traversePath_oneFile`: the path `A` leads to the file.
-/

namespace Menios.Fat32
open Common List RawEntry

/-- A stack of zeros. -/
def zeroStack : Stack := ⟨fun _ _ => 0, fun _ => ⟨[], false, 0, 0, 0, 0, 0, fun _ => 0⟩⟩

/-! ## The volume -/

/-- The entry of a file `A` with `n` clusters. -/
def oneFileEntry (n size : ℕ) : RawEntry :=
  (short [0x41, 0x20, 0x20, 0x20, 0x20, 0x20, 0x20, 0x20, 0x20, 0x20, 0x20] 0x20
    (if n = 0 then 0 else 3)).setFileSize size

/-- Its FAT: cluster 2 ends the root directory, the clusters from 3 on are a chain. -/
def oneFileFat (n : ℕ) : FatTable := fun c =>
  if c = 2 then eocMark
  else if 3 ≤ c ∧ c < 3 + n then if c + 1 = 3 + n then eocMark else c + 1
  else 0

/-- The root directory holds the entry; everything else is zero. -/
def oneFile (fs : Fat32Fs) (n size : ℕ) : Volume :=
  volumeOf fs (oneFileFat n) fun c =>
    if c = 2 then slotBytes fun i => if i = 0 then oneFileEntry n size else fun _ => 0 else fun _ => 0

/-- The same with bytes in the other clusters. -/
def fileWith (fs : Fat32Fs) (n size : ℕ) (b : ℕ → Buffer) : Volume :=
  volumeOf fs (oneFileFat n) fun c =>
    if c = 2 then slotBytes fun i => if i = 0 then oneFileEntry n size else fun _ => 0 else b c

/-- The clusters of its owners. -/
def oneFileOwn (n : ℕ) : Owner → List ℕ
  | none => [2]
  | some p => if p = ⟨2, 0⟩ then List.range' 3 n else []

section
variable {fs : Fat32Fs} {n s : ℕ} {b : ℕ → Buffer} (hs : fs.Sound) (hn : 3 + n ≤ fs.maxClusterIndex)
lemma oneFileEntry_look : (oneFileEntry n s).kind = .entry ∧
    (oneFileEntry n s).name = [0x41, 0x20, 0x20, 0x20, 0x20, 0x20, 0x20, 0x20, 0x20, 0x20, 0x20] ∧
    (oneFileEntry n s).isDirectory = false := by
  obtain ⟨hna, ha, hf⟩ := name_congr (e := short _ _ _)
    fun j hj => setFileSize_apply _ s (show j.val < 28 by omega)
  refine ⟨?_, hna.trans (name_short rfl), ?_⟩
  · rw [kind, oneFileEntry, hf, ha, first_short, attr_short]
    decide
  rw [isDirectory, oneFileEntry, ha, attr_short]
  decide

lemma firstCluster_oneFileEntry : (oneFileEntry n s).firstCluster = if n = 0 then 0 else 3 := by
  rw [oneFileEntry, firstCluster_setFileSize, firstCluster_short (by split_ifs <;> decide)]

include hs hn in
lemma link_oneFile {c : ℕ} (hc : fs.InRange c) : (fileWith fs n s b).link c = if c = 2 then .last
      else if 3 ≤ c ∧ c < 3 + n then if c + 1 = 3 + n then .last else .next (c + 1) else .free := by
  have hm := hs.marks
  unfold badCluster at hm
  rw [Volume.link, if_pos (show (fileWith fs n s b).fs.InRange c from hc), getFatEntry_of_lt hc.2]
  show linkOf fs (oneFileFat n c % 2 ^ 28) = _
  unfold oneFileFat
  split_ifs with h1 h2 h3
  · exact linkOf_eocMark fs
  · exact linkOf_eocMark fs
  · exact linkOf_cluster hs ⟨by omega, by omega⟩
  · exact linkOf_zero fs

include hs hn in
lemma isChain_oneFile : ∀ {m c : ℕ}, 3 ≤ c → c + (m + 1) = 3 + n →
    IsChain (fileWith fs n s b).link (List.range' c (m + 1)) := by
  intro m
  induction m with
  | zero =>
    intro c hc hm
    refine .last ?_
    rw [link_oneFile hs hn ⟨by omega, by omega⟩, if_neg (by omega), if_pos (by omega), if_pos (by omega)]
  | succ m ih =>
    intro c hc hm
    rw [range'_succ, range'_succ]
    refine .cons ?_ (ih (c := c + 1) (by omega) (by omega))
    rw [link_oneFile hs hn ⟨by omega, by omega⟩, if_neg (by omega), if_pos (by omega), if_neg (by omega)]

include hs in
lemma slot_oneFile (h2 : fs.InRange 2) {i : ℕ} (hi : i < fs.entriesPerCluster) :
    (fileWith fs n s b).slot ⟨2, i⟩ = if i = 0 then oneFileEntry n s else fun _ => 0 := by
  have hle : (i + 1) * entrySize ≤ fs.clusterSizeBytes :=
    (Nat.mul_le_mul_right _ hi).trans (Nat.div_mul_le_self _ _)
  rw [Volume.slot, fileWith, data_volumeOf hs _ _ h2, if_pos rfl, slotAt_slotBytes _ hle]

include hs hn in
lemma visible_oneFile : (fileWith fs n s b).visible [2] = [⟨2, 0⟩] := by
  have h2 : fs.InRange 2 := ⟨le_rfl, by omega⟩
  obtain ⟨m, hm⟩ : ∃ m, fs.entriesPerCluster = m + 2 := by
    have h1 : 1 * 512 ≤ fs.sectorsPerCluster * fs.bytesPerSector := Nat.mul_le_mul hs.perCluster hs.sector
    rw [← hs.clusterSize] at h1
    have : 512 / entrySize ≤ fs.clusterSizeBytes / entrySize := Nat.div_le_div_right (by omega)
    refine ⟨fs.entriesPerCluster - 2, ?_⟩
    have : 512 / entrySize = 16 := by decide
    unfold Fat32Fs.entriesPerCluster
    omega
  have hpos : positions fs [2] = ⟨2, 0⟩ :: ⟨2, 1⟩ :: (List.range m).map fun i => ⟨2, i + 2⟩ := by
    rw [positions, flatMap_singleton, hm, range_succ_eq_map, range_succ_eq_map]
    simp [Function.comp_def]
  have h0 : ((fileWith fs n s b).slot ⟨2, 0⟩).kind = .entry := by
    rw [slot_oneFile hs h2 (by omega), if_pos rfl, oneFileEntry_look.1]
  have h1 : ((fileWith fs n s b).slot ⟨2, 1⟩).kind = .endMarker := by
    rw [slot_oneFile hs h2 (by omega), if_neg (by decide)]
    decide
  rw [Volume.visible]
  show (positions fs [2]).takeWhile _ = _
  rw [hpos, takeWhile_cons_of_pos (by simp [h0]), takeWhile_cons_of_neg (by simp [h1])]

lemma isDot_oneFileEntry : (oneFileEntry n s).isDot = false := by
  rw [isDot, oneFileEntry_look.2.1]
  decide

include hs hn in
lemma entries_oneFile : (fileWith fs n s b).entries [2] = [⟨2, 0⟩] := by
  have hl : ((fileWith fs n s b).slot ⟨2, 0⟩).isLive = true := by
    rw [slot_oneFile hs ⟨le_rfl, by omega⟩ (entriesPerCluster_pos hs), if_pos rfl, isLive,
      oneFileEntry_look.1, isDot_oneFileEntry]
    rfl
  rw [Volume.entries, visible_oneFile hs hn, filter_singleton, hl]
  rfl

include hs hn in
lemma live_oneFile {o : Owner} (h : Live (fileWith fs n s b) (oneFileOwn n) o) :
    o = none ∨ o = some ⟨2, 0⟩ := by
  induction h with
  | root => exact .inl rfl
  | @entry o p _ hd hp ih =>
    right
    rcases ih with rfl | rfl
    · rw [oneFileOwn, entries_oneFile hs hn] at hp
      rw [mem_singleton.1 hp]
    rw [IsDir, slot_oneFile hs ⟨le_rfl, by omega⟩ (entriesPerCluster_pos hs), if_pos rfl,
      oneFileEntry_look.2.2] at hd
    exact Bool.noConfusion hd

include hs hn in
lemma isFile_oneFile : IsFile (fileWith fs n s b) (oneFileOwn n) ⟨2, 0⟩ := by
  refine ⟨.entry .root trivial ?_, ?_⟩
  · rw [oneFileOwn, entries_oneFile hs hn]
    exact mem_singleton_self _
  · rw [slot_oneFile hs ⟨le_rfl, by omega⟩ (entriesPerCluster_pos hs), if_pos rfl, oneFileEntry_look.2.2]

include hs hn in
/-- **The volume is well formed** when the file has the clusters its size needs. -/
theorem oneFile_wellFormed (hr : fs.rootCluster = 2) (hsz : s < 2 ^ 32)
    (hl : n = fs.clustersFor s) : WellFormed (fileWith fs n s b) (oneFileOwn n) := by
  have h2 : fs.InRange 2 := ⟨le_rfl, by omega⟩
  have hsl : (fileWith fs n s b).slot ⟨2, 0⟩ = oneFileEntry n s := by
    rw [slot_oneFile hs h2 (entriesPerCluster_pos hs), if_pos rfl]
  have hown : oneFileOwn n (some ⟨2, 0⟩) = List.range' 3 n := by rw [oneFileOwn, if_pos rfl]
  refine ⟨⟨fun o => ?_, fun o o' hne c hc hc' => ?_, fun c hc hout => ?_⟩, hr.symm, by simp [oneFileOwn],
    fun p hp => ?_, fun p hp _ => ?_, fun p hp => if_neg ?_, fun o ho hd => ?_⟩
  · cases o with
    | none =>
      refine .inr (.last ?_)
      rw [link_oneFile hs hn h2, if_pos rfl]
    | some p =>
      by_cases hp : p = ⟨2, 0⟩
      · rw [hp, hown]
        cases n with
        | zero => exact .inl rfl
        | succ m => exact .inr (isChain_oneFile hs hn le_rfl rfl)
      · exact .inl (if_neg hp)
  · -- the root directory has cluster 2, the file those from 3 on
    have hmem : ∀ {o : Owner} {c : ℕ}, c ∈ oneFileOwn n o →
        (o = none ∧ c = 2) ∨ (o = some ⟨2, 0⟩ ∧ 3 ≤ c) := by
      intro o c hc
      cases o with
      | none => exact .inl ⟨rfl, mem_singleton.1 hc⟩
      | some p =>
        simp only [oneFileOwn] at hc
        split_ifs at hc with hp
        · exact .inr ⟨by rw [hp], (mem_range'_1.1 hc).1⟩
        · simp at hc
    rcases hmem hc with ⟨ho, h⟩ | ⟨ho, h⟩ <;> rcases hmem hc' with ⟨ho', h'⟩ | ⟨ho', h'⟩
    · exact hne (ho.trans ho'.symm)
    · omega
    · omega
    · exact hne (ho.trans ho'.symm)
  · have hc2 : c ≠ 2 := fun h => hout none (by rw [h]; exact mem_singleton_self 2)
    have hc3 : ¬ (3 ≤ c ∧ c < 3 + n) := fun h =>
      hout (some ⟨2, 0⟩) (by rw [hown]; exact mem_range'_1.2 h)
    rw [link_oneFile hs hn hc, if_neg hc2, if_neg hc3]
  · obtain rfl : p = ⟨2, 0⟩ := by simpa using live_oneFile hs hn hp
    rw [hown, hsl, firstCluster_oneFileEntry]
    cases n <;> rfl
  · obtain rfl : p = ⟨2, 0⟩ := by simpa using live_oneFile hs hn hp
    rw [hown, hsl, oneFileEntry, fileSize_setFileSize _ _ hsz, length_range']
    exact hl
  · rintro rfl
    exact hp (isFile_oneFile hs hn).live
  rcases live_oneFile hs hn ho with rfl | rfl
  · refine ⟨0, by simp, fun p hp => ?_⟩
    rw [oneFileOwn, visible_oneFile hs hn, drop_zero] at hp
    rw [mem_singleton.1 hp, Volume.IsDotSlot, hsl, isDot_oneFileEntry]
    simp
  rw [IsDir, hsl, oneFileEntry_look.2.2] at hd
  exact Bool.noConfusion hd

include hs hn in
/-- The path `A` leads to the file. -/
theorem traversePath_oneFile (hr : fs.Reliable) (hro : fs.rootCluster = 2) (hsz : s < 2 ^ 32)
    {f : ℕ} (hf : 0 < f) (st : Stack) :
    ∃ info, traversePath f st (fileWith fs n s b) [0x41] false = some (some info) ∧
      info.isDirectory = false ∧ info.pos = ⟨2, 0⟩ ∧ info.size = s := by
  have h2 : fs.InRange 2 := ⟨le_rfl, by omega⟩
  have hsl : (fileWith fs n s b).slot ⟨2, 0⟩ = oneFileEntry n s := by
    rw [slot_oneFile hs h2 (entriesPerCluster_pos hs), if_pos rfl]
  have hc : IsChain (fileWith fs n s b).link [2] := .last (by rw [link_oneFile hs hn h2, if_pos rfl])
  have hfi : ∀ stale, findEntry f stale (fileWith fs n s b) 2 [0x41] false =
      some (some (entryInfo fs (LfnState.reset ⟨stale, 0⟩) ⟨2, 0⟩ (oneFileEntry n s))) := by
    intro stale
    have hl : (LfnState.reset ⟨stale, 0⟩).lfn 0 = 0 := by
      simp [LfnState.reset, resetLfn, Buffer.set_apply]
    have hna : (entryInfo fs (LfnState.reset ⟨stale, 0⟩) ⟨2, 0⟩ (oneFileEntry n s)).name = [0x41] := by
      rw [entryInfo]
      simp only [hl, ne_eq, not_true, if_false, oneFileEntry_look.2.1]
      decide
    have hli : listing fs ⟨stale, 0⟩ (dirSlots (fileWith fs n s b) [2]) =
        [entryInfo fs (LfnState.reset ⟨stale, 0⟩) ⟨2, 0⟩ (oneFileEntry n s)] := by
      rw [← listing_takeWhile, takeWhile_dirSlots, visible_oneFile hs hn, map_singleton, hsl, listing]
      simp only [if_true, oneFileEntry_look.1, listing]
    have hma : equalsIgnoreCase [0x41] [0x41] = true := by decide
    rw [findEntry_eq (v := fileWith fs n s b) hs hr stale _ _ hc hf]
    show some (lookup [0x41] false (listing fs ⟨stale, 0⟩ (dirSlots (fileWith fs n s b) [2]))) = _
    rw [hli]
    simp [lookup, hna, hma]
  refine ⟨entryInfo fs (LfnState.reset ⟨st.lfn [0], 0⟩) ⟨2, 0⟩ (oneFileEntry n s), ?_,
    oneFileEntry_look.2.2, rfl, ?_⟩
  · rw [traversePath, if_neg (by decide)]
    show traverseLoop f st (fileWith fs n s b) false 0 fs.rootCluster [[0x41]] = _
    rw [hro, traverseLoop, if_neg (by decide)]
    rw [show take 255 [(0x41 : UInt8)] = [0x41] from rfl, hfi]
    rfl
  rw [entryInfo, oneFileEntry]
  exact fileSize_setFileSize _ _ hsz
end

/-- A file of one byte. -/
lemma oneByte_wellFormed : (sampleFs 512 1 4).Sound ∧ (sampleFs 512 1 4).Reliable ∧
    WellFormed (oneFile (sampleFs 512 1 4) 1 1) (oneFileOwn 1) := by
  have hs := @sampleFs_sound 512 1 4 (by decide) (by decide) (by decide) (by decide)
  exact ⟨hs, sampleFs_reliable (by decide), oneFile_wellFormed hs (by decide) rfl (by decide) (by decide)⟩
end Menios.Fat32
