import Menios.Fat32.ReadWrite

/-!
# Files that grow

What `fat32_adjust_file_size` leaves when it fails, and what stands between the
old end of a file and a write behind it (`src/kernel/fs/fat32/fat32.c`, lines
2094-2322).

**Defect.** The failure paths of `fat32_adjust_file_size` free the new clusters,
but `last_cluster` has moved on to one of them: the mark goes to a freed cluster,
and the old last cluster still points to the first new one. `fat32_write_chain`
clears only clusters that it writes, so the slack of the old last cluster shows
when the write begins in a later cluster.

Results:

* `adjustFileSize_restores_iff`: a failed call leaves the FAT and the file as they
  were exactly when not even the first cluster was free.
* `fsFileWrite_hole_iff`: a hole reads as zeros exactly when the slack outside the
  cluster of the write was zero, and the new size is stored.
-/

namespace Menios.Fat32
open Common List

/-! ## Entries of the FAT -/
section
variable {v v' : Volume}
lemma getFatEntry_setFatEntry (v : Volume) (c x d : ℕ) : getFatEntry (setFatEntry v c x) d =
    if d = c ∧ c < v.fs.maxClusterIndex then x % 2 ^ 28 else getFatEntry v d := by
  unfold setFatEntry
  by_cases hc : c ≥ v.fs.maxClusterIndex
  · rw [if_pos hc, if_neg (by omega)]
  rw [if_neg hc]
  simp only [getFatEntry]
  by_cases hd : d = c
  · subst hd
    rw [if_neg hc, Function.update_self, if_pos ⟨rfl, by omega⟩, Nat.mod_mod]
  · rw [Function.update_of_ne hd, if_neg (show ¬ (d = c ∧ _) from fun h => hd h.1)]

lemma getFatEntry_setFatEntry_of_ne {c d : ℕ} (h : d ≠ c) (v : Volume) (x : ℕ) :
    getFatEntry (setFatEntry v c x) d = getFatEntry v d := by
  rw [getFatEntry_setFatEntry, if_neg (fun hd => h hd.1)]

lemma allocateCluster_entry (v : Volume) :
    (∃ c, v.fs.InRange c ∧ getFatEntry v c = 0 ∧ (allocateCluster v).1 = c ∧
      ∀ d, d ≠ c → getFatEntry (allocateCluster v).2 d = getFatEntry v d) ∨
    ((∀ c, v.fs.InRange c → getFatEntry v c ≠ 0) ∧
    allocateCluster v = (0, { v with exhausted := true })) := by
  unfold allocateCluster
  cases hf : (List.range' 2 (v.fs.maxClusterIndex - 2)).find? fun c => v.fat c % 2 ^ 28 = 0 with
  | none =>
    refine .inr ⟨fun c hc => ?_, rfl⟩
    have := List.find?_eq_none.1 hf c (mem_range'_1.2 ⟨hc.1, by omega⟩)
    rw [getFatEntry_of_lt hc.2]
    simpa using this
  | some c =>
    have hmem := mem_range'_1.1 (List.mem_of_find?_eq_some hf)
    have hc : v.fs.InRange c := ⟨hmem.1, by omega⟩
    refine .inl ⟨c, hc, ?_, rfl, fun d hd => ?_⟩
    · rw [getFatEntry_of_lt hc.2]
      simpa using List.find?_some hf
    · simp only [getFatEntry, Function.update_of_ne hd]

lemma getFatEntry_zeroCluster (v : Volume) (c d : ℕ) :
    getFatEntry (zeroCluster v c).2 d = getFatEntry v d := by
  unfold zeroCluster writeCluster
  split_ifs <;> rfl

lemma getFatEntry_freeClusterChain {fuel c : ℕ} (h : freeClusterChain fuel v c = some v') (d : ℕ) :
    getFatEntry v' d ≤ getFatEntry v d := by
  induction fuel generalizing v c with
  | zero => cases h
  | succ fuel ih =>
    have hset : getFatEntry (setFatEntry v c 0) d ≤ getFatEntry v d := by
      rw [getFatEntry_setFatEntry]
      split_ifs
      · exact Nat.zero_le _
      · exact le_rfl
    rw [freeClusterChain] at h
    dsimp only at h
    split_ifs at h with hc he
    · cases h
      exact hset
    · exact (ih h).trans hset
    cases h
    exact le_rfl
end

/-! ## A failed call -/

/-- The FAT and the file are as they were. -/
def Adjusted.Restores (r : Adjusted) (v : Volume) (info : DirEntryInfo) : Prop :=
  (∀ c, getFatEntry r.volume c = getFatEntry v c) ∧ r.info.firstCluster = info.firstCluster ∧
    r.info.size = info.size

/-- A cluster is free. -/
def HasFree (v : Volume) : Prop := ∃ c, v.fs.InRange c ∧ getFatEntry v c = 0

/-- The entry is a link that a failing call does not turn into a mark: it is one
already, or the call finds a cluster to link behind `lastCluster`. -/
def Linked (v : Volume) (lastCluster a : ℕ) : Prop :=
  0 < getFatEntry v a ∧ (a ≠ lastCluster ∧ getFatEntry v a < eocMark ∨
    a = lastCluster ∧ v.fs.InRange a ∧ v.fs.maxClusterIndex ≤ badCluster ∧ HasFree v)

/-- What a failing loop leaves: the record of a file that had clusters stays, that
of an empty file has the first new cluster, and links stay links. -/
lemma growLoop_fails {fuel n f l : ℕ} {info i' : DirEntryInfo} {v v' : Volume}
    (h : growLoop fuel n f l info v = some (false, i', v')) :
    (l ≠ 0 → i' = info) ∧ (l = 0 → HasFree v → i'.firstCluster ≠ 0) ∧
      ∀ a, Linked v l a → getFatEntry v' a < eocMark := by
  induction n generalizing f l info v with
  | zero => cases h
  | succ n ih =>
    rw [growLoop] at h
    obtain ⟨c, hc, hf, hal, hk⟩ | ⟨hnn, hal⟩ := allocateCluster_entry v
    · dsimp only at h
      rw [if_neg (by omega), hal] at h
      generalize (if f = 0 then c else f) = first at h
      -- the entries of the old clusters once the new one is linked
      obtain ⟨v1, hv1⟩ := @exists_eq _ (setFatEntry (if l ≠ 0 then
        setFatEntry (allocateCluster v).2 l c else (allocateCluster v).2) c eocMark)
      rw [← hv1] at h
      have hl : ∀ a, Linked v l a → a ≠ c ∧ 0 < getFatEntry (zeroCluster v1 c).2 a ∧
          getFatEntry (zeroCluster v1 c).2 a < eocMark := by
        rintro a ⟨hpos, hca⟩
        have hac : a ≠ c := by
          rintro rfl
          omega
        rw [getFatEntry_zeroCluster, hv1, getFatEntry_setFatEntry_of_ne hac]
        rcases hca with ⟨ha, hlt⟩ | ⟨rfl, ha, hma, -⟩
        · have hsa : getFatEntry (if l ≠ 0 then setFatEntry (allocateCluster v).2 l c
              else (allocateCluster v).2) a = getFatEntry v a := by
            split_ifs
            · rw [getFatEntry_setFatEntry_of_ne ha, hk a hac]
            · exact hk a hac
          rw [hsa]
          exact ⟨hac, hpos, hlt⟩
        · unfold badCluster at hma
          unfold eocMark
          rw [if_pos (by omega), getFatEntry_setFatEntry,
            if_pos ⟨rfl, by rw [allocateCluster_fs]; exact ha.2⟩]
          omega
      -- the record
      obtain ⟨i1, hi1⟩ : ∃ i1, i1 = if l ≠ 0 then info else
          { info with firstCluster := c } := ⟨_, rfl⟩
      rw [← hi1] at h
      have hre : (l ≠ 0 → i1 = info) ∧ (l = 0 → HasFree v → i1.firstCluster ≠ 0) := by
        refine ⟨fun h0 => by rw [hi1, if_pos h0], fun h0 _ => ?_⟩
        rw [hi1, if_neg (by omega)]
        show c ≠ 0
        omega
      cases hz : zeroCluster v1 c with
      | mk ok v2 =>
        rw [hz] at h hl
        cases ok with
        | true =>
          obtain ⟨hin, -, hma⟩ := ih h
          rw [hin (by omega)]
          refine ⟨hre.1, hre.2, fun a ha => ?_⟩
          obtain ⟨hac, hpos, hlt⟩ := hl a ha
          exact hma a ⟨hpos, .inl ⟨hac, hlt⟩⟩
        | false =>
          dsimp only at h
          -- only zeros are written from here on
          have hfs : i' = i1 ∧ ∀ a, getFatEntry v' a ≤ getFatEntry v2 a := by
            split at h
            · cases h
            · next v3 h3 =>
              split_ifs at h
              · split at h
                · cases h
                · next v4 h4 =>
                  cases h
                  exact ⟨rfl, fun a => (getFatEntry_freeClusterChain h4 a).trans
                    (getFatEntry_freeClusterChain h3 a)⟩
              · cases h
                exact ⟨rfl, getFatEntry_freeClusterChain h3⟩
          rw [hfs.1]
          exact ⟨hre.1, hre.2, fun a ha => (hfs.2 a).trans_lt (hl a ha).2.2⟩
    have hno : ¬ HasFree v := by
      rintro ⟨c, hc, hf⟩
      exact hnn c hc hf
    rw [hal] at h
    dsimp only at h
    rw [if_pos rfl] at h
    have hot : ∀ a, Linked v l a → a ≠ l ∧ getFatEntry v a < eocMark := by
      rintro a ⟨-, ha | ⟨-, -, -, hf⟩⟩
      · exact ha
      · exact absurd hf hno
    split_ifs at h with hfi hla
    · split at h
      · cases h
      · next v1 h1 =>
        cases h
        refine ⟨fun _ => rfl, fun _ hf => absurd hf hno, fun a ha => ?_⟩
        rw [getFatEntry_setFatEntry_of_ne (hot a ha).1]
        exact (getFatEntry_freeClusterChain h1 a).trans_lt (hot a ha).2
    · split at h
      · cases h
      · next v1 h1 =>
        cases h
        exact ⟨fun _ => rfl, fun _ hf => absurd hf hno, fun a ha =>
          (getFatEntry_freeClusterChain h1 a).trans_lt (hot a ha).2⟩
    cases h
    exact ⟨fun _ => rfl, fun _ hf => absurd hf hno, fun a ha => (hot a ha).2⟩

lemma growLoop_full {fuel n l : ℕ} {i i' : DirEntryInfo} {v v' : Volume}
    (hf : ¬ HasFree v) (h : growLoop fuel n 0 l i v = some (false, i', v')) :
    i' = i ∧ v' = { v with exhausted := true } := by
  cases n with
  | zero => cases h
  | succ n =>
    obtain ⟨c, hc, hfr, -⟩ | ⟨-, ha⟩ := allocateCluster_entry v
    · exact absurd ⟨c, hc, hfr⟩ hf
    rw [growLoop, ha] at h
    cases h
    exact ⟨rfl, rfl⟩

/-- A call succeeds and stores the size, or the loop that adds clusters fails. -/
lemma adjustFileSize_inv {fuel ns : ℕ} {v : Volume} {i : DirEntryInfo} {r : Adjusted}
    (h : adjustFileSize fuel v i ns = some r) : (r.ok = true ∧ ∃ i1, r.info = storeSize i1 ns) ∨
    (r.ok = false ∧ ∃ n last, (if v.fs.clustersFor i.size > 0 then
        (countClusters fuel v i.firstCluster).map Prod.snd else some 0) = some last ∧
      growLoop fuel n 0 last i v = some (false, r.info, r.volume)) := by
  rw [adjustFileSize] at h
  dsimp only at h
  split at h
  · cases h
    exact .inl ⟨rfl, _, rfl⟩
  split at h
  · split at h
    · cases h
    next last hl =>
      split at h
      · cases h
      next hgr =>
        cases h
        exact .inr ⟨rfl, _, last, hl, hgr⟩
      · cases h
        exact .inl ⟨rfl, _, rfl⟩
  split at h
  · split at h
    · split at h
      · cases h
      · cases h
        exact .inl ⟨rfl, _, rfl⟩
    · cases h
      exact .inl ⟨rfl, _, rfl⟩
  split at h
  · cases h
  cases h
  exact .inl ⟨rfl, _, rfl⟩

/-- **Growing is not all or nothing.** A call that fails leaves the FAT and the file as
they were exactly when no cluster was free. -/
theorem adjustFileSize_restores_iff {v : Volume} (hs : v.fs.Sound) {fuel : ℕ}
    (hfuel : v.fs.maxClusterIndex ≤ fuel) {info : DirEntryInfo} {l : List ℕ}
    (hl : l = [] ∨ IsChain v.link l) (hfirst : info.firstCluster = l.headD 0)
    (hlen : l.length = v.fs.clustersFor info.size) {newSize : ℕ} {r : Adjusted}
    (hrun : adjustFileSize fuel v info newSize = some r) (hfail : r.ok = false) :
    r.Restores v info ↔ ∀ c, v.fs.InRange c → getFatEntry v c ≠ 0 := by
  have hla : (if v.fs.clustersFor info.size > 0 then
      (countClusters fuel v info.firstCluster).map Prod.snd else some 0) = some (l.getLastD 0) := by
    rw [← hlen, hfirst]
    rcases hl with rfl | hch
    · rfl
    rw [if_pos (length_pos_iff.2 hch.ne_nil),
      countClusters_eq hs hch ((length_le_maxClusterIndex hch).trans hfuel)]
    rfl
  obtain ⟨hok, -⟩ | ⟨-, n, last, hl', hgr⟩ := adjustFileSize_inv hrun
  · rw [hok] at hfail
    cases hfail
  obtain rfl : l.getLastD 0 = last := Option.some.inj (hla.symm.trans hl')
  constructor
  · rintro ⟨hfat, hin, -⟩ c hc hf
    obtain ⟨-, hem, hma⟩ := growLoop_fails hgr
    rcases hl with rfl | hch
    · exact hem rfl ⟨c, hc, hf⟩ (hin.trans hfirst)
    · have he := hch.link_getLastD 0
      have ha := inRange_of_link (v := v) (c := l.getLastD 0) (by rw [he]; simp)
      have hmr : eocMark ≤ getFatEntry v (l.getLastD 0) := by
        rw [Volume.link, if_pos ha, linkOf] at he
        split_ifs at he with h0 h1
        exact h1
      have := hma _ ⟨by unfold eocMark at hmr; omega, .inr ⟨rfl, ha, hs.marks, c, hc, hf⟩⟩
      rw [hfat] at this
      omega
  intro hfu
  obtain ⟨hin, hv⟩ := growLoop_full (not_exists.2 fun c hc => hfu c hc.1 hc.2) hgr
  rw [Adjusted.Restores, hin, hv]
  exact ⟨fun _ => rfl, rfl, rfl⟩

/-- A record of the file of `OneFile.lean` when it has one byte. -/
def oneByteInfo : DirEntryInfo := ⟨[0x41], false, 3, 1, 2, 0, 0, oneFileEntry 1 1⟩

/-- There is no further cluster. -/
theorem adjustFileSize_restores_iff_full :
    ∃ r, adjustFileSize 4 (oneFile (sampleFs 512 1 4) 1 1) oneByteInfo 513 = some r ∧ r.ok = false ∧
      r.Restores (oneFile (sampleFs 512 1 4) 1 1) oneByteInfo := by
  have hs := oneByte_wellFormed.1
  obtain ⟨r, hrun, hf⟩ : ∃ r, adjustFileSize 4 (oneFile (sampleFs 512 1 4) 1 1) oneByteInfo 513 =
      some r ∧ r.ok = false := ⟨_, rfl, rfl⟩
  refine ⟨r, hrun, hf, (adjustFileSize_restores_iff (l := [3]) hs le_rfl
    (.inr (isChain_oneFile (n := 1) (m := 0) hs (by decide) le_rfl rfl)) rfl rfl hrun hf).2 ?_⟩
  rintro c ⟨h2, h4⟩
  change c < 4 at h4
  interval_cases c <;> decide

/-- There is one cluster and two are needed: the file leads to the freed cluster 4, which
is marked as the end of a chain. -/
theorem grow_leaves_link : ∃ r,
    IsChain (oneFile (sampleFs 512 1 5) 1 1).link [3] ∧
    adjustFileSize 5 (oneFile (sampleFs 512 1 5) 1 1) oneByteInfo 1025 = some r ∧ r.ok = false ∧
    getFatEntry r.volume 3 = 4 ∧ getFatEntry r.volume 4 = eocMark ∧
    ¬ r.Restores (oneFile (sampleFs 512 1 5) 1 1) oneByteInfo := by
  have hs : (sampleFs 512 1 5).Sound := sampleFs_sound (by decide) (by decide) (by decide) (by decide)
  refine ⟨_, isChain_oneFile (n := 1) (m := 0) hs (by decide) le_rfl rfl, rfl, rfl, rfl, rfl, ?_⟩
  rintro ⟨hf, -⟩
  exact absurd (hf 3) (by decide)

/-! ## Holes -/

/-- A write that succeeds ends below 4 GiB. -/
lemma fsFileWrite_end_lt {fuel : ℕ} {s : Stack} {v v' : Volume} {p : CString} {offset : ℕ}
    {b : List UInt8} {i : DirEntryInfo} {st : Option ℕ}
    (hin : traversePath fuel (s.call 0) v p false = some (some i))
    (hsz : i.size < 2 ^ 32) (hpos : 0 < b.length)
    (hret : fsFileWrite fuel s v p offset b = some ⟨true, st, v'⟩) :
    offset + b.length < 2 ^ 32 := by
  rw [fsFileWrite, if_neg (by omega), hin] at hret
  dsimp only at hret
  split at hret
  · cases hret
  split at hret
  · cases hret
  · cases hret
  next i1 dirty v1 ha =>
    have : i1.size < 2 ^ 32 := by
      split at ha
      · obtain ⟨-, i2, h2⟩ | ⟨h2, -⟩ := adjustFileSize_inv ha
        · change i1 = storeSize i2 _ at h2
          rw [h2, storeSize]
          split_ifs <;> exact Nat.mod_lt _ (by decide)
        · cases h2
      cases ha
      exact hsz
    -- `fat32_write_chain` refuses a write that does not end within the size
    by_contra hge
    rw [writeChain, if_neg (by omega), if_pos (by omega)] at hret
    cases hret

section
variable {v v' : Volume} {own : Owner → List ℕ} (hs : v.fs.Sound) (hr : v.fs.Reliable)
  (hw : WellFormed v own) {fuel : ℕ} (hfuel : v.fs.maxClusterIndex ≤ fuel)
include hs hr hw hfuel
/-- **Holes.** After a write behind the end of a file the bytes in between read as zeros
exactly when the size is not taken for "leave the field", and the bytes behind the
old end in clusters before that of the write were zero. -/
theorem fsFileWrite_hole_iff {stack : Stack} {path : CString} (hpath : OrdinaryPath path)
    {info : DirEntryInfo} (hinfo : traversePath fuel (stack.call 0) v path false = some (some info))
    (hfile : info.isDirectory = false) {offset : ℕ} {buffer : List UInt8} (hoff : info.size < offset)
    (hpos : 0 < buffer.length) {stored : Option ℕ}
    (hret : fsFileWrite fuel stack v path offset buffer = some ⟨true, stored, v'⟩) :
    (∀ k, info.size ≤ k → k < offset → fsFileRead fuel stack v' path k 1 = some (some [0])) ↔
      offset + buffer.length ≠ uint32Max ∧ ∀ k, info.size ≤ k → k < offset →
        k / v.fs.clusterSizeBytes ≠ offset / v.fs.clusterSizeBytes →
        k < (own (some info.pos)).length * v.fs.clusterSizeBytes →
        v.byteAt (own (some info.pos)) k = 0 := by
  have hle : LeadsTo fuel (stack.call 0) v path info.pos := ⟨info, hinfo, hfile, rfl⟩
  obtain ⟨hp, hde⟩ := describes_of_traversePath hs hr hw hfuel hpath hinfo hfile
  have hlt : info.size < 2 ^ 32 := hde.size ▸ RawEntry.fileSize_lt _
  have he := fsFileWrite_end_lt hinfo hlt hpos hret
  obtain ⟨l', e, hsp, hl, hsr, hst, hro, hbt⟩ :=
    fsFileWrite_step hs hr hw hfuel hpath hinfo hfile hpos he hret
  rw [Nat.max_eq_right (by omega)] at hst hro
  have hre := hsp.fsFileRead_file hs hr hw hfuel hp hl hpath hle hsr
    (by rw [hst]; split_ifs <;> omega)
  simp only [hre, hst]
  by_cases hmax : offset + buffer.length = uint32Max
  · -- the file keeps its size, and a read at its end returns nothing
    simp only [if_pos hmax]
    refine iff_of_false (fun h => ?_) fun h => h.1 hmax
    have := h info.size le_rfl hoff
    rw [drop_of_length_le (by rw [Volume.length_bytes])] at this
    cases this
  simp only [if_neg hmax]
  have hb : ∀ k, info.size ≤ k → k < offset →
      ((v'.bytes l' 0 (offset + buffer.length)).drop k).take 1 =
        [if k / v.fs.clusterSizeBytes = offset / v.fs.clusterSizeBytes then 0
          else if k < (own (some info.pos)).length * v.fs.clusterSizeBytes then
            v.byteAt (own (some info.pos)) k else 0] := by
    intro k hk hko
    have hklt : k < (v'.bytes l' 0 (offset + buffer.length)).length := by
      rw [Volume.length_bytes]
      omega
    rw [drop_eq_getElem_cons hklt, take_succ_cons, take_zero]
    congr 1
    simp only [Volume.bytes, getElem_map, getElem_range, Nat.zero_add]
    rw [hbt k (by omega), writtenByte, if_neg (by omega)]
    split_ifs <;> first | rfl | omega
  constructor
  · refine fun h => ⟨hmax, fun k hk hko hne hold => ?_⟩
    have := h k hk hko
    rw [hb k hk hko, if_neg hne, if_pos hold] at this
    exact singleton_injective (Option.some.inj (Option.some.inj this))
  rintro ⟨-, h⟩ k hk hko
  rw [hb k hk hko]
  split_ifs with hsa hold
  · rfl
  · rw [h k hk hko hsa hold]
  · rfl
end

/-- A byte is written at 3 behind the only byte of a file: 1 and 2 read as zeros. -/
theorem fsFileWrite_hole_iff_same_cluster : ∃ v',
    fsFileWrite 4 zeroStack (oneFile (sampleFs 512 1 4) 1 1) [0x41] 3 [9] = some ⟨true, some 1, v'⟩ ∧
    ∀ k, 1 ≤ k → k < 3 → fsFileRead 4 zeroStack v' [0x41] k 1 = some (some [0]) := by
  obtain ⟨hs, hr, hw⟩ := oneByte_wellFormed
  obtain ⟨info, _, v', hin, hf, hip, his, _, hwr⟩ :=
    fsFileWrite_oneFile (n := 1) (b := fun _ _ => 0) hs hr (by decide) rfl 1 3 [9] (by decide)
    (by decide) (by decide)
      (by decide) (by decide)
  refine ⟨v', hwr, his ▸ (fsFileWrite_hole_iff hs hr hw (le_refl 4) (by decide) hin hf (by omega)
    (by decide) hwr).2 ⟨by decide, fun k _ hk hne => absurd ?_ hne⟩⟩
  change k / 512 = 3 / 512
  omega

/-- A byte is written at 512 behind the only byte of a file whose cluster holds a 7 behind
it: the hole shows the 7. -/
theorem fsFileWrite_hole_shows_slack : ∃ v',
    WellFormed (fileWith (sampleFs 512 1 5) 1 1 fun _ k => if k = 1 then 7 else 0) (oneFileOwn 1) ∧
    fsFileWrite 5 zeroStack
      (fileWith (sampleFs 512 1 5) 1 1 fun _ k => if k = 1 then 7 else 0) [0x41] 512 [9] =
      some ⟨true, some 1, v'⟩ ∧
    fsFileRead 5 zeroStack v' [0x41] 1 1 = some (some [7]) := by
  have hs : (sampleFs 512 1 5).Sound := sampleFs_sound (by decide) (by decide) (by decide) (by decide)
  exact ⟨_, oneFile_wellFormed hs (by decide) rfl (by decide) (by decide), rfl, by decide +kernel⟩
end Menios.Fat32
