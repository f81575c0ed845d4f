import Menios.Fat32.FileSize
import Menios.Fat32.Resolve

/-!
# The calls that change a file

What `fs_file_write` does to a file of a well-formed volume.

Results:

* `fsFileWrite_cases`: it is a `FileStep`, or there were not enough clusters.
-/

namespace Menios.Fat32
open Common List

/-! ## A file and its place -/

/-- A file of the volume. -/
structure IsFile (v : Volume) (own : Owner → List ℕ) (p : EntryPos) : Prop where
  live : Live v own (some p)
  file : (v.slot p).isDirectory = false

/-- Where the entry of a file lies. -/
structure Placed (v : Volume) (l : List ℕ) (p : EntryPos) : Prop where
  inRange : v.fs.InRange p.cluster
  index : p.index < v.fs.entriesPerCluster
  notMem : p.cluster ∉ l
  notFree : v.link p.cluster ≠ .free

lemma WellFormed.placed {v : Volume} {own : Owner → List ℕ} (hw : WellFormed v own) {p : EntryPos}
    (hp : IsFile v own p) : Placed v (own (some p)) p := by
  obtain ⟨o, _, hd, hmem⟩ := exists_dir hp.live
  obtain ⟨hc, hi⟩ := cluster_mem_of_mem_entries hmem
  have hch := hw.owned.isChain hc
  exact ⟨inRange_of_mem hch hc, hi, cluster_not_mem hw (owner_ne hd hp.file).symm hmem,
    hch.link_ne_free hc⟩

/-! ## Steps -/

/-- What a call does to the file `p`: its chain `l` becomes `l'`, its entry becomes
`e`, and nothing else changes. -/
structure FileStep (v v' : Volume) (p : EntryPos) (l l' : List ℕ) (e : RawEntry) : Prop where
  fs : v'.fs = v.fs
  exhausted : v'.exhausted = v.exhausted
  chain : l' = [] ∨ IsChain v'.link l'
  fresh : ∀ c ∈ l', c ∉ l → v.link c = .free
  freed : ∀ c ∈ l, c ∉ l' → v'.link c = .free
  link : ∀ c, c ∉ l → c ∉ l' → v'.link c = v.link c
  data : ∀ c, c ∉ l → c ∉ l' → c ≠ p.cluster → v'.data c = v.data c
  slot : ∀ q : EntryPos, q.cluster ∉ l → q.cluster ∉ l' → v'.slot q = if q = p then e else v.slot q

namespace FileStep
variable {v v' : Volume} {p : EntryPos} {l l' : List ℕ} {e : RawEntry}
lemma flush (h : FileStep v v' p l l' e) (hs : v.fs.Sound) : FileStep v (flushFat v').2 p l l' e := by
  have hda : (flushFat v').2.data = v'.data := data_flushFat (h.fs ▸ hs)
  exact { h with
    data := by rw [hda]; exact h.data
    slot := fun q h1 h2 => by rw [← h.slot q h1 h2, Volume.slot, hda]; rfl }
end FileStep

/-- A chain that was resized, whose bytes were changed, and whose entry is stored. -/
lemma storeEntry {v v1 v2 : Volume} {p : EntryPos} {l l' : List ℕ} (hs : v.fs.Sound) (hr : v.fs.Reliable)
    (hp : Placed v l p) (hres : Resized v v1 l l') (hf : v2.fs = v1.fs) (hfat : v2.fat = v1.fat)
    (he : v2.exhausted = v1.exhausted) (hda : ∀ c, c ∉ l' → v2.data c = v1.data c)
    (info : DirEntryInfo) (hpos : info.pos = p) (n ns : ℕ) :
    ∃ v', updateDirEntry v2 info n ns = (true, v') ∧
      FileStep v v' p l l' (patchEntry (v.slot p) n ns) ∧ ∀ c ∈ l', v'.data c = v2.data c := by
  have hf2 : v2.fs = v.fs := hf.trans hres.fs
  have hl2 : v2.link = v1.link := Volume.link_congr hf hfat
  -- the entry lies in none of the clusters of the file
  have hp' : p.cluster ∉ l' := fun h => hp.notFree (hres.fresh _ h hp.notMem)
  have hold : ∀ c, c ∉ l' → v2.data c = v.data c := fun c hc => by
    rw [hda c hc, hres.data c (.inl hc)]
  obtain rfl := hpos
  have hc : v2.fs.InRange info.dirCluster := hf2 ▸ hp.inRange
  have hi : info.dirEntryIndex < v2.fs.entriesPerCluster := hf2 ▸ hp.index
  obtain ⟨v', hu, hf', hfa', he', hd', hsl⟩ := updateDirEntry_spec (hf2 ▸ hs) (hf2 ▸ hr) hc hi n ns
  have hl' : v'.link = v1.link := (Volume.link_congr hf' hfa').trans hl2
  have hslotOld : ∀ q : EntryPos, q.cluster ∉ l' → v2.slot q = v.slot q := fun q hq => by
    rw [Volume.slot, Volume.slot, hold _ hq]
  refine ⟨v', hu, ⟨hf'.trans hf2, he'.trans (he.trans hres.exhausted), ?_, hres.fresh, ?_, ?_,
    fun c _ h2 h3 => ?_, fun q _ h2 => ?_⟩, fun c hc => ?_⟩
  · rw [hl']; exact hres.chain
  · rw [hl']; exact hres.freed
  · rw [hl']; exact hres.link
  · rw [hd' c h3, hold c h2]
  · rw [hsl, Function.update_apply, hslotOld _ hp']
    split_ifs
    · rfl
    · exact hslotOld q h2
  · exact hd' c fun h => hp' (show info.dirCluster ∈ l' from h ▸ hc)

lemma Resized.byteAt {v v' : Volume} {l l' : List ℕ} (h : Resized v v' l l')
    (hz : 0 < v.fs.clusterSizeBytes)
    (hle : l.length ≤ l'.length) {k : ℕ} (hk : k < l'.length * v.fs.clusterSizeBytes) :
    v'.byteAt l' k = if k < l.length * v.fs.clusterSizeBytes then v.byteAt l k else 0 := by
  obtain ⟨m, rfl⟩ : l <+: l' := by
    rcases h.begins with hp | hp
    · exact hp
    · rw [hp.eq_of_length_le hle]
  have hnd : (l ++ m).Nodup := by
    rcases h.chain with h0 | h0
    · rw [h0]; exact nodup_nil
    · exact h0.nodup
  split_ifs with hlt
  · rw [byteAt_append_left (by rw [h.fs]; exact hlt)]
    exact byteAt_congr h.fs (fun c hc => h.data c (.inr hc)) hlt
  rw [byteAt_append_right (h.fs ▸ hz) (by rw [h.fs]; omega), h.fs]
  have hk' : k - l.length * v.fs.clusterSizeBytes < m.length * v.fs.clusterSizeBytes := by
    rw [length_append, Nat.add_mul] at hk; omega
  have hidx : (k - l.length * v.fs.clusterSizeBytes) / v.fs.clusterSizeBytes < m.length :=
    (Nat.div_lt_iff_lt_mul hz).2 hk'
  have hmem := getElem_mem hidx
  rw [Volume.byteAt, h.fs, getD_eq_getElem _ _ hidx,
    h.zero _ (mem_append_right l hmem) fun hl => (nodup_append.1 hnd).2.2 _ hl _ hmem rfl]

/-! ## The calls -/
section
variable {v : Volume} {own : Owner → List ℕ} (hs : v.fs.Sound) (hr : v.fs.Reliable)
  (hw : WellFormed v own) {f : ℕ} (hfuel : v.fs.maxClusterIndex ≤ f) {info : DirEntryInfo}
  {p : EntryPos} (hp : IsFile v own p) (hdesc : Describes v info p)
include hw hp hdesc in
lemma firstCluster_of_describes : info.firstCluster = (own (some p)).headD 0 := by
  rw [hdesc.first, if_neg (by simp [hp.file]), hw.start p hp.live]

include hw hp hdesc in
lemma length_of_describes : (own (some p)).length = v.fs.clustersFor info.size := by
  rw [hdesc.size, hw.files p hp.live hp.file]

include hs hr hw hfuel hp hdesc
/-- **`fs_file_write`** of at least one byte to a file. -/
theorem fsFileWrite_cases {s : Stack} {pt : CString} {o : ℕ} {b : List UInt8}
    (hpa : traversePath f (s.call 0) v pt false = some (some info))
    (hpos : 0 < b.length) (he : o + b.length < 2 ^ 32) :
    (∃ l' v', fsFileWrite f s v pt o b = some ⟨true, some b.length, v'⟩ ∧
      FileStep v v' p (own (some p)) l' (patchEntry (v.slot p) (l'.headD 0)
        (max (v.slot p).fileSize (o + b.length))) ∧
      l'.length = v.fs.clustersFor (max (v.slot p).fileSize (o + b.length)) ∧
      ∀ k < l'.length * v.fs.clusterSizeBytes, v'.byteAt l' k =
        writtenByte (v.slot p).fileSize o b v.fs.clusterSizeBytes
          (fun k => if k < (own (some p)).length * v.fs.clusterSizeBytes then v.byteAt (own (some p)) k
            else 0) k) ∨ ∃ v', fsFileWrite f s v pt o b = some ⟨false, none, v'⟩ ∧ v'.fs = v.fs ∧
      v'.exhausted = true ∧ (own (some p)).length < v.fs.clustersFor (o + b.length) := by
  have hpl := hw.placed hp
  have hf := firstCluster_of_describes hw hp hdesc
  have hl := length_of_describes hw hp hdesc
  have hfl : info.isDirectory = false := hdesc.dir.trans hp.file
  have hmod : (o + b.length) % 2 ^ 64 = o + b.length := Nat.mod_eq_of_lt (by omega)
  rw [← hdesc.size]
  obtain ⟨size, hmax⟩ : ∃ size, max info.size (o + b.length) = size := ⟨_, rfl⟩
  rw [hmax]
  rw [fsFileWrite, if_neg (by omega), hpa]
  simp only [hfl, hmod, Bool.false_eq_true, if_false]
  -- the size is adjusted only when the write ends behind the end of the file
  have ha : (∃ l' dirty v1, (if o + b.length > info.size then
        adjustFileSize f v info (o + b.length) else some ⟨true, info, false, v⟩) =
          some ⟨true, { info with size := size, firstCluster := l'.headD 0 }, dirty, v1⟩ ∧
        l'.length = v.fs.clustersFor size ∧ Resized v v1 (own (some p)) l') ∨
      ∃ i' v1, (if o + b.length > info.size then
        adjustFileSize f v info (o + b.length) else some ⟨true, info, false, v⟩) =
          some ⟨false, i', false, v1⟩ ∧ v1.fs = v.fs ∧ v1.exhausted = true ∧
            (own (some p)).length < v.fs.clustersFor (o + b.length) := by
    by_cases hgt : o + b.length > info.size
    · obtain rfl : o + b.length = size := by omega
      rw [if_pos hgt]
      exact adjustFileSize_cases hs hr hfuel (hw.owned.chain _) hf hl he
    obtain rfl : info.size = size := by omega
    rw [if_neg hgt]
    exact .inl ⟨own (some p), false, v, by rw [← hf], hl, .refl (hw.owned.chain _)⟩
  rcases ha with ⟨l', dirty, v1, ha, hl', hres⟩ | ⟨i', v1, ha, hfa⟩
  · left
    rw [ha]
    have hs1 : v1.fs.Sound := hres.fs ▸ hs
    have hr1 : v1.fs.Reliable := hres.fs ▸ hr
    have hne : l' ≠ [] := by
      rintro rfl
      have := (clustersFor_eq_zero_iff hs).1 hl'.symm
      omega
    have hc := hres.chain.resolve_left hne
    have hro : size ≤ l'.length * v.fs.clusterSizeBytes := by
      rw [hl']; exact le_clustersFor_mul hs size
    obtain ⟨v2, hwr, hf2, hfa2, he2, hd2, hb⟩ := writeChain_spec hs1 hr1
      { info with size := size, firstCluster := l'.headD 0 } hc rfl
      ((length_le_maxClusterIndex hc).trans (hres.fs ▸ hfuel)) (by rw [hres.fs]; exact hro)
      info.size hpos (show o + b.length ≤ size by omega)
    obtain ⟨v3, hu, hst, hd3⟩ := storeEntry hs hr hpl hres hf2 hfa2 he2 hd2
      { info with size := size, firstCluster := l'.headD 0 } hdesc.pos (l'.headD 0) size
    have hnot : ¬ (o + b.length) % 2 ^ 64 > size := by omega
    have hle : (own (some p)).length ≤ l'.length := by
      rw [hl, hl', clustersFor_le_iff hs]
      exact (show info.size ≤ size by omega).trans (le_clustersFor_mul hs size)
    have hb3 : ∀ k < l'.length * v.fs.clusterSizeBytes, v3.byteAt l' k =
        writtenByte info.size o b v.fs.clusterSizeBytes (fun k =>
          if k < (own (some p)).length * v.fs.clusterSizeBytes then
          v.byteAt (own (some p)) k else 0) k := by
      intro k hk
      rw [byteAt_congr (hst.fs.trans (hf2.trans hres.fs).symm) hd3 (by rw [hf2, hres.fs]; exact hk),
        hb k (by rw [hres.fs]; exact hk), hres.fs]
      exact writtenByte_congr (hres.byteAt (clusterSizeBytes_pos hs) hle hk)
    simp only [hwr, Option.getD_some, if_neg hnot, hu, decide_true]
    have hs3 : v3.fs.Sound := hst.fs ▸ hs
    cases dirty with
    | false => exact ⟨l', v3, rfl, hst, hl', hb3⟩
    | true =>
      refine ⟨l', (flushFat v3).2, ?_, hst.flush hs, hl', fun k hk => ?_⟩
      · rw [flushFat_eq hs3 (hst.fs ▸ hr)]
        rfl
      · rw [byteAt_flushFat hs3, hb3 k hk]
  right
  rw [ha]
  exact ⟨v1, rfl, hfa⟩
end
end Menios.Fat32
