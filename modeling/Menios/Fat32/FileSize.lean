import Menios.Fat32.FileChain

/-!
# The clusters of a file

What `fat32_adjust_file_size` does to the chain of a file, and
`fat32_update_dir_entry` to its slot.

Results:

* `growLoop_spec`: a file that grows gets free clusters, zeroed, behind its own.
* `adjustFileSize_cases`: afterwards the chain has the clusters the new size needs,
  and the clusters that were dropped are free, or there were not enough clusters.
* `updateDirEntry_spec`: only the slot of the file changes.
-/

namespace Menios.Fat32
open Common List RawEntry Function

/-! ## Growing -/
variable {l : List ℕ} {v : Volume}
lemma countClusters_eq (hs : v.fs.Sound) (hl : IsChain v.link l) {fl : ℕ}
    (hfuel : l.length ≤ fl) : countClusters fl v (l.headD 0) = some (l.length, l.getLastD 0) := by
  have hf : ∀ (l : List ℕ) (n a : ℕ), l.foldlM (fun (s : ℕ × ℕ) cluster =>
      (Except.ok (s.1 + 1, cluster) : Except Empty _)) (n, a) = .ok (n + l.length, l.getLastD a) := by
    intro l
    induction l with
    | nil => intro n a; rfl
    | cons c l ih =>
      intro n a
      rw [foldlM_cons]
      refine (ih (n + 1) c).trans ?_
      simp only [length_cons, getLastD_cons]
      congr 2
      omega
  cases l with
  | nil => exact absurd rfl hl.ne_nil
  | cons c l => rw [countClusters, headD_cons, walkChain_eq hs _ hl hfuel, hf, Nat.zero_add]

/-- The chain `l` (or nothing) is followed by the clusters `m`, which were free and
are zero now. -/
structure Extends (v v' : Volume) (l m : List ℕ) : Prop where
  fs : v'.fs = v.fs
  exhausted : v'.exhausted = v.exhausted
  fresh : ∀ c ∈ m, v.link c = .free
  chain : l ++ m = [] ∨ IsChain v'.link (l ++ m)
  link : ∀ c, c ∉ l → c ∉ m → v'.link c = v.link c
  data : ∀ c, c ∉ m → v'.data c = v.data c
  zero : ∀ c ∈ m, v'.data c = fun _ => 0

namespace Extends
variable {v v' v'' : Volume} {l m n : List ℕ}
lemma refl (h : l = [] ∨ IsChain v.link l) : Extends v v l [] :=
  ⟨rfl, rfl, by simp, by simpa using h, fun _ _ _ => rfl, fun _ _ => rfl, by simp⟩

lemma not_mem_of_free (h : l = [] ∨ IsChain v.link l) {c : ℕ} (hc : v.link c = .free) : c ∉ l := by
  rcases h with rfl | h
  · simp
  · exact fun hmem => h.link_ne_free hmem hc

lemma trans (h1 : Extends v v' l m) (h2 : Extends v' v'' (l ++ m) n) : Extends v v'' l (m ++ n) := by
  have hnew : ∀ c ∈ n, c ∉ l ∧ c ∉ m := by
    intro c hc
    have := not_mem_of_free h1.chain (h2.fresh c hc)
    rwa [mem_append, not_or] at this
  refine ⟨h2.fs.trans h1.fs, h2.exhausted.trans h1.exhausted, fun c hc => ?_, ?_, fun c hl hmn => ?_,
    fun c hmn => ?_, fun c hc => ?_⟩
  · rcases mem_append.1 hc with hc | hc
    · exact h1.fresh c hc
    · rw [← h1.link c (hnew c hc).1 (hnew c hc).2]
      exact h2.fresh c hc
  · rw [← append_assoc]
    exact h2.chain
  · rw [mem_append, not_or] at hmn
    rw [h2.link c (by rw [mem_append, not_or]; exact ⟨hl, hmn.1⟩) hmn.2, h1.link c hl hmn.1]
  · rw [mem_append, not_or] at hmn
    rw [h2.data c hmn.2, h1.data c hmn.1]
  rcases mem_append.1 hc with hc | hc
  · rw [h2.data c fun h => (hnew c h).2 hc, h1.zero c hc]
  · exact h2.zero c hc
end Extends

lemma inRange_getLast (h : l = [] ∨ IsChain v.link l) {a : ℕ}
    (ha : l.getLast? = some a) : v.fs.InRange a := by
  rcases h with rfl | h
  · simp at ha
  · exact inRange_of_mem h (List.mem_of_getLast? ha)

/-- **One more cluster**: the last cluster leads to `c`, which ends the chain and is
zeroed. -/
lemma extends_cluster {v v1 : Volume} (hs : v.fs.Sound) (hr : v.fs.Reliable)
    (hl : l = [] ∨ IsChain v.link l) {c : ℕ} (hc : v.link c = .free) (hf : v1.fs = v.fs)
    (hda : v1.data = v.data) (hli : v1.link = update v.link c .last)
    (he : v1.exhausted = v.exhausted) :
    (zeroCluster (setFatEntry (if l.getLastD 0 ≠ 0 then setFatEntry v1 (l.getLastD 0) c else v1)
        c eocMark) c).1 = true ∧
      Extends v (zeroCluster (setFatEntry (if l.getLastD 0 ≠ 0 then setFatEntry v1 (l.getLastD 0) c
        else v1) c eocMark) c).2 l [c] := by
  have hcin : v.fs.InRange c := (link_eq_free_iff.1 hc).1
  have hcl := Extends.not_mem_of_free hl hc
  obtain ⟨v2, hv2⟩ := @exists_eq _ (if l.getLastD 0 ≠ 0 then setFatEntry v1 (l.getLastD 0) c else v1)
  have hf2 : v2.fs = v.fs := by rw [hv2]; split_ifs <;> simp [hf]
  have hd2 : v2.data = v.data := by rw [hv2]; split_ifs <;> simp [hda]
  have he2 : v2.exhausted = v.exhausted := by rw [hv2]; split_ifs <;> simp [he]
  have hl2 : ∀ d, d ≠ c → v2.link d = if l.getLast? = some d then .next c else v.link d := by
    intro d hd
    cases ha : l.getLast? with
    | none =>
      obtain rfl : l = [] := by simpa using ha
      rw [hv2, if_neg (by simp), hli, update_of_ne hd, if_neg (by simp)]
    | some a =>
      have hain := inRange_getLast hl ha
      have hla : l.getLastD 0 = a := by rw [List.getLastD_eq_getLast?, ha]; rfl
      rw [hv2, hla, if_pos (by omega), link_setFatEntry (by rw [hf]; exact hain), hf,
        linkOf_cluster hs hcin, update_apply, hli, update_of_ne hd]
      simp only [Option.some.injEq, eq_comm]
  rw [← hv2]
  have hf3 : (setFatEntry v2 c eocMark).fs = v.fs := by rw [setFatEntry_fs, hf2]
  have hs3 : (setFatEntry v2 c eocMark).fs.Sound := hf3 ▸ hs
  have hr3 : (setFatEntry v2 c eocMark).fs.Reliable := hf3 ▸ hr
  have hc3 : (setFatEntry v2 c eocMark).fs.InRange c := hf3 ▸ hcin
  have hl' : ∀ d, (zeroCluster (setFatEntry v2 c eocMark) c).2.link d =
      if d = c then .last else if l.getLast? = some d then .next c else v.link d := by
    intro d
    rw [zeroCluster, link_writeCluster, link_setFatEntry (hf2 ▸ hcin), linkOf_eocMark, update_apply]
    split_ifs with h1 h2
    · rfl
    · rw [hl2 d h1, if_pos h2]
    · rw [hl2 d h1, if_neg h2]
  have hd' : (zeroCluster (setFatEntry v2 c eocMark) c).2.data = update v.data c fun _ => 0 := by
    rw [zeroCluster, data_writeCluster hs3 hr3 hc3, data_setFatEntry, hd2]
    congr 1
    funext k
    simp [clip]
  refine ⟨writeCluster_fst hs3 hr3 hc3 _, ?_, ?_, by simpa using hc, .inr ?_, fun d h1 h2 => ?_,
    fun d hd => ?_, ?_⟩
  · rw [zeroCluster, writeCluster_fs, hf3]
  · rw [zeroCluster, writeCluster_exhausted, setFatEntry_exhausted, he2]
  · refine IsChain.concat hl (by rw [hl', if_pos rfl]) fun d hd => ?_
    rw [hl', if_neg fun h : d = c => hcl (h ▸ hd)]
  · rw [hl', if_neg (by simpa using h2), if_neg fun h => h1 (List.mem_of_getLast? h)]
  · rw [hd', update_of_ne (by simpa using hd)]
  intro d hd
  obtain rfl := mem_singleton.1 hd
  rw [hd', update_self]

/-- **A growing file** gets `n` free clusters, zeroed, behind its own; or there were
not enough. -/
theorem growLoop_spec {fl : ℕ} :
    ∀ (n : ℕ) (info : DirEntryInfo) {v : Volume} {l m : List ℕ}, v.fs.Sound → v.fs.Reliable →
      v.fs.maxClusterIndex ≤ fl → (l ++ m = [] ∨ IsChain v.link (l ++ m)) →
      info.firstCluster = (l ++ m).headD 0 →
      (∃ new v', growLoop fl n (m.headD 0) ((l ++ m).getLastD 0) info v =
          some (true, { info with firstCluster := (l ++ m ++ new).headD 0 }, v') ∧
        new.length = n ∧ Extends v v' (l ++ m) new) ∨
      ∃ i' v', growLoop fl n (m.headD 0) ((l ++ m).getLastD 0) info v = some (false, i', v') ∧
        v'.fs = v.fs ∧ v'.exhausted = true := by
  intro n
  induction n with
  | zero =>
    intro info v l m _ _ _ hl hfirst
    refine .inl ⟨[], v, ?_, rfl, .refl hl⟩
    rw [growLoop, append_nil, ← hfirst]
  | succ n ih =>
    intro info v l m hs hr hfuel hl hfirst
    have hmem : ∀ a ∈ l ++ m, a ≠ 0 := by
      intro a ha
      rcases hl with hl | hl
      · rw [hl] at ha; simp at ha
      · have := inRange_of_mem hl ha; omega
    rcases @allocateCluster_cases v with ⟨c, hfr, hc, hli, hex⟩ | ⟨hz, hv⟩
    · have hc0 : c ≠ 0 := by have := (link_eq_free_iff.1 hfr).1; omega
      obtain ⟨hok, he⟩ := extends_cluster hs hr hl hfr allocateCluster_fs
        data_allocateCluster hli hex
      generalize hv3 : zeroCluster (setFatEntry (if (l ++ m).getLastD 0 ≠ 0 then
        setFatEntry (allocateCluster v).2 ((l ++ m).getLastD 0) c else (allocateCluster v).2)
          c eocMark) c = r at hok he
      obtain ⟨ok, v3⟩ := r
      simp only at hok he
      subst hok
      have hnew : (if m.headD 0 = 0 then c else m.headD 0) = (m ++ [c]).headD 0 := by
        cases m with
        | nil => simp
        | cons a m => simp [hmem a (by simp)]
      have hin : (if (l ++ m).getLastD 0 ≠ 0 then info else { info with firstCluster := c }) =
          { info with firstCluster := (l ++ (m ++ [c])).headD 0 } := by
        rw [← append_assoc]
        cases hlm : l ++ m with
        | nil => simp
        | cons a k =>
          have hla : (a :: k).getLastD 0 ≠ 0 := by
            refine hmem _ ?_
            rw [hlm, getLastD_cons]
            exact getLastD_mem_cons
          rw [if_pos hla, cons_append, headD_cons]
          rw [hlm, headD_cons] at hfirst
          rw [← hfirst]
      have hst : growLoop fl (n + 1) (m.headD 0) ((l ++ m).getLastD 0) info v =
          growLoop fl n ((m ++ [c]).headD 0) ((l ++ (m ++ [c])).getLastD 0)
            { info with firstCluster := (l ++ (m ++ [c])).headD 0 } v3 := by
        have hla : (l ++ (m ++ [c])).getLastD 0 = c := by rw [← append_assoc, getLastD_concat]
        rw [growLoop]
        simp only [hc, if_neg hc0, hnew, hin, hv3, hla]
      have hl3 : l ++ (m ++ [c]) = [] ∨ IsChain v3.link (l ++ (m ++ [c])) := by
        rw [← append_assoc]; exact he.chain
      rw [hst]
      rcases ih { info with firstCluster := (l ++ (m ++ [c])).headD 0 } (v := v3) (l := l)
          (m := m ++ [c]) (he.fs ▸ hs) (he.fs ▸ hr) (he.fs ▸ hfuel) hl3 rfl with
        ⟨new, v', hlo, hlen, he'⟩ | ⟨i', v', hlo, hf, hex'⟩
      · rw [← append_assoc] at he'
        refine .inl ⟨c :: new, v', ?_, by simp [hlen], he.trans he'⟩
        rw [hlo]
        simp
      · exact .inr ⟨i', v', hlo, hf.trans he.fs, hex'⟩
    -- no cluster is left: the new ones are given back
    right
    rw [growLoop]
    simp only [hz, hv, if_true]
    cases m with
    | nil => exact ⟨info, { v with exhausted := true }, by simp, rfl, rfl⟩
    | cons a m =>
      have hch : IsChain ({ v with exhausted := true } : Volume).link (a :: m) := by
        rcases hl with hl | hl
        · simp at hl
        · exact hl.suffix
      obtain ⟨v', hfd, hf, _, hex, _⟩ := freeClusterChain_spec (v := { v with exhausted := true })
        hs hch ((length_le_maxClusterIndex hch).trans hfuel)
      have ha : (a :: m).headD 0 ≠ 0 := hmem a (by simp)
      rw [if_pos ha, headD_cons, hfd]
      refine ⟨info, _, rfl, ?_, ?_⟩
      · split_ifs <;> simp [hf]
      · split_ifs <;> simp [hex]

/-! ## Shrinking and resizing -/

lemma keepLoop_eq (hs : v.fs.Sound) {a : ℕ} {t : List ℕ} :
    ∀ {k : List ℕ}, IsChain v.link (k ++ a :: t) →
      keepLoop v k.length ((k ++ a :: t).headD 0) = a := by
  intro k
  induction k with
  | nil => intro _; rfl
  | cons b k ih =>
    intro h
    obtain ⟨d, k', hd⟩ : ∃ d k', k ++ a :: t = d :: k' := by
      cases k with
      | nil => exact ⟨a, t, rfl⟩
      | cons d k => exact ⟨d, k ++ a :: t, rfl⟩
    rw [cons_append, hd] at h
    cases h with
    | cons h0 h =>
      obtain ⟨_, hget, _, he⟩ := link_eq_next hs h0
      have ih := ih (by rw [hd]; exact h)
      rw [hd, headD_cons] at ih
      rw [length_cons, cons_append, headD_cons, keepLoop]
      simp only [hget, if_neg he]
      exact ih

lemma clustersFor_zero (fs : Fat32Fs) : fs.clustersFor 0 = 0 := if_pos rfl

variable {fs : Fat32Fs}
lemma clustersFor_le_iff (hs : fs.Sound) {size n : ℕ} :
    fs.clustersFor size ≤ n ↔ size ≤ n * fs.clusterSizeBytes := by
  have hz := clusterSizeBytes_pos hs
  unfold Fat32Fs.clustersFor
  split_ifs with h
  · simp [h]
  rw [← Nat.lt_succ_iff, Nat.div_lt_iff_lt_mul hz, Nat.succ_mul]
  omega

lemma le_clustersFor_mul (hs : fs.Sound) (size : ℕ) :
    size ≤ fs.clustersFor size * fs.clusterSizeBytes :=
  (clustersFor_le_iff hs).1 le_rfl

lemma clustersFor_eq_zero_iff (hs : fs.Sound) {size : ℕ} : fs.clustersFor size = 0 ↔ size = 0 := by
  rw [← Nat.le_zero, clustersFor_le_iff hs]
  simp

/-- The chain `l` of a file becomes `l'`: one of the two begins the other, the
clusters that are added were free and are zero, and the others are freed. -/
structure Resized (v v' : Volume) (l l' : List ℕ) : Prop where
  fs : v'.fs = v.fs
  exhausted : v'.exhausted = v.exhausted
  chain : l' = [] ∨ IsChain v'.link l'
  begins : l <+: l' ∨ l' <+: l
  fresh : ∀ c ∈ l', c ∉ l → v.link c = .free
  freed : ∀ c ∈ l, c ∉ l' → v'.link c = .free
  link : ∀ c, c ∉ l → c ∉ l' → v'.link c = v.link c
  data : ∀ c, c ∉ l' ∨ c ∈ l → v'.data c = v.data c
  zero : ∀ c ∈ l', c ∉ l → v'.data c = fun _ => 0

lemma Resized.refl (h : l = [] ∨ IsChain v.link l) : Resized v v l l :=
  ⟨rfl, rfl, h, .inl (prefix_refl l), fun _ hc hc' => absurd hc hc', fun _ hc hc' => absurd hc hc',
    fun _ _ _ => rfl, fun _ _ => rfl, fun _ hc hc' => absurd hc hc'⟩

lemma Extends.resized {v v' : Volume} {l m : List ℕ} (hl : l = [] ∨ IsChain v.link l)
    (h : Extends v v' l m) : Resized v v' l (l ++ m) := by
  have hmem : ∀ {c}, c ∈ l ++ m → c ∉ l → c ∈ m := fun hc hl => (mem_append.1 hc).resolve_left hl
  refine ⟨h.fs, h.exhausted, h.chain, .inl (prefix_append l m), fun c hc hc' => ?_,
    fun c hc hc' => absurd (mem_append_left m hc) hc', fun c hc hc' => ?_, fun c hc => ?_,
    fun c hc hc' => h.zero c (hmem hc hc')⟩
  · exact h.fresh c (hmem hc hc')
  · exact h.link c hc fun hm => hc' (mem_append_right l hm)
  refine h.data c fun hm => ?_
  rcases hc with hc | hc
  · exact hc (mem_append_right l hm)
  · exact not_mem_of_free hl (h.fresh c hm) hc

/-- A chain is cut behind the cluster `a`. -/
lemma resized_cut {v v' : Volume} {k t : List ℕ} {a : ℕ} (h : IsChain v.link (k ++ a :: t))
    (hf : v'.fs = v.fs) (he : v'.exhausted = v.exhausted) (hda : v'.data = v.data)
    (hli : ∀ c, v'.link c = if c = a then .last else if c ∈ t then .free else v.link c) :
    Resized v v' (k ++ a :: t) (k ++ [a]) := by
  have hnd := h.nodup
  have hk : ∀ c ∈ k, c ≠ a ∧ c ∉ t := by
    intro c hc
    have hdis := (nodup_append.1 hnd).2.2 c hc
    exact ⟨fun hca => hdis a (by simp) hca, fun hct => hdis c (by simp [hct]) rfl⟩
  have hmem : ∀ {c}, c ∈ k ++ [a] → c ∈ k ++ a :: t := by
    intro c hc
    simp only [mem_append, mem_cons] at hc ⊢
    tauto
  refine ⟨hf, he, .inr ?_, .inr ⟨t, by simp⟩, fun c hc hc' => absurd (hmem hc) hc', fun c hc hc' => ?_,
    fun c hc hc' => ?_, fun c _ => by rw [hda], fun c hc hc' => absurd (hmem hc) hc'⟩
  · refine h.truncate (fun c hc => ?_) (by rw [hli, if_pos rfl])
    rw [hli, if_neg (hk c hc).1, if_neg (hk c hc).2]
  · simp only [mem_append, mem_cons] at hc hc'
    rw [hli, if_neg (by tauto), if_pos (by tauto)]
  simp only [mem_append, mem_cons] at hc hc'
  rw [hli, if_neg (by tauto), if_neg (by tauto)]

lemma resized_nil {v v' : Volume} (hf : v'.fs = v.fs) (he : v'.exhausted = v.exhausted)
    (hda : v'.data = v.data) (hli : ∀ c, v'.link c = if c ∈ l then .free else v.link c) :
    Resized v v' l [] :=
  ⟨hf, he, .inl rfl, .inr nil_prefix, by simp, fun c hc _ => by rw [hli, if_pos hc],
    fun c hc _ => by rw [hli, if_neg hc], fun c _ => by rw [hda], by simp⟩

/-- What `fat32_adjust_file_size` leaves in `*info`. -/
lemma storeSize_eq {info : DirEntryInfo} {nw : ℕ}
    (hfirst : info.firstCluster = l.headD 0) (hnil : nw = 0 → l = []) (hlt : nw < 2 ^ 32) :
    storeSize info nw = { info with size := nw, firstCluster := l.headD 0 } := by
  rw [storeSize, Nat.mod_eq_of_lt hlt]
  split_ifs with h
  · rw [hnil h]; rfl
  · rw [← hfirst]

section
variable {v : Volume} (hs : v.fs.Sound) (hr : v.fs.Reliable) {f : ℕ} (hfuel : v.fs.maxClusterIndex ≤ f)
  {info : DirEntryInfo} {l : List ℕ} (hl : l = [] ∨ IsChain v.link l)
  (hfirst : info.firstCluster = l.headD 0) (hlen : l.length = v.fs.clustersFor info.size)
include hs hr hfuel hl hfirst hlen
/-- **A file changes its size**: its chain has the clusters the new size needs, or
there were not enough of them. -/
theorem adjustFileSize_cases {nw : ℕ} (hlt : nw < 2 ^ 32) :
    (∃ l' dirty v', adjustFileSize f v info nw =
        some ⟨true, { info with size := nw, firstCluster := l'.headD 0 }, dirty, v'⟩ ∧
      l'.length = v.fs.clustersFor nw ∧ Resized v v' l l') ∨
    ∃ i' v', adjustFileSize f v info nw = some ⟨false, i', false, v'⟩ ∧
      v'.fs = v.fs ∧ v'.exhausted = true ∧ l.length < v.fs.clustersFor nw := by
  have hnil : ∀ {l' : List ℕ}, l'.length = v.fs.clustersFor nw → nw = 0 → l' = [] := by
    intro l' h h0
    rwa [h0, clustersFor_zero, length_eq_zero_iff] at h
  have hle : ∀ {l' : List ℕ}, l' = [] ∨ IsChain v.link l' → l'.length ≤ f := by
    rintro l' (rfl | h)
    · simp
    · exact (length_le_maxClusterIndex h).trans hfuel
  rw [adjustFileSize]
  simp only [← hlen]
  by_cases heq : v.fs.clustersFor nw = l.length
  · left
    refine ⟨l, false, v, ?_, heq.symm, .refl hl⟩
    rw [if_pos heq, storeSize_eq hfirst (hnil heq.symm) hlt]
  rw [if_neg heq]
  by_cases hgr : v.fs.clustersFor nw > l.length
  · rw [if_pos hgr]
    have hla : (if l.length > 0 then (countClusters f v info.firstCluster).map Prod.snd
        else some 0) = some (l.getLastD 0) := by
      split_ifs with h
      · rw [hfirst, countClusters_eq hs (hl.resolve_left (by rintro rfl; simp at h)) (hle hl)]
        rfl
      · obtain rfl : l = [] := length_eq_zero_iff.1 (by omega)
        rfl
    rw [hla]
    have hl' : l ++ [] = [] ∨ IsChain v.link (l ++ []) := by simpa using hl
    rcases growLoop_spec (v.fs.clustersFor nw - l.length) info hs hr hfuel hl'
        (by simpa using hfirst) with ⟨new, v', hlo, hnew, hext⟩ | ⟨i', v', hlo, hf, he⟩
    · left
      simp only [append_nil, headD_nil] at hlo hext
      have hle' : (l ++ new).length = v.fs.clustersFor nw := by rw [length_append, hnew]; omega
      refine ⟨l ++ new, true, v', ?_, hle', hext.resized hl⟩
      simp only [hlo]
      rw [storeSize_eq rfl (hnil hle') hlt]
    · right
      simp only [append_nil, headD_nil] at hlo
      exact ⟨i', v', by simp only [hlo], hf, he, hgr⟩
  rw [if_neg hgr]
  left
  have hch := hl.resolve_left (by rintro rfl; simp at heq hgr; omega)
  by_cases hz : v.fs.clustersFor nw = 0
  · obtain ⟨c, t, rfl⟩ := exists_cons_of_ne_nil hch.ne_nil
    have hc : info.firstCluster ≠ 0 := by
      have := inRange_of_mem hch mem_cons_self
      rw [hfirst, headD_cons]
      omega
    obtain ⟨v', hfr, hf, hdi, he, hli⟩ := freeClusterChain_spec hs hch (hle hl)
    refine ⟨[], true, v', ?_, hz.symm, resized_nil hf he (Volume.data_congr hf hdi) hli⟩
    rw [if_pos hz, if_pos hc, hfirst, headD_cons, hfr]
    simp only
    rw [storeSize_eq rfl (fun _ => rfl) hlt]
  -- the chain is `k`, the last cluster `a` to keep, and the rest `t`
  obtain ⟨k, a, t, hk, hkt⟩ : ∃ k a t, k.length + 1 = v.fs.clustersFor nw ∧
    l = k ++ a :: t := by
    have h : v.fs.clustersFor nw - 1 < l.length := by omega
    refine ⟨l.take (v.fs.clustersFor nw - 1), l[v.fs.clustersFor nw - 1],
      l.drop (v.fs.clustersFor nw - 1 + 1), ?_, ?_⟩
    · rw [length_take]; omega
    · rw [getElem_cons_drop, take_append_drop]
  subst hkt
  obtain ⟨b, t, rfl⟩ : ∃ b t', t = b :: t' := by
    refine exists_cons_of_ne_nil ?_
    rintro rfl
    simp at heq hgr
    omega
  have hke : keepLoop v (v.fs.clustersFor nw - 1) info.firstCluster = a := by
    rw [← hk, Nat.add_sub_cancel, hfirst, keepLoop_eq hs hch]
  obtain ⟨ha, hget, hb, hend⟩ := link_eq_next hs hch.link_of_append
  have hchb : IsChain v.link (b :: t) := by
    have happ : k ++ a :: b :: t = (k ++ [a]) ++ b :: t := by simp
    rw [happ] at hch
    exact hch.suffix
  have hne : b < eocMark ∧ b ≠ badCluster ∧ b ≥ 2 := by
    unfold EndsChain at hend
    omega
  obtain ⟨v', hfr, hf, hdi, he, hli⟩ := freeClusterChain_spec hs hchb (hle (.inr hchb))
  refine ⟨k ++ [a], true, setFatEntry v' a eocMark, ?_, by simpa using hk,
    resized_cut hch (by simp [hf]) (by simp [he]) ?_ fun c => ?_⟩
  · rw [if_neg hz]
    simp only [hke, hget, if_pos hne, hfr]
    rw [storeSize_eq (l := k ++ [a]) (by rw [hfirst]; cases k <;> rfl)
      (hnil (by simpa using hk)) hlt]
  · rw [data_setFatEntry]
    exact Volume.data_congr hf hdi
  · rw [link_setFatEntry (by rw [hf]; exact ha), linkOf_eocMark, update_apply, hli]
end

/-! ## Slots -/

lemma slotAt_setSlot (b : Buffer) (i j : ℕ) (e : RawEntry) :
    slotAt (setSlot b i e) j = if j = i then e else slotAt b j := by
  funext k
  have hdiv : (j * entrySize + k) / entrySize = j := by unfold entrySize; omega
  have hmod : (j * entrySize + k) % entrySize = k := by unfold entrySize; omega
  simp only [slotAt, setSlot, hdiv, hmod]
  split_ifs <;> rfl

@[simp] lemma clip_data (v : Volume) (c : ℕ) : clip v.fs.clusterSizeBytes (v.data c) = v.data c := by
  rw [Volume.data]
  split_ifs
  · exact clip_clip _ _
  · funext k; simp [clip]

lemma slotAt_clip {i : ℕ} (hi : i < fs.entriesPerCluster) (b : Buffer) :
    slotAt (clip fs.clusterSizeBytes b) i = slotAt b i := by
  funext k
  have hle : (i + 1) * entrySize ≤ fs.clusterSizeBytes :=
    (Nat.mul_le_mul_right _ hi).trans (Nat.div_mul_le_self _ _)
  have hlt : i * entrySize + k < fs.clusterSizeBytes := by unfold entrySize at hle ⊢; omega
  exact clip_apply_of_lt hlt b

section
variable {v : Volume} (hs : v.fs.Sound) (hr : v.fs.Reliable) {c : ℕ} (hc : v.fs.InRange c)
include hs hr hc
lemma slot_writeCluster (b : Buffer) (q : EntryPos) : (writeCluster v c b).2.slot q =
      if q.cluster = c then slotAt (clip v.fs.clusterSizeBytes b) q.index else v.slot q := by
  rw [Volume.slot, data_writeCluster hs hr hc, update_apply]
  split_ifs <;> rfl

/-- **One slot is written.** -/
lemma slot_writeCluster_setSlot {i : ℕ} (hi : i < v.fs.entriesPerCluster) (e : RawEntry) :
    (writeCluster v c (setSlot (v.data c) i e)).2.slot = update v.slot ⟨c, i⟩ e := by
  funext q
  obtain ⟨d, j⟩ := q
  rw [slot_writeCluster hs hr hc, update_apply]
  simp only [EntryPos.mk.injEq]
  by_cases hd : d = c
  · subst hd
    by_cases hj : j = i
    · subst hj
      rw [if_pos rfl, if_pos ⟨rfl, rfl⟩, slotAt_clip hi, slotAt_setSlot, if_pos rfl]
    · have hold : v.slot ⟨d, j⟩ = slotAt (clip v.fs.clusterSizeBytes (v.data d)) j := by
        rw [clip_data]; rfl
      rw [if_pos rfl, if_neg fun h => hj h.2, hold]
      funext k
      have hsl := congrFun (slotAt_setSlot (v.data d) i j e) k
      rw [if_neg hj] at hsl
      simp only [slotAt, clip] at hsl ⊢
      rw [hsl]
  · rw [if_neg hd, if_neg fun h => hd h.1]
end

/-! ## The slot of a file -/
section
variable {e : RawEntry} {nf ns : ℕ}
lemma patchEntry_apply {j : Fin 32} (h : j.val < 20) : patchEntry e nf ns j = e j := by
  unfold patchEntry
  split_ifs
  · rw [setFileSize_apply _ _ (by omega), setFirstCluster_apply _ _ h]
  · rw [setFileSize_apply _ _ (by omega)]
  · rw [setFirstCluster_apply _ _ h]
  · rfl

variable (e : RawEntry)
lemma patchEntry_look (nf ns : ℕ) : (patchEntry e nf ns).kind = e.kind ∧
    (patchEntry e nf ns).name = e.name ∧ (patchEntry e nf ns).isDirectory = e.isDirectory := by
  have hb : ∀ j : Fin 32, j.val < 12 → patchEntry e nf ns j = e j :=
    fun j hj => patchEntry_apply (by omega)
  obtain ⟨hna, ha, hfirst⟩ := name_congr hb
  refine ⟨?_, hna, ?_⟩
  · simp only [kind, hfirst, ha]
  · simp only [isDirectory, ha]

lemma firstCluster_patchEntry (ns : ℕ) (h : nf < uint32Max) :
    (patchEntry e nf ns).firstCluster = nf := by
  have hlt : nf < 2 ^ 32 := by unfold uint32Max at h; omega
  rw [patchEntry, if_pos h.ne]
  split_ifs
  · rw [firstCluster_setFileSize, firstCluster_setFirstCluster _ _ hlt]
  · rw [firstCluster_setFirstCluster _ _ hlt]

/-- A size of `UINT32_MAX` is not stored. -/
lemma fileSize_patchEntry (nf : ℕ) (h : ns < 2 ^ 32) : (patchEntry e nf ns).fileSize =
    if ns = uint32Max then e.fileSize else ns := by
  have hfirst : (if nf ≠ uint32Max then e.setFirstCluster nf else e).fileSize = e.fileSize := by
    split_ifs
    · exact fileSize_setFirstCluster _ _
    · rfl
  unfold patchEntry
  by_cases hmax : ns = uint32Max
  · simp only [if_pos hmax, if_neg (not_not.2 hmax)]
    exact hfirst
  simp only [if_neg hmax, if_pos hmax]
  exact fileSize_setFileSize _ _ h
end

lemma headD_lt_uint32Max (hs : v.fs.Sound) (h : l = [] ∨ IsChain v.link l) :
    l.headD 0 < uint32Max := by
  rcases h with rfl | h
  · decide
  obtain ⟨c, l, rfl⟩ := exists_cons_of_ne_nil h.ne_nil
  have := inRange_of_mem h mem_cons_self
  have hm := hs.marks
  rw [headD_cons]
  unfold badCluster at hm
  unfold uint32Max
  omega

/-- **`fat32_update_dir_entry` changes one slot.** -/
theorem updateDirEntry_spec (hs : v.fs.Sound) (hr : v.fs.Reliable) {info : DirEntryInfo}
    (hc : v.fs.InRange info.dirCluster) (hi : info.dirEntryIndex < v.fs.entriesPerCluster)
    (nw ne : ℕ) : ∃ v', updateDirEntry v info nw ne = (true, v') ∧ v'.fs = v.fs ∧ v'.fat = v.fat ∧
      v'.exhausted = v.exhausted ∧ (∀ c, c ≠ info.dirCluster → v'.data c = v.data c) ∧
      v'.slot = update v.slot info.pos (patchEntry (v.slot info.pos) nw ne) := by
  refine ⟨_, ?_, ?_, ?_, ?_, fun c hne => ?_, slot_writeCluster_setSlot hs hr hc hi _⟩
  · rw [updateDirEntry, if_neg (by omega), readCluster_eq hs hr hc]
    simp only
    rw [← writeCluster_fst hs hr hc]
    rfl
  · exact writeCluster_fs _ _
  · exact writeCluster_fat _ _
  · exact writeCluster_exhausted _ _
  · rw [data_writeCluster hs hr hc, update_of_ne hne]
end Menios.Fat32
