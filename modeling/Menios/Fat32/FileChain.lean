import Menios.Fat32.Integrity

/-!
# The bytes of a file

What `fat32_read_chain` and `fat32_write_chain` do when the chain of the file is
proper.

Results:

* `readChain_eq`: a read returns the bytes of the file.
* `writeChain_spec`: a write stores its bytes at their places and, in the cluster
  where it begins, zeros between the old end of the file and its first byte.
-/

namespace Menios.Fat32
open Common List Nat Volume

/-! ## Bytes -/

/-- Byte `k` of the clusters `l`. -/
def Volume.byteAt (v : Volume) (l : List ℕ) (k : ℕ) : UInt8 :=
  v.data (l.getD (k / v.fs.clusterSizeBytes) 0) (k % v.fs.clusterSizeBytes)

/-- The `n` bytes from `start` on. -/
def Volume.bytes (v : Volume) (l : List ℕ) (start n : ℕ) : List UInt8 :=
  (List.range n).map fun i => v.byteAt l (start + i)

lemma Volume.bytes_append (v : Volume) (l : List ℕ) (s m n : ℕ) :
    v.bytes l s (m + n) = v.bytes l s m ++ v.bytes l (s + m) n := by
  simp only [bytes, range_add, map_append, map_map, Nat.add_assoc]
  rfl

@[simp] lemma Volume.length_bytes (v : Volume) (l : List ℕ) (start n : ℕ) :
    (v.bytes l start n).length = n := by
  simp [bytes]

lemma clusterSizeBytes_pos {f : Fat32Fs} (hs : f.Sound) : 0 < f.clusterSizeBytes := by
  rw [hs.clusterSize]
  exact Nat.mul_pos hs.perCluster (by have := hs.sector; omega)

variable {v : Volume} {pr sl : List ℕ} {c k : ℕ}
/-- The byte at offset `j` of the cluster behind `pre`. -/
lemma byteAt_append (h1 : pr.length * v.fs.clusterSizeBytes ≤ k)
    (h2 : k < (pr.length + 1) * v.fs.clusterSizeBytes) :
    v.byteAt (pr ++ c :: sl) k = v.data c (k - pr.length * v.fs.clusterSizeBytes) := by
  have hdiv : k / v.fs.clusterSizeBytes = pr.length := by
    refine Nat.div_eq_of_lt_le ?_ h2
    exact h1
  have hmod : k % v.fs.clusterSizeBytes = k - pr.length * v.fs.clusterSizeBytes := by
    rw [mod_eq_sub_mul_div, hdiv, Nat.mul_comm]
  rw [byteAt, hdiv, hmod]
  congr 2
  simp

lemma byteAt_append_right (hz : 0 < v.fs.clusterSizeBytes)
    (h : pr.length * v.fs.clusterSizeBytes ≤ k) :
    v.byteAt (pr ++ sl) k = v.byteAt sl (k - pr.length * v.fs.clusterSizeBytes) := by
  obtain ⟨m, rfl⟩ := Nat.exists_eq_add_of_le h
  have hdiv : (pr.length * v.fs.clusterSizeBytes + m) / v.fs.clusterSizeBytes =
      pr.length + m / v.fs.clusterSizeBytes := by
    rw [Nat.mul_comm, mul_add_div hz]
  rw [byteAt, byteAt, hdiv, mul_add_mod', Nat.add_sub_cancel_left,
    getD_append_right _ _ _ _ (Nat.le_add_right _ _), Nat.add_sub_cancel_left]

lemma byteAt_append_left (h : k < pr.length * v.fs.clusterSizeBytes) :
    v.byteAt (pr ++ sl) k = v.byteAt pr k := by
  have hlt : k / v.fs.clusterSizeBytes < pr.length := Nat.div_lt_of_lt_mul (by rwa [Nat.mul_comm])
  rw [byteAt, byteAt, getD_append _ _ _ _ hlt]

variable {l : List ℕ}
lemma byteAt_congr {v' : Volume} (hf : v'.fs = v.fs) (h : ∀ c ∈ l, v'.data c = v.data c)
    (hk : k < l.length * v.fs.clusterSizeBytes) : v'.byteAt l k = v.byteAt l k := by
  have hlt : k / v.fs.clusterSizeBytes < l.length := Nat.div_lt_of_lt_mul (by rwa [Nat.mul_comm])
  rw [byteAt, byteAt, hf, getD_eq_getElem _ _ hlt, h _ (getElem_mem hlt)]

@[simp] lemma byteAt_flushFat (hs : v.fs.Sound) (l : List ℕ) (k : ℕ) :
    (flushFat v).2.byteAt l k = v.byteAt l k := by
  rw [byteAt, data_flushFat hs]
  rfl

lemma slice_eq_bytes (sl : List ℕ) {z q n : ℕ} (hz : v.fs.clusterSizeBytes = z)
    (h1 : pr.length * z ≤ q) (h2 : q + n ≤ (pr.length + 1) * z) :
    (v.data c).slice (q - pr.length * z) n = v.bytes (pr ++ c :: sl) q n := by
  subst hz
  unfold Buffer.slice bytes
  refine map_congr_left fun i hi => ?_
  rw [mem_range] at hi
  rw [byteAt_append (by omega) (by omega)]
  congr 1
  omega

lemma bytes_congr {v' : Volume} (hf : v'.fs = v.fs) {s n : ℕ}
    (h : ∀ c ∈ l, v'.data c = v.data c) (hn : s + n ≤ l.length * v.fs.clusterSizeBytes) :
    v'.bytes l s n = v.bytes l s n := by
  refine map_congr_left fun i hi => byteAt_congr hf h ?_
  have := mem_range.1 hi
  omega

lemma bytes_eq_take_drop (v : Volume) (l : List ℕ) (s offset ln : ℕ) :
    v.bytes l offset (min ln (s - offset)) = ((v.bytes l 0 s).drop offset).take ln := by
  apply ext_getElem
  · simp
  intro i h1 h2
  simp [bytes]

/-! ## Reading -/

/-- A turn of the loop, for the `i`-th cluster of a file: it skips the cluster, or copies from
where the read begins in it. -/
lemma readTurn (hs : v.fs.Sound) (hr : v.fs.Reliable) {z : ℕ} (hz : v.fs.clusterSizeBytes = z)
    (hc : v.fs.InRange c) (offset f i : ℕ) {r : ℕ} (hpos : r > 0)
    (o : List UInt8) {q n : ℕ} (hq : q = max offset (i * z))
    (hn : n = min (i * z + z - q) r) : readChainLoop v offset (f + 1) c i r o =
      if offset ≥ i * z + z then readChainLoop v offset f (getFatEntry v c) (i + 1) r o
      else if EndsChain (getFatEntry v c) then some (some (o ++ (v.data c).slice (q - i * z) n))
      else readChainLoop v offset f (getFatEntry v c) (i + 1) (r - n)
        (o ++ (v.data c).slice (q - i * z) n) := by
  rw [readChainLoop, if_pos ⟨hc, hpos⟩, readCluster_eq hs hr hc]
  dsimp only
  rw [hz]
  have hst : (if offset > i * z then offset - i * z else 0) = q - i * z := by split_ifs <;> omega
  have hco : (if z - (q - i * z) < r then z - (q - i * z) else r) = n := by split_ifs <;> omega
  rw [hst, hco]
  unfold EndsChain
  split_ifs <;> first | rfl | omega

lemma readChainLoop_eq (hs : v.fs.Sound) (hr : v.fs.Reliable) (offset : ℕ) :
    ∀ (sl pr : List ℕ) {c f : ℕ} (r : ℕ) (o : List UInt8), IsChain v.link (c :: sl) →
      (c :: sl).length < f → max offset (pr.length * v.fs.clusterSizeBytes) + r ≤
        (pr ++ c :: sl).length * v.fs.clusterSizeBytes → readChainLoop v offset f c pr.length r o =
        some (some (o ++ v.bytes (pr ++ c :: sl)
          (max offset (pr.length * v.fs.clusterSizeBytes)) r)) := by
  obtain ⟨z, hz⟩ : ∃ z, v.fs.clusterSizeBytes = z := ⟨_, rfl⟩
  rw [hz]
  intro sl
  induction sl with
  | nil =>
    intro pr c f r o hch hf hro
    obtain ⟨f, rfl⟩ : ∃ n, f = n + 1 := ⟨f - 1, by simp at hf; omega⟩
    by_cases h0 : r = 0
    · subst h0
      rw [readChainLoop, if_neg (by simp)]
      simp [bytes]
    have he : EndsChain (getFatEntry v c) := by
      cases hch with
      | last h => exact (link_eq_last h).2
    rw [length_append, length_singleton] at hro
    have hl : (pr.length + 1) * z = pr.length * z + z := succ_mul _ _
    have hmax := le_max_left offset (pr.length * z)
    rw [readTurn hs hr hz (inRange_of_mem hch mem_cons_self) offset f _ (by omega) o rfl rfl,
      if_neg (by omega), if_pos he, Nat.min_eq_right (by omega),
      slice_eq_bytes [] hz (le_max_right _ _) hro]
  | cons d sl ih =>
    intro pr c f r o hch hf hro
    obtain ⟨f, rfl⟩ : ∃ n, f = n + 1 := ⟨f - 1, by simp at hf; omega⟩
    have hc := inRange_of_mem hch mem_cons_self
    by_cases h0 : r = 0
    · subst h0
      rw [readChainLoop, if_neg (by simp)]
      simp [bytes]
    cases hch with
    | cons hne hch =>
      obtain ⟨_, hget, _, he⟩ := link_eq_next hs hne
      have hlt : (d :: sl).length < f := by simp at hf ⊢; omega
      have ha : pr ++ c :: d :: sl = (pr ++ [c]) ++ d :: sl := by simp
      have hrec := fun r o => ih (pr ++ [c]) r o hch hlt
      have hidx : (pr ++ [c]).length = pr.length + 1 := by simp
      have hl : (pr.length + 1) * z = pr.length * z + z := succ_mul _ _
      have : (pr.length + 1) * z + z ≤ (pr ++ c :: d :: sl).length * z := by
        rw [← succ_mul]
        exact Nat.mul_le_mul_right _ (by simp)
      rw [← ha, hidx] at hrec
      obtain ⟨q, hq⟩ := @exists_eq _ (max offset (pr.length * z))
      obtain ⟨n, hn⟩ := @exists_eq _ (min (pr.length * z + z - q) r)
      rw [readTurn hs hr hz hc offset f _ (by omega) o hq hn, hget, ← hq]
      rw [← hq] at hro
      split_ifs with hsk
      · -- the read begins behind this cluster
        have hmax : max offset ((pr.length + 1) * z) = q := by omega
        rw [hrec _ _ (by rw [hmax]; exact hro), hmax]
      have hmax : max offset ((pr.length + 1) * z) = pr.length * z + z := by omega
      rw [slice_eq_bytes (d :: sl) hz (by omega) (by omega), hrec _ _ (by rw [hmax]; omega),
        append_assoc, hmax]
      congr 3
      obtain ⟨m, rfl⟩ : ∃ m, r = n + m := ⟨r - n, by omega⟩
      rw [bytes_append, Nat.add_sub_cancel_left]
      congr 1
      by_cases hm : m = 0
      · simp [hm, bytes]
      · rw [show q + n = pr.length * z + z by omega]

/-- **A read returns the bytes of the file.** -/
theorem readChain_eq (hs : v.fs.Sound) (hr : v.fs.Reliable) {s f : ℕ}
    (hl : l = [] ∨ IsChain v.link l) (hc : l.headD 0 = c) (hlen : l.length < f)
    (hsz : s ≤ l.length * v.fs.clusterSizeBytes) (offset ln : ℕ) : readChain f v c s offset ln =
      some (some (v.bytes l offset (min ln (s - offset)))) := by
  rw [readChain]
  by_cases h0 : ln = 0
  · rw [if_pos h0, h0]
    simp [bytes]
  rw [if_neg h0]
  by_cases hoff : offset > s
  · rw [if_pos hoff, show s - offset = 0 by omega]
    simp [bytes]
  rw [if_neg hoff]
  dsimp only
  have hrem : (if ln > s - offset then s - offset else ln) = min ln (s - offset) := by
    split_ifs <;> omega
  rw [hrem]
  cases l with
  | nil =>
    obtain ⟨f, rfl⟩ : ∃ n, f = n + 1 := ⟨f - 1, by simp at hlen; omega⟩
    have hz : min ln (s - offset) = 0 := by simp at hsz; omega
    rw [readChainLoop, hz, if_neg (by simp)]
    simp [bytes]
  | cons d l =>
    have hch := hl.resolve_left (by simp)
    have hlo := readChainLoop_eq hs hr offset l [] (min ln (s - offset)) [] hch hlen
    simp only [length_nil, Nat.zero_mul, Nat.max_zero, nil_append] at hlo
    rw [← hc]
    exact hlo (by omega)

/-! ## Writing -/

/-- What a write of `src` at `offset` makes of byte `k` of a file that had
`previousSize` bytes, in clusters of `z` bytes. -/
def writtenByte (previousSize offset : ℕ) (src : List UInt8) (z : ℕ) (old : ℕ → UInt8) (k : ℕ) : UInt8 :=
  if offset ≤ k ∧ k < offset + src.length then src.getD (k - offset) 0
  else if previousSize ≤ k ∧ k < offset ∧ k / z = offset / z then 0
  else old k

variable {p offset z : ℕ} {s : List UInt8}
lemma writeBuffer_apply {b w m : ℕ} {bf : Buffer} (hba : z ∣ b)
    (h1 : b ≤ offset + w) (h2 : offset + w < b + z)
    (h3 : w = 0 ∨ offset + w = b) (h4 : w ≤ s.length) (hm : m < z) :
    writeBuffer p z b (offset + w - b) s w (min (z - (offset + w - b)) (s.length - w)) bf m =
      writtenByte p offset s z (fun k => bf (k - b)) (b + m) := by
  obtain ⟨i, rfl⟩ := hba
  have hl : ((s.drop w).take (min (z - (offset + w - z * i))
    (s.length - w))).length =
      min (z - (offset + w - z * i)) (s.length - w) := by
    rw [length_take, length_drop]
    omega
  have hdiv : (z * i + m) / z = i := by rw [mul_add_div (by omega), div_eq_of_lt hm, Nat.add_zero]
  simp only [writeBuffer, Buffer.blit, hl, writtenByte, hdiv]
  -- what lies behind the old end of the file
  generalize hv : (if p > z * i then
    if p - z * i > z then z else p - z * i else 0) = validBytes
  have hold : validBytes ≤ m ↔ p ≤ z * i + m := by
    rw [← hv]
    split_ifs <;> omega
  have hz : (if validBytes < offset + w - z * i then
      bf.zero validBytes (offset + w - z * i - validBytes) else bf) m =
        if validBytes ≤ m ∧ m < offset + w - z * i then 0 else bf m := by
    split_ifs with h h' h'
    · rw [Buffer.zero, if_pos (by omega)]
    · rw [Buffer.zero, if_neg (by omega)]
    · omega
    · rfl
  rw [hz]
  generalize hst : offset + w - z * i = start at *
  generalize hcount : min (z - start) (s.length - w) = count at *
  by_cases hc : start ≤ m ∧ m < start + count
  · have hin : offset ≤ z * i + m ∧ z * i + m < offset + s.length := by omega
    rw [if_pos hc, if_pos hin, List.getD_eq_getElem?_getD, List.getElem?_take_of_lt (by omega),
      List.getElem?_drop, List.getD_eq_getElem?_getD]
    congr 2
    omega
  have hin : ¬ (offset ≤ z * i + m ∧ z * i + m < offset + s.length) := by omega
  rw [if_neg hc, if_neg hin, Nat.add_sub_cancel_left]
  by_cases hb : m < start
  · -- in front of the copy: the write begins in this cluster
    have hoff : offset / z = i := by
      refine Nat.div_eq_of_lt_le ?_ ?_
      · rw [Nat.mul_comm]; omega
      · rw [Nat.mul_comm, mul_succ]; omega
    have hlt : z * i + m < offset := by omega
    simp only [hold, hb, hlt, hoff, and_true]
  have hge : ¬ z * i + m < offset := by omega
  simp only [hb, hge, and_false, false_and]

/-- How far a write of `n` bytes is when it comes to cluster `i`: either the next
byte belongs into this cluster or a later one, or all bytes are stored. -/
def Progress (z offset n i written : ℕ) : Prop :=
  (written < n ∧ i * z ≤ offset + written ∧ (written = 0 ∨ offset + written = i * z)) ∨
    (written = n ∧ offset + n ≤ i * z)

/-- One turn of a write: cluster `i` of the file gets its bytes. -/
lemma writeTurn (hs : v.fs.Sound) (hr : v.fs.Reliable) (p : ℕ) {i wr : ℕ}
    (hc : v.fs.InRange c) (hlt : wr < s.length)
    (hp : Progress v.fs.clusterSizeBytes offset s.length i wr) :
    ∃ v' w, (∀ f, writeChainLoop p offset s (f + 1) v c i wr =
        if EndsChain (getFatEntry v c) then some (true, w, v')
        else writeChainLoop p offset s f v' (getFatEntry v c) (i + 1) w) ∧
      v'.fs = v.fs ∧ v'.fat = v.fat ∧ v'.exhausted = v.exhausted ∧
      (∀ d, d ≠ c → v'.data d = v.data d) ∧ (∀ m < v.fs.clusterSizeBytes, v'.data c m =
        writtenByte p offset s v.fs.clusterSizeBytes
          (fun k => v.data c (k - i * v.fs.clusterSizeBytes)) (i * v.fs.clusterSizeBytes + m)) ∧
      Progress v.fs.clusterSizeBytes offset s.length (i + 1) w := by
  have hz := clusterSizeBytes_pos hs
  obtain ⟨_, h1, h2⟩ | ⟨h, _⟩ := hp
  swap
  · omega
  have hre := readCluster_eq hs hr hc
  by_cases hsk : offset ≥ i * v.fs.clusterSizeBytes + v.fs.clusterSizeBytes
  · -- the write begins behind this cluster
    obtain rfl : wr = 0 := by omega
    refine ⟨v, 0, fun f => ?_, rfl, rfl, rfl, fun _ _ => rfl, fun m hm => ?_, ?_⟩
    · simp only [writeChainLoop, if_pos (⟨hc, hlt⟩ : v.fs.InRange c ∧ 0 < s.length), hre, if_pos hsk]
    · have hdiv : (i * v.fs.clusterSizeBytes + m) / v.fs.clusterSizeBytes = i := by
        rw [Nat.mul_comm, mul_add_div hz, div_eq_of_lt hm, Nat.add_zero]
      have : i + 1 ≤ offset / v.fs.clusterSizeBytes := by
        rw [Nat.le_div_iff_mul_le hz, Nat.add_mul, Nat.one_mul]
        exact hsk
      have hin : ¬ (offset ≤ i * v.fs.clusterSizeBytes + m ∧
          i * v.fs.clusterSizeBytes + m < offset + s.length) := by omega
      simp only [writtenByte, if_neg hin, hdiv, Nat.add_sub_cancel_left]
      rw [if_neg (by omega)]
    · left
      rw [Nat.add_mul, Nat.one_mul]
      exact ⟨hlt, by omega, .inl rfl⟩
  have hst : (if offset > i * v.fs.clusterSizeBytes then offset - i * v.fs.clusterSizeBytes else 0) =
      offset + wr - i * v.fs.clusterSizeBytes := by
    split_ifs <;> omega
  have hco : (if v.fs.clusterSizeBytes - (offset + wr - i * v.fs.clusterSizeBytes) <
      s.length - wr then v.fs.clusterSizeBytes - (offset + wr - i * v.fs.clusterSizeBytes)
        else s.length - wr) =
      min (v.fs.clusterSizeBytes - (offset + wr - i * v.fs.clusterSizeBytes))
        (s.length - wr) := by
    split_ifs <;> omega
  have hin : offset + wr < i * v.fs.clusterSizeBytes + v.fs.clusterSizeBytes := by omega
  obtain ⟨b, hb⟩ := @exists_eq _ (writeBuffer p v.fs.clusterSizeBytes
    (i * v.fs.clusterSizeBytes) (offset + wr - i * v.fs.clusterSizeBytes) s wr
    (min (v.fs.clusterSizeBytes - (offset + wr - i * v.fs.clusterSizeBytes))
      (s.length - wr)) (v.data c))
  have hwr : writeCluster v c b = (true, (writeCluster v c b).2) := by
    rw [← writeCluster_fst hs hr hc b]
  have hget : getFatEntry (writeCluster v c b).2 c = getFatEntry v c := by
    simp only [getFatEntry, writeCluster_fs, writeCluster_fat]
  refine ⟨(writeCluster v c b).2, wr + min (v.fs.clusterSizeBytes -
      (offset + wr - i * v.fs.clusterSizeBytes)) (s.length - wr), fun f => ?_,
    by simp, by simp, by simp, fun d hd => ?_, fun m hm => ?_, ?_⟩
  · simp only [writeChainLoop, if_pos (⟨hc, hlt⟩ : v.fs.InRange c ∧ wr < s.length), hre,
      if_neg hsk, hst, hco, ← hb]
    rw [hwr]
    simp only [hget]
  · rw [data_writeCluster hs hr hc, Function.update_of_ne hd]
  · rw [data_writeCluster hs hr hc, Function.update_self, clip_apply_of_lt hm, hb,
      writeBuffer_apply (Dvd.intro_left i rfl) h1 hin h2 hlt.le hm]
  rw [Progress, Nat.add_mul, Nat.one_mul]
  generalize i * v.fs.clusterSizeBytes = base at *
  omega

lemma writtenByte_congr {o o' : ℕ → UInt8} (h : o k = o' k) :
    writtenByte p offset s z o k = writtenByte p offset s z o' k := by
  simp only [writtenByte, h]

lemma writtenByte_of_le {o : ℕ → UInt8} (h : offset + s.length ≤ k) :
    writtenByte p offset s z o k = o k := by
  rw [writtenByte, if_neg (by omega), if_neg (by omega)]

/-- The rest of a write, from the cluster behind `pre` on. -/
lemma writeChainLoop_spec (p offset : ℕ) (s : List UInt8) :
    ∀ (sl pr : List ℕ) {v : Volume} {c f wr : ℕ}, v.fs.Sound → v.fs.Reliable →
      IsChain v.link (c :: sl) → (c :: sl).length ≤ f → (pr ++ c :: sl).Nodup →
      offset + s.length ≤ (pr ++ c :: sl).length * v.fs.clusterSizeBytes →
      Progress v.fs.clusterSizeBytes offset s.length pr.length wr →
      ∃ v', writeChainLoop p offset s f v c pr.length wr = some (true, s.length, v') ∧
        v'.fs = v.fs ∧ v'.fat = v.fat ∧ v'.exhausted = v.exhausted ∧
        (∀ d, d ∉ c :: sl → v'.data d = v.data d) ∧ (∀ k, pr.length * v.fs.clusterSizeBytes ≤ k →
          k < (pr ++ c :: sl).length * v.fs.clusterSizeBytes →
          v'.byteAt (pr ++ c :: sl) k = writtenByte p offset s v.fs.clusterSizeBytes
            (v.byteAt (pr ++ c :: sl)) k) := by
  intro sl
  induction sl with
  | nil =>
    intro pr v c f wr hs hr hc hfu hnd hro hp
    obtain ⟨f, rfl⟩ : ∃ n, f = n + 1 := ⟨f - 1, by simp at hfu; omega⟩
    by_cases hlt : wr < s.length
    · obtain ⟨v', w, ht, hf, hfat, hex, hot, hda, hp'⟩ :=
        writeTurn hs hr p (inRange_of_mem hc mem_cons_self) hlt hp
      have hlen : (pr ++ [c]).length = pr.length + 1 := by simp
      have hw : w = s.length := by
        rw [hlen] at hro
        rcases hp' with ⟨h1, h2, _⟩ | ⟨h, _⟩
        · omega
        · exact h
      have hend : EndsChain (getFatEntry v c) := by
        cases hc with
        | last h0 => exact (link_eq_last h0).2
      refine ⟨v', by rw [ht, if_pos hend, hw], hf, hfat, hex, fun d hd => ?_, fun k h1 h2 => ?_⟩
      · exact hot d (by simpa using hd)
      · rw [hlen] at h2
        have hk : k - pr.length * v.fs.clusterSizeBytes < v.fs.clusterSizeBytes := by
          rw [Nat.add_mul] at h2; omega
        rw [byteAt_append (by rw [hf]; exact h1) (by rw [hf]; exact h2), hf, hda _ hk,
          Nat.add_sub_cancel' h1]
        exact writtenByte_congr (byteAt_append h1 h2).symm
    obtain ⟨h, _, _⟩ | ⟨rfl, hend⟩ := hp
    · exact absurd h hlt
    refine ⟨v, by rw [writeChainLoop, if_neg (by simp)], rfl, rfl, rfl, fun _ _ => rfl,
      fun k h1 _ => ?_⟩
    rw [writtenByte_of_le (hend.trans h1)]
  | cons d sl ih =>
    intro pr v c f wr hs hr hc hfu hnd hro hp
    obtain ⟨f, rfl⟩ : ∃ n, f = n + 1 := ⟨f - 1, by simp at hfu; omega⟩
    by_cases hlt : wr < s.length
    · obtain ⟨v1, w, ht, hf, hfat, hex, hot, hda, hp'⟩ :=
        writeTurn hs hr p (inRange_of_mem hc mem_cons_self) hlt hp
      have ha : pr ++ c :: d :: sl = (pr ++ [c]) ++ d :: sl := by simp
      have hlen : (pr ++ [c]).length = pr.length + 1 := by simp
      cases hc with
      | cons h0 hc =>
        obtain ⟨_, hget, _, hend⟩ := link_eq_next hs h0
        have hli : v1.link = v.link := link_congr hf hfat
        obtain ⟨v', hl, hf', hfa', he', ho', hb⟩ :=
          ih (pr ++ [c]) (v := v1) (c := d) (hf ▸ hs) (hf ▸ hr)
            (hli ▸ hc) (by simp at hfu ⊢; omega) (ha ▸ hnd) (by rw [hf, ← ha]; exact hro)
            (by rw [hf, hlen]; exact hp')
        rw [hf, ← ha, hlen] at hb
        rw [hlen] at hl
        have hcd : c ∉ d :: sl := by
          have := (nodup_append.1 hnd).2.1
          exact (nodup_cons.1 this).1
        refine ⟨v', by rw [ht, hget, if_neg hend, hl], hf'.trans hf, hfa'.trans hfat,
          he'.trans hex, fun e he => ?_, fun k h1 h2 => ?_⟩
        · rw [mem_cons, not_or] at he
          rw [ho' e he.2, hot e he.1]
        · by_cases hk : k < (pr.length + 1) * v.fs.clusterSizeBytes
          · -- in this cluster, which the later turns leave alone
            have hm : k - pr.length * v.fs.clusterSizeBytes < v.fs.clusterSizeBytes := by
              rw [Nat.add_mul] at hk; omega
            rw [byteAt_append (by rw [hf', hf]; exact h1) (by rw [hf', hf]; exact hk), hf', hf,
              ho' c hcd, hda _ hm, Nat.add_sub_cancel' h1]
            exact writtenByte_congr (byteAt_append h1 hk).symm
          · -- in a later one, which this turn leaves alone
            rw [hb k (by omega) h2]
            apply writtenByte_congr
            have hpre : (pr ++ [c]).length * v.fs.clusterSizeBytes ≤ k := by rw [hlen]; omega
            have hz := clusterSizeBytes_pos hs
            rw [ha, byteAt_append_right (hf ▸ hz) (by rw [hf]; exact hpre),
              byteAt_append_right hz hpre, hf]
            refine byteAt_congr hf (fun e he => hot e fun h => hcd (h ▸ he)) ?_
            rw [ha, length_append, Nat.add_mul] at h2
            omega
    obtain ⟨h, _, _⟩ | ⟨rfl, hend⟩ := hp
    · exact absurd h hlt
    refine ⟨v, by rw [writeChainLoop, if_neg (by simp)], rfl, rfl, rfl, fun _ _ => rfl,
      fun k h1 _ => ?_⟩
    rw [writtenByte_of_le (hend.trans h1)]

/-- **A write stores its bytes** in the clusters of the file and changes nothing
else. -/
theorem writeChain_spec (hs : v.fs.Sound) (hr : v.fs.Reliable) (i : DirEntryInfo)
    (hl : IsChain v.link l) (hh : l.headD 0 = i.firstCluster) {f : ℕ}
    (hfu : l.length ≤ f) (hsz : i.size ≤ l.length * v.fs.clusterSizeBytes)
    (p : ℕ) (hpos : 0 < s.length) (he : offset + s.length ≤ i.size) :
    ∃ v', writeChain f v i p offset s = some (true, some s.length, v') ∧
      v'.fs = v.fs ∧ v'.fat = v.fat ∧ v'.exhausted = v.exhausted ∧
      (∀ d, d ∉ l → v'.data d = v.data d) ∧ ∀ k < l.length * v.fs.clusterSizeBytes, v'.byteAt l k =
        writtenByte p offset s v.fs.clusterSizeBytes (v.byteAt l) k := by
  cases l with
  | nil => exact absurd rfl hl.ne_nil
  | cons c sl =>
    have : v.fs.InRange c := inRange_of_mem hl mem_cons_self
    have hfi : i.firstCluster = c := hh.symm
    obtain ⟨v', hlo, hfs, hf, hex, hot, hb⟩ :=
      writeChainLoop_spec p offset s sl [] hs hr hl hfu hl.nodup
        (he.trans hsz) (.inl ⟨hpos, by simp, .inl rfl⟩)
    refine ⟨v', ?_, hfs, hf, hex, hot, fun k hk => hb k (by simp) hk⟩
    have hgu : ¬ (i.firstCluster = 0 ∨ offset > i.size ∨ s.length > i.size - offset) := by omega
    rw [length_nil] at hlo
    rw [writeChain, if_neg (by omega), if_neg hgu, hfi, hlo]
    simp
end Menios.Fat32
