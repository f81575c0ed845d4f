import Menios.Block.Linked
import Menios.Block.Device

/-!
# Cache, devices and the plain disk

The simulation invariant between the cache and a plain disk, a map from blocks to
bytes. A valid buffer has the bytes of the plain disk; a device has them too
unless the buffer is dirty; and a block without a valid buffer is right on its
device. Each operation of the cache keeps this, provided that no write-back fails
where the cache drops the buffer afterwards.

Results:

* `Coherent.flushLocked`: a write-back, successful or not.
* `getLocked_spec`: a caller gets the buffer of its block, whatever is evicted for
  it.
* `Fresh.fill`, `Fresh.discard`: a fresh buffer gets its contents, or is dropped.
-/

namespace Menios.Block
open Common Function BCache

/-- What the disk should hold: the bytes of each block. -/
abbrev PlainDisk := BlockAddr → List UInt8

/-- No write-back fails whose buffer is reused or dropped afterwards. -/
def System.Safe (sys : System) : Prop :=
  ∀ n, sys.driver .evict n = true ∧ sys.driver .invalidateDevice n = true

variable (sys : System)
/-- The bytes a device holds in a block. -/
def mediaBlock (w : World) (a : BlockAddr) : List UInt8 :=
  (w.media a.1 a.2).toList (sys.device a.1).blockSize

/-- The bytes a buffer holds of its block. -/
def bufferBlock (bh : BufferHead) : List UInt8 := bh.data.toList (sys.device bh.device).blockSize

/-- The simulation invariant. `pending` buffers are being filled, and `loose`
ones have changes that are not marked yet. -/
structure Coherent (w : World) (disk : PlainDisk) (pending loose : Slot → Prop) : Prop where
  linked : w.cache.Linked pending
  unique : ∀ i j, (w.cache.pool i).valid = true → (w.cache.pool j).valid = true →
    w.cache.addr i = w.cache.addr j → i = j
  device : ∀ i, (w.cache.pool i).valid = true → (w.cache.pool i).device ≠ 0 ∧
    (w.cache.pool i).blockSize = (sys.device (w.cache.pool i).device).blockSize
  writable : ∀ i, (w.cache.pool i).valid = true → (w.cache.pool i).dirty = true →
    (sys.device (w.cache.pool i).device).writeBlocks = true
  data : ∀ i, (w.cache.pool i).valid = true →
    bufferBlock sys (w.cache.pool i) = disk (w.cache.addr i)
  clean : ∀ i, (w.cache.pool i).valid = true → (w.cache.pool i).dirty = false → ¬ loose i →
    mediaBlock sys w (w.cache.addr i) = disk (w.cache.addr i)
  absent : ∀ a, (∀ i, (w.cache.pool i).valid = true → w.cache.addr i ≠ a) →
    mediaBlock sys w a = disk a

/-- Nobody holds a buffer, or one caller holds one. -/
def HeldBy (c : BCache) (held : Option Slot) : Prop :=
  ∀ j, (c.pool j).refcount = (if held = some j then 1 else 0) ∧
    (c.pool j).busy = decide (held = some j)

/-- No buffer is special. -/
def noSlot : Slot → Prop := fun _ => False

/-- Two buffer heads that differ in the fields of callers only. -/
def BufferHead.Same (a b : BufferHead) : Prop :=
  b.device = a.device ∧ b.lba = a.lba ∧ b.blockSize = a.blockSize ∧ b.data = a.data ∧
    b.valid = a.valid ∧ b.dirty = a.dirty

variable {sys} {w w' : World} {disk : PlainDisk} {p ls : Slot → Prop}
namespace Coherent
lemma congr {p' : Slot → Prop} (h : Coherent sys w disk p ls)
    (hme : w'.media = w.media) (hl : w'.cache.Linked p')
    (hp : ∀ i, (w.cache.pool i).Same (w'.cache.pool i) ∨
      ((w.cache.pool i).valid = false ∧ (w'.cache.pool i).valid = false)) :
    Coherent sys w' disk p' ls := by
  have hsa : ∀ i, (w'.cache.pool i).valid = true → (w.cache.pool i).Same (w'.cache.pool i) := by
    intro i hv
    obtain hs | hs := hp i
    · exact hs
    · simp [hs.2] at hv
  have hva : ∀ i, (w'.cache.pool i).valid = (w.cache.pool i).valid := by
    intro i
    obtain hs | hs := hp i
    · exact hs.2.2.2.2.1
    · rw [hs.1, hs.2]
  have had : ∀ i, (w'.cache.pool i).valid = true → w'.cache.addr i = w.cache.addr i := by
    intro i hv
    obtain ⟨h1, h2, -⟩ := hsa i hv
    rw [addr, h1, h2, addr]
  have hb : mediaBlock sys w' = mediaBlock sys w := by
    funext a
    rw [mediaBlock, mediaBlock, hme]
  constructor
  · exact hl
  · intro i j hi hj hij
    rw [had i hi, had j hj] at hij
    exact h.unique i j (hva i ▸ hi) (hva j ▸ hj) hij
  · intro i hi
    obtain ⟨h1, -, h3, -⟩ := hsa i hi
    rw [h1, h3]
    exact h.device i (hva i ▸ hi)
  · intro i hi hd
    obtain ⟨h1, -, -, -, -, h6⟩ := hsa i hi
    rw [h1]
    exact h.writable i (hva i ▸ hi) (h6 ▸ hd)
  · intro i hi
    obtain ⟨h1, -, -, h4, -⟩ := hsa i hi
    rw [had i hi, bufferBlock, h1, h4]
    exact h.data i (hva i ▸ hi)
  · intro i hi hd hl
    rw [had i hi, hb]
    exact h.clean i (hva i ▸ hi) ((hsa i hi).2.2.2.2.2 ▸ hd) hl
  intro a ha
  rw [hb]
  apply h.absent a
  intro i hi
  rw [← had i (hva i ▸ hi)]
  exact ha i (hva i ▸ hi)
end Coherent

/-! ## Write-backs -/

lemma driverWrite_cases (sys : System) (s : Site) (w : World) (dv : DevPtr) (lb : ℕ) (b : Buffer) :
    (w.driverWrite sys s dv lb b = ({ w with calls := w.calls + 1 }, false) ∧
        sys.driver s w.calls = false) ∨ ∃ media, w.driverWrite sys s dv lb b =
          ({ w with calls := w.calls + 1, media := media }, true) ∧
        Buffer.toList (media dv lb) (sys.device dv).blockSize = b.toList (sys.device dv).blockSize ∧
        ∀ d l, (d, l) ≠ (dv, lb) → media d l = w.media d l := by
  unfold World.driverWrite
  by_cases hd : sys.driver s w.calls = true
  · rw [if_pos hd]
    refine .inr ⟨_, rfl, ?_, ?_⟩
    · rw [update_self, update_self]
      unfold Buffer.toList
      apply List.map_congr_left
      intro k hk
      rw [if_pos (List.mem_range.1 hk)]
    · intro d l hne
      by_cases hdev : d = dv
      · subst hdev
        rw [update_self, update_of_ne]
        intro hl
        exact hne (by rw [hl])
      · rw [update_of_ne hdev]
  rw [if_neg hd]
  exact .inl ⟨rfl, by simpa using hd⟩

lemma toList_localCopy {b : BufferHead} {n : ℕ} (h : b.blockSize = n) :
    (World.localCopy b).toList n = b.data.toList n := by
  unfold World.localCopy Buffer.toList
  apply List.map_congr_left
  intro k hk
  rw [if_pos (h ▸ List.mem_range.1 hk)]

variable {i : Slot}
lemma Coherent.update (l' : Slot → Prop) (h : Coherent sys w disk p ls)
    (hv : (w.cache.pool i).valid = true) {data : Buffer} {dirty : Bool} (hp : ∀ j, w'.cache.pool j =
      if j = i then { w.cache.pool i with data := data, dirty := dirty } else w.cache.pool j)
    (hlru : w'.cache.lru = w.cache.lru) (hh : w'.cache.hash = w.cache.hash)
    (hme : ∀ d l, (d, l) ≠ w.cache.addr i → w'.media d l = w.media d l)
    (hwr : dirty = true → (sys.device (w.cache.pool i).device).writeBlocks = true)
    (hlo : ∀ j, j ≠ i → ls j → l' j)
    (hc : dirty = false → ¬ l' i → mediaBlock sys w' (w.cache.addr i) =
      data.toList (sys.device (w.cache.pool i).device).blockSize) :
    Coherent sys w' (Function.update disk (w.cache.addr i)
      (data.toList (sys.device (w.cache.pool i).device).blockSize)) p l' := by
  have hf : ∀ j, (w'.cache.pool j).valid = (w.cache.pool j).valid ∧
      (w'.cache.pool j).device = (w.cache.pool j).device ∧
      (w'.cache.pool j).blockSize = (w.cache.pool j).blockSize ∧
      (w'.cache.pool j).allocated = (w.cache.pool j).allocated ∧
      w'.cache.addr j = w.cache.addr j := by
    intro j
    by_cases hj : j = i
    · subst hj; simp [addr, hp]
    · simp [addr, hp, hj]
  have hot : ∀ j, j ≠ i → w'.cache.pool j = w.cache.pool j := by
    intro j hj
    rw [hp, if_neg hj]
  have hne : ∀ j, j ≠ i → (w.cache.pool j).valid = true → w.cache.addr j ≠ w.cache.addr i :=
    fun j hj hvj ha => hj (h.unique j i hvj hv ha)
  have hb : ∀ a, a ≠ w.cache.addr i → mediaBlock sys w' a = mediaBlock sys w a := by
    intro a ha
    rw [mediaBlock, hme a.1 a.2 ha, mediaBlock]
  constructor
  · exact h.linked.congr hlru hh (fun j => by simp only [hf])
      (fun j => by simp only [hf]) fun j => by simp only [hf]
  · intro j k hj hk hjk
    simp only [hf] at hj hk hjk
    exact h.unique j k hj hk hjk
  · intro j hj
    simp only [hf] at hj ⊢
    exact h.device j hj
  · intro j hj hd
    simp only [hf] at hj ⊢
    by_cases hji : j = i
    · subst hji
      exact hwr (by simpa [hp] using hd)
    · exact h.writable j hj (hot j hji ▸ hd)
  · intro j hj
    simp only [hf] at hj ⊢
    by_cases hji : j = i
    · subst hji
      simp [bufferBlock, hp]
    · rw [update_of_ne (hne j hji hj), hot j hji]
      exact h.data j hj
  · intro j hj hd hl
    simp only [hf] at hj ⊢
    by_cases hji : j = i
    · subst hji
      rw [update_self]
      exact hc (by simpa [hp] using hd) hl
    · rw [update_of_ne (hne j hji hj), hb _ (hne j hji hj)]
      exact h.clean j hj (hot j hji ▸ hd) fun hlj => hl (hlo j hji hlj)
  intro a ha
  simp only [hf] at ha
  have hai : a ≠ w.cache.addr i := fun hai => ha i hv hai.symm
  rw [update_of_ne hai, hb a hai]
  exact h.absent a ha

section
variable (h : Coherent sys w disk p ls)
include h
lemma Coherent.written {media : DevPtr → ℕ → Buffer} (hv : (w.cache.pool i).valid = true) {n : ℕ}
    (hse : Buffer.toList (media (w.cache.pool i).device (w.cache.pool i).lba)
      (sys.device (w.cache.pool i).device).blockSize = bufferBlock sys (w.cache.pool i))
    (hot : ∀ d l, (d, l) ≠ w.cache.addr i → media d l = w.media d l) :
    Coherent sys { w with calls := n, media := media, cache := w.cache.markClean i } disk p
      (fun j => ls j ∧ j ≠ i) := by
  have hc : Coherent sys { w with calls := n, media := media, cache := w.cache.markClean i } _
      p (fun j => ls j ∧ j ≠ i) :=
    h.update _ hv (markClean_pool w.cache i) (markClean_lru _ i) (markClean_hash _ i) hot
      (by simp) (fun j hj hl => ⟨hl, hj⟩) (fun _ _ => hse)
  have hda : (w.cache.pool i).data.toList (sys.device (w.cache.pool i).device).blockSize =
      disk (w.cache.addr i) := h.data i hv
  rwa [hda, update_eq_self] at hc

lemma Coherent.mono {l' : Slot → Prop} (hl : ∀ j, ls j → l' j) : Coherent sys w disk p l' :=
  { h with clean := fun i hv hd hli => h.clean i hv hd fun hi => hli (hl i hi) }

lemma Coherent.withCalls (n : ℕ) : Coherent sys { w with calls := n } disk p ls := { h with }

/-- What `bcache_flush_locked` can do to a valid buffer. -/
lemma flushLocked_cases (s : Site) (hv : (w.cache.pool i).valid = true) :
    ((w.cache.pool i).dirty = false ∧ w.flushLocked sys s i = (w, true)) ∨
      (w.flushLocked sys s i = ({ w with calls := w.calls + 1 }, false) ∧
        sys.driver s w.calls = false) ∨ ∃ media, w.flushLocked sys s i = ({ w with
            calls := w.calls + 1, media := media, cache := w.cache.markClean i }, true) ∧
        Buffer.toList (media (w.cache.pool i).device (w.cache.pool i).lba)
          (sys.device (w.cache.pool i).device).blockSize = bufferBlock sys (w.cache.pool i) ∧
        ∀ d l, (d, l) ≠ w.cache.addr i → media d l = w.media d l := by
  unfold World.flushLocked
  obtain ⟨hdev, hsz⟩ := h.device i hv
  by_cases hd : (w.cache.pool i).dirty = true
  · rw [if_neg (by simp [hd, hv, hdev]), if_neg (by simp [h.writable i hv hd])]
    obtain ⟨he, hf⟩ | ⟨media, he, h1, h2⟩ := driverWrite_cases sys s w
      (w.cache.pool i).device (w.cache.pool i).lba (World.localCopy (w.cache.pool i))
    · rw [he]
      exact .inr (.inl ⟨rfl, hf⟩)
    · rw [he]
      exact .inr (.inr ⟨media, rfl, by rw [h1, toList_localCopy hsz]; rfl, h2⟩)
  rw [if_pos (by simp [hd])]
  exact .inl ⟨by simpa using hd, rfl⟩
end

lemma flushLocked_invalid (s : Site) (hv : (w.cache.pool i).valid = false) :
    w.flushLocked sys s i = (w, true) := by
  unfold World.flushLocked
  simp [hv]

/-- **A write-back, successful or not, loses nothing.** -/
theorem Coherent.flushLocked (h : Coherent sys w disk p ls) (s : Site) (i : Slot) :
    Coherent sys (w.flushLocked sys s i).1 disk p ls := by
  by_cases hv : (w.cache.pool i).valid = true
  · obtain ⟨-, he⟩ | ⟨he, -⟩ | ⟨media, he, h1, h2⟩ := flushLocked_cases h s hv
    · rw [he]; exact h
    · rw [he]; exact h.withCalls _
    · rw [he]
      exact (h.written hv h1 h2).mono fun j hj => hj.1
  rw [flushLocked_invalid s (by simpa using hv)]
  exact h

lemma flushLocked_cache (sys : System) (s : Site) (w : World) (i : Slot) :
    (w.flushLocked sys s i).1.cache = w.cache ∨
      (w.flushLocked sys s i).1.cache = w.cache.markClean i := by
  obtain ⟨he, -⟩ | ⟨media, he, -, -⟩ := driverWrite_cases sys s w
    (w.cache.pool i).device (w.cache.pool i).lba (World.localCopy (w.cache.pool i)) <;>
  · simp only [World.flushLocked, he]
    split_ifs <;> simp

lemma HeldBy.markClean {c : BCache} {held : Option Slot} (h : HeldBy c held) (i : Slot) :
    HeldBy (c.markClean i) held := by
  intro j
  rw [markClean_pool]
  by_cases hj : j = i
  · subst hj; rw [if_pos rfl]; exact h j
  · rw [if_neg hj]; exact h j

theorem HeldBy.flushLocked {held : Option Slot} (h : HeldBy w.cache held) (s : Site) (i : Slot) :
    HeldBy (w.flushLocked sys s i).1.cache held := by
  obtain he | he := flushLocked_cache sys s w i
  · rw [he]; exact h
  · rw [he]; exact h.markClean i

section
variable (h : Coherent sys w disk p ls)
include h
lemma flushLocked_dirty {s : Site}
    (hv : (w.cache.pool i).valid = true) (hd : sys.driver s w.calls = true) :
    ((w.flushLocked sys s i).1.cache.pool i).dirty = false := by
  obtain ⟨hc, he⟩ | ⟨-, hf⟩ | ⟨media, he, -, -⟩ := flushLocked_cases h s hv
  · rw [he]; exact hc
  · simp [hd] at hf
  rw [he]
  simp [markClean_pool]

/-! ## A buffer changes its block -/

lemma Coherent.drop {p' : Slot → Prop}
    (hc : (w.cache.pool i).valid = true → (w.cache.pool i).dirty = false ∧ ¬ ls i)
    (hme : w'.media = w.media) (hl : w'.cache.Linked p')
    (hse : (w'.cache.pool i).valid = false) (hot : ∀ j, j ≠ i → w'.cache.pool j = w.cache.pool j) :
    Coherent sys w' disk p' ls := by
  have hp : ∀ j, (w'.cache.pool j).valid = true →
      w'.cache.pool j = w.cache.pool j ∧ w'.cache.addr j = w.cache.addr j := by
    intro j hj
    have hji : j ≠ i := by
      rintro rfl
      simp [hse] at hj
    exact ⟨hot j hji, by rw [addr, hot j hji, addr]⟩
  have hb : mediaBlock sys w' = mediaBlock sys w := by
    funext a
    rw [mediaBlock, mediaBlock, hme]
  constructor
  · exact hl
  · intro j k hj hk hjk
    obtain ⟨e, aj⟩ := hp j hj
    obtain ⟨ek, ak⟩ := hp k hk
    exact h.unique j k (e ▸ hj) (ek ▸ hk) (by rw [← aj, hjk, ak])
  · intro j hj
    obtain ⟨e, -⟩ := hp j hj
    rw [e] at hj ⊢
    exact h.device j hj
  · intro j hj
    obtain ⟨e, -⟩ := hp j hj
    rw [e] at hj ⊢
    exact h.writable j hj
  · intro j hj
    obtain ⟨e, aj⟩ := hp j hj
    rw [e] at hj ⊢
    rw [aj]
    exact h.data j hj
  · intro j hj
    obtain ⟨e, aj⟩ := hp j hj
    rw [e] at hj ⊢
    rw [aj, hb]
    exact h.clean j hj
  intro a ha
  rw [hb]
  by_cases hv : (w.cache.pool i).valid = true ∧ w.cache.addr i = a
  · rw [← hv.2]
    exact h.clean i hv.1 (hc hv.1).1 (hc hv.1).2
  apply h.absent a
  intro j hj hja
  by_cases hji : j = i
  · subst hji; exact hv ⟨hj, hja⟩
  refine ha j (by rw [hot j hji]; exact hj) ?_
  rw [addr, hot j hji]
  exact hja

lemma Coherent.takeOver (hi : (w.cache.pool i).allocated = true) (hp : ¬ p i) (hl : ¬ ls i)
    (hd : (w.cache.pool i).valid = true → (w.cache.pool i).dirty = false) (d : DevPtr)
    (l b : ℕ) : Coherent sys { w with cache := w.cache.takeOver i d l b } disk
      (fun j => p j ∨ j = i) ls := by
  refine h.drop (i := i) (fun hv => ⟨hd hv, hl⟩) rfl (h.linked.takeOver hi hp d l b) ?_ ?_
  · simp [takeOver_pool]
  intro j hj
  rw [takeOver_pool, if_neg hj]
end

/-- A fresh buffer gets its contents, which become those of the plain disk. -/
theorem Coherent.fill (l' : Slot → Prop) (h : Coherent sys w disk p ls)
    (hp : p i) (hnv : (w.cache.pool i).valid = false)
    (hno : ∀ j, (w.cache.pool j).valid = true → w.cache.addr j ≠ w.cache.addr i)
    (hdev : (w.cache.pool i).device ≠ 0) {data : Buffer} {f : BufferHead → BufferHead}
    (hf : f { w.cache.pool i with data := data, valid := true } =
      { w.cache.pool i with data := data, valid := true, dirty := false,
                            blockSize := (sys.device (w.cache.pool i).device).blockSize })
    (hlo : ∀ j, j ≠ i → ls j → l' j) (hc : ¬ l' i → mediaBlock sys w (w.cache.addr i) =
      data.toList (sys.device (w.cache.pool i).device).blockSize) :
    Coherent sys { w with cache := w.cache.fill i data f } (Function.update disk (w.cache.addr i)
        (data.toList (sys.device (w.cache.pool i).device).blockSize))
      (fun j => p j ∧ j ≠ i) l' := by
  have hse : (w.cache.fill i data f).pool i =
      { w.cache.pool i with data := data, valid := true, dirty := false,
                            blockSize := (sys.device (w.cache.pool i).device).blockSize } := by
    rw [BCache.fill, BCache.modify_pool, update_self, hf]
  have hot : ∀ j, j ≠ i → (w.cache.fill i data f).pool j = w.cache.pool j := by
    intro j hj
    rw [BCache.fill, BCache.modify_pool, update_of_ne hj]
  have had : ∀ j, (w.cache.fill i data f).addr j = w.cache.addr j := by
    intro j
    by_cases hj : j = i
    · subst hj; rw [BCache.addr, hse, BCache.addr]
    · rw [BCache.addr, hot j hj, BCache.addr]
  have hne : ∀ j, j ≠ i → (w.cache.pool j).valid = true →
      (w.cache.fill i data f).addr j ≠ w.cache.addr i := by
    intro j _ hj
    rw [had]
    exact hno j hj
  constructor
  · refine h.linked.congr rfl rfl had ?_ ?_
    · intro j
      by_cases hj : j = i
      · subst hj; simp only [hse]
      · simp only [hot j hj]
    · intro j
      by_cases hj : j = i
      · subst hj; simp [hse, hp]
      · simp [hot j hj, hj]
  · intro j k hj hk hjk
    simp only [had] at hjk
    by_cases hji : j = i <;> by_cases hki : k = i
    · rw [hji, hki]
    · subst hji
      simp only [hot k hki] at hk
      exact absurd hjk.symm (hno k hk)
    · subst hki
      simp only [hot j hji] at hj
      exact absurd hjk (hno j hj)
    · simp only [hot j hji, hot k hki] at hj hk
      exact h.unique j k hj hk hjk
  · intro j hj
    by_cases hji : j = i
    · subst hji
      simp only [hse]
      exact ⟨hdev, trivial⟩
    · simp only [hot j hji] at hj ⊢
      exact h.device j hj
  · intro j hj hd
    by_cases hji : j = i
    · subst hji; simp [hse] at hd
    · simp only [hot j hji] at hj hd ⊢
      exact h.writable j hj hd
  · intro j hj
    by_cases hji : j = i
    · subst hji
      simp only [had, update_self, hse]
      rfl
    · simp only [hot j hji] at hj ⊢
      rw [update_of_ne (hne j hji hj), had]
      exact h.data j hj
  · intro j hj hd hlj
    by_cases hji : j = i
    · subst hji
      simp only [had, update_self]
      exact hc hlj
    · simp only [hot j hji] at hj hd
      rw [update_of_ne (hne j hji hj), had]
      exact h.clean j hj hd fun hl => hlj (hlo j hji hl)
  intro a ha
  have hai : a ≠ w.cache.addr i := by
    rintro rfl
    refine ha i (by simp [hse]) (had i)
  rw [update_of_ne hai]
  apply h.absent a
  intro j hj
  by_cases hji : j = i
  · subst hji; simp [hnv] at hj
  rw [← had j]
  exact ha j (by simpa only [hot j hji] using hj)

/-! ## `bread` and `bget` -/

/-- The caller holds buffer `i`, and it is the valid buffer of block `a`. -/
structure Holds (c : BCache) (i : Slot) (a : BlockAddr) : Prop where
  held : HeldBy c (some i)
  valid : (c.pool i).valid = true
  addr : c.addr i = a

lemma HeldBy.takeOver {c : BCache} (hb : (c.pool i).busy = true)
    (hf : ∀ j, j ≠ i → (c.pool j).refcount = 0 ∧ (c.pool j).busy = false) (d : DevPtr)
    (l b : ℕ) : HeldBy (c.takeOver i d l b) (some i) := by
  intro j
  rw [takeOver_pool]
  by_cases hj : j = i
  · subst hj; simp [hb]
  · simp [hj, Ne.symm hj, hf j hj]

lemma Coherent.acquire (h : Coherent sys w disk noSlot noSlot) (hf : HeldBy w.cache none)
    (hv : (w.cache.pool i).valid = true) :
    Coherent sys { w with cache := w.cache.acquire i } disk noSlot noSlot ∧
      Holds (w.cache.acquire i) i (w.cache.addr i) := by
  refine ⟨h.congr rfl (h.linked.acquire (h.linked.allocated i (.inl hv))) fun j => .inl ?_, ?_,
    ?_, ?_⟩
  · simp only [acquire_pool]
    by_cases hj : j = i
    · subst hj; simp [BufferHead.Same]
    · simp [BufferHead.Same, hj]
  · intro j
    have := hf j
    rw [acquire_pool]
    by_cases hj : j = i
    · subst hj; simpa using this.1
    · simpa [hj, Ne.symm hj] using this
  · simp [acquire_pool, hv]
  · simp [addr, acquire_pool]

/-- Buffer `i` was taken for block `a`, which is in no valid buffer, and waits for
its contents. -/
structure Fresh (sys : System) (w : World) (disk : PlainDisk) (i : Slot) (a : BlockAddr) : Prop where
  coherent : Coherent sys w disk (fun j => noSlot j ∨ j = i) noSlot
  held : HeldBy w.cache (some i)
  invalid : (w.cache.pool i).valid = false
  clean : (w.cache.pool i).dirty = false
  addr : w.cache.addr i = a
  blockSize : (w.cache.pool i).blockSize = (sys.device a.1).blockSize
  miss : ∀ j, (w.cache.pool j).valid = true → w.cache.addr j ≠ a

lemma Coherent.fresh (h : Coherent sys w disk noSlot noSlot)
    (ha : (w.cache.pool i).allocated = true) (hb : (w.cache.pool i).busy = true)
    (hf : ∀ j, j ≠ i → (w.cache.pool j).refcount = 0 ∧ (w.cache.pool j).busy = false)
    (hd : (w.cache.pool i).valid = true → (w.cache.pool i).dirty = false) {d : DevPtr} {l : ℕ}
    (hmi : ∀ j, (w.cache.pool j).valid = true → w.cache.addr j ≠ (d, l)) :
    Fresh sys { w with cache := w.cache.takeOver i d l (sys.device d).blockSize } disk i
      (d, l) where
  coherent := h.takeOver ha id id hd d l _
  held := HeldBy.takeOver hb hf d l _
  invalid := by simp [takeOver_pool]
  clean := by simp [takeOver_pool]
  addr := by simp [addr, takeOver_pool]
  blockSize := by simp [takeOver_pool]
  miss := by
    intro j hj
    by_cases hji : j = i
    · subst hji; simp [takeOver_pool] at hj
    simp only [takeOver_pool, if_neg hji, addr] at hj ⊢
    exact hmi j hj

lemma Coherent.evict (hs : sys.Safe) (h : Coherent sys w disk noSlot noSlot)
    (hf : HeldBy w.cache none) (hi : i ∈ w.cache.lru) {dv : DevPtr} {l : ℕ}
    (hmi : ∀ j, (w.cache.pool j).valid = true → w.cache.addr j ≠ (dv, l)) (w1 w2 : World)
    (hw1 : w1 = { w with cache := w.cache.setBusy i })
    (hw2 : w2 = if (w.cache.pool i).valid && (w.cache.pool i).dirty then
      (w1.flushLocked sys .evict i).1 else w1) :
    Fresh sys { w2 with cache := w2.cache.takeOver i dv l (sys.device dv).blockSize } disk i
      (dv, l) := by
  have hsa : ∀ j, w1.cache.pool j = { w.cache.pool j with busy := decide (j = i) } := by
    intro j
    have hb := (hf j).2
    by_cases hj : j = i
    · subst hj; simp [hw1, setBusy]
    simp only [reduceCtorEq, decide_false] at hb
    simp [hw1, setBusy, hj, ← hb]
  have h1 : Coherent sys w1 disk noSlot noSlot := by
    refine h.congr (by rw [hw1]) ?_ fun j => .inl ?_
    · refine h.linked.congr (by rw [hw1]; rfl) (by rw [hw1]; rfl) ?_ ?_ ?_ <;>
      · intro j
        simp [addr, hsa]
    rw [hsa]
    exact ⟨rfl, rfl, rfl, rfl, rfl, rfl⟩
  have hp2 : ∀ j, ∃ d, w2.cache.pool j =
      { w.cache.pool j with busy := decide (j = i), dirty := d } := by
    intro j
    rw [hw2]
    split_ifs
    · obtain he | he := flushLocked_cache sys .evict w1 i
      · rw [he]; exact ⟨_, hsa j⟩
      · rw [he, markClean_pool]
        by_cases hj : j = i
        · subst hj; rw [if_pos rfl, hsa]; exact ⟨false, rfl⟩
        · rw [if_neg hj]; exact ⟨_, hsa j⟩
    · exact ⟨_, hsa j⟩
  refine Coherent.fresh ?_ ?_ ?_ ?_ ?_ ?_
  · rw [hw2]
    split_ifs
    · exact h1.flushLocked .evict i
    · exact h1
  · obtain ⟨d, he⟩ := hp2 i
    rw [he]
    exact (h.linked.mem_lru i).1 hi
  · obtain ⟨d, he⟩ := hp2 i
    simp [he]
  · intro j hj
    obtain ⟨d, he⟩ := hp2 j
    simpa [he, hj] using (hf j).1
  · intro hv
    obtain ⟨d, he⟩ := hp2 i
    have hv0 : (w.cache.pool i).valid = true := by simpa [he] using hv
    rw [hw2]
    split_ifs with hd
    · exact flushLocked_dirty h1 (by simpa [hsa] using hv0) (hs _).1
    · simpa [hsa, hv0] using hd
  intro j hj
  obtain ⟨d, he⟩ := hp2 j
  simp only [he, addr] at hj ⊢
  exact hmi j hj

/-- **A caller gets the buffer of its block**: the valid one, or a fresh one,
while the evicted block is safe on its device. -/
theorem getLocked_spec (hs : sys.Safe) (h : Coherent sys w disk noSlot noSlot)
    (hf : HeldBy w.cache none) (d : DevPtr) (l : ℕ) :
    (∃ w' i, w.getLocked sys d l = some (w', i, false) ∧
      Coherent sys w' disk noSlot noSlot ∧ Holds w'.cache i (d, l)) ∨
    ∃ w' i, w.getLocked sys d l = some (w', i, true) ∧ Fresh sys w' disk i (d, l) := by
  unfold World.getLocked
  cases hl : w.cache.hashLookup d l with
  | some i =>
    obtain ⟨hv, ha⟩ := BCache.Linked.hashLookup_some hl
    obtain ⟨h1, h2⟩ := h.acquire hf hv
    rw [ha] at h2
    left
    dsimp only
    rw [if_neg (by simp [hf i])]
    exact ⟨_, i, rfl, h1, h2⟩
  | none =>
    right
    have hmi : ∀ j, (w.cache.pool j).valid = true → w.cache.addr j ≠ (d, l) :=
      fun j hj => h.linked.hashLookup_none hl hj
    obtain ⟨c', v, hc⟩ := BCache.chooseVictim_isSome h.linked fun i => by simpa using hf i
    rw [hc]
    dsimp only
    obtain ⟨rfl, hmem, -, -⟩ | ⟨hu, rfl⟩ := BCache.chooseVictim_cases hc
    · exact ⟨_, v, rfl, h.evict hs hf hmem hmi _ _ rfl rfl⟩
    -- a buffer that was never used: as if it had been on the list of last use
    have hno : v ∉ w.cache.lru := by rw [h.linked.mem_lru, hu]; simp
    have hr : ((w.cache.modify v BCache.reset).pool v).valid = false := by simp [BCache.reset]
    rw [hr, Bool.false_and, if_neg (by simp)]
    set w1 : World := { w with cache :=
      ((w.cache.modify v BCache.reset).setBusy v).lruPushFront v } with hw1
    have hp : ∀ j, w1.cache.pool j = if j = v then
        { BCache.reset (w.cache.pool v) with busy := true } else w.cache.pool j := by
      intro j
      by_cases hj : j = v
      · subst hj; simp [hw1, BCache.setBusy]
      · simp [hw1, BCache.setBusy, hj]
    have h1 : Coherent sys w1 disk noSlot noSlot := by
      refine h.congr rfl ?_ ?_
      · have := h.linked.enlist hu (fun b => { BCache.reset b with busy := true })
          (by simp [BCache.reset])
        simpa [hw1, BCache.setBusy, BCache.modify] using this
      intro j
      by_cases hj : j = v
      · subst hj
        refine .inr ⟨?_, by simp [hp, BCache.reset]⟩
        by_contra hv
        have := h.linked.allocated j (.inl (by simpa using hv))
        simp [hu] at this
      rw [hp, if_neg hj]
      exact .inl ⟨rfl, rfl, rfl, rfl, rfl, rfl⟩
    rw [← BCache.takeOver_lruPushFront (c := (w.cache.modify v BCache.reset).setBusy v) hno]
    refine ⟨_, v, rfl, h1.fresh (by simp [hp, BCache.reset]) (by simp [hp]) ?_
      (by simp [hp, BCache.reset]) ?_⟩
    · intro j hj
      rw [hp, if_neg hj]
      simpa using hf j
    intro j hj
    by_cases hjv : j = v
    · subst hjv; simp [hp, BCache.reset] at hj
    simp only [hp, if_neg hjv, BCache.addr] at hj ⊢
    exact hmi j hj

variable {a : BlockAddr}
lemma Fresh.media (h : Fresh sys w disk i a) :
    mediaBlock sys w a = disk a := h.coherent.absent a h.miss

/-- A fresh buffer is filled. -/
theorem Fresh.fill (l' : Slot → Prop) (h : Fresh sys w disk i a) (ha : a.1 ≠ 0) (data : Buffer)
    (f : BufferHead → BufferHead) (hf : f { w.cache.pool i with data := data, valid := true } =
      { w.cache.pool i with data := data, valid := true, dirty := false,
                            blockSize := (sys.device a.1).blockSize })
    (hcl : ¬ l' i → mediaBlock sys w a = data.toList (sys.device a.1).blockSize) :
    Coherent sys { w with cache := w.cache.fill i data f }
        (Function.update disk a (data.toList (sys.device a.1).blockSize)) noSlot l' ∧
      Holds (w.cache.fill i data f) i a := by
  obtain rfl := h.addr
  have hmod : (w.cache.fill i data f).pool i = { w.cache.pool i with
      data := data, valid := true, dirty := false,
      blockSize := (sys.device (w.cache.pool i).device).blockSize } := by
    rw [BCache.fill, BCache.modify_pool, update_self, hf]
    rfl
  refine ⟨?_, ?_, ?_, ?_⟩
  · have hc := h.coherent.fill l' (.inr rfl) h.invalid h.miss ha hf (fun j _ hl => hl.elim) hcl
    refine hc.congr rfl (hc.linked.congr rfl rfl (fun _ => rfl) (fun _ => rfl) fun j => ?_)
      fun j => .inl ⟨rfl, rfl, rfl, rfl, rfl, rfl⟩
    simp [noSlot]
  · intro j
    have := h.held j
    by_cases hj : j = i
    · subst hj
      rw [hmod]
      exact this
    · rw [BCache.fill, BCache.modify_pool, update_of_ne hj]
      exact this
  · rw [hmod]
  rw [BCache.addr, hmod]
  rfl

/-- A fresh buffer whose read failed is dropped. -/
theorem Fresh.discard (h : Fresh sys w disk i a) :
    Coherent sys { w with cache := w.cache.discard i } disk noSlot noSlot ∧
      HeldBy (w.cache.discard i) none := by
  have hl : (w.cache.discard i).Linked noSlot := by
    refine (h.coherent.linked.discard (.inr rfl)).congr rfl rfl (fun _ => rfl) (fun _ => rfl) ?_
    intro j
    simp [noSlot]
  constructor
  · refine h.coherent.drop (i := i) (by simp [h.invalid]) rfl hl ?_ ?_
    · simp [discard_pool]
    · intro j hj
      rw [discard_pool, if_neg hj]
  intro j
  have := h.held j
  rw [discard_pool]
  by_cases hj : j = i
  · subst hj; simp
  · simpa [hj, Ne.symm hj] using this
end Menios.Block
