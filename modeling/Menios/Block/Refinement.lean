import Menios.Block.Coherent

/-!
# The cache refines the plain disk

Every sequential run over the cache leaves a trace that the plain disk accepts:
each block read has the bytes most recently written to it, or the device's
initial bytes.

Results:

* `bread_spec`, `bget_spec`, `bdirty_spec`, `bwrite_spec`, `brelse_spec`: the
  calls on one buffer.
* `Op.run_spec`, `run_spec`: one operation and whole runs keep `Quiet`, with
  drivers that may fail except where a failure loses data.
* `run_refines_plainDisk`: with drivers that do not fail, every run returns, its
  reads return the latest bytes, and a valid `block_device_read` succeeds.
* `run_survives_failures`: drivers that fail where no data is lost.
-/

namespace Menios.Block
open Common MemEvent List Function World
variable {sys : System} {w w' : World} {disk : PlainDisk} {ls : Slot → Prop}
/-- The state between two operations: nobody holds a buffer, and cache and devices
together have the bytes of the plain disk. -/
structure Quiet (sys : System) (w : World) (disk : PlainDisk) : Prop where
  coherent : Coherent sys w disk noSlot noSlot
  free : HeldBy w.cache none

/-! ## Calls on one buffer -/

theorem bread_spec (hs : sys.Safe) (h : Quiet sys w disk) (dev : DevPtr) (lba : ℕ) :
    (∃ w', w.bread sys dev lba = some (w', none) ∧ Quiet sys w' disk ∧
      (badDevice sys dev = true ∨ (sys.device dev).readBlocks = false ∨
        ∃ n, sys.driver .fill n = false)) ∨
    ∃ w' i, w.bread sys dev lba = some (w', some i) ∧ badDevice sys dev = false ∧
      Coherent sys w' disk noSlot noSlot ∧ Holds w'.cache i (dev, lba) := by
  unfold bread
  by_cases hb : badDevice sys dev = true
  · rw [if_pos hb]
    exact .inl ⟨w, rfl, h, .inl hb⟩
  rw [if_neg hb]
  by_cases hr : (sys.device dev).readBlocks = false
  · rw [if_pos hr]
    exact .inl ⟨w, rfl, h, .inr (.inl hr)⟩
  rw [if_neg hr]
  have hdev : dev ≠ 0 := by
    rintro rfl
    simp [badDevice] at hb
  obtain ⟨w1, i, he, hc, hh⟩ | ⟨w1, i, he, hfr⟩ := getLocked_spec hs h.coherent h.free dev lba
  · rw [he]
    exact .inr ⟨w1, i, rfl, by simpa using hb, hc, hh⟩
  rw [he]
  dsimp only
  unfold driverRead
  have hca : Fresh sys { w1 with calls := w1.calls + 1 } disk i (dev, lba) :=
    ⟨hfr.1.withCalls _, hfr.2, hfr.3, hfr.4, hfr.5, hfr.6, hfr.7⟩
  by_cases hd : sys.driver .fill w1.calls = true
  · rw [if_pos hd]
    set data : Buffer := fun k => if k < (sys.device dev).blockSize then w1.media dev lba k
      else (w1.cache.pool i).data k with hda
    have hby : data.toList (sys.device dev).blockSize = disk (dev, lba) := by
      rw [← hfr.media]
      unfold Buffer.toList mediaBlock
      apply map_congr_left
      intro k hk
      rw [hda]
      dsimp only
      rw [if_pos (mem_range.1 hk)]
    obtain ⟨hc, hh⟩ := hca.fill noSlot hdev data
      (fun bh => { bh with dirty := false, blockSize := (sys.device dev).blockSize }) rfl
      (fun _ => by rw [hca.media, hby])
    rw [hby, update_eq_self] at hc
    exact .inr ⟨_, i, rfl, by simpa using hb, hc, hh⟩
  rw [if_neg hd]
  obtain ⟨hc, hf⟩ := hca.discard
  exact .inl ⟨_, rfl, ⟨hc, hf⟩, .inr (.inr ⟨_, by simpa using hd⟩)⟩

variable {dev : DevPtr}
/-- `bget` does not read: the caller has some bytes, which it has to replace. -/
theorem bget_spec (hs : sys.Safe) (h : Quiet sys w disk) (hb : badDevice sys dev = false)
    (lba : ℕ) : ∃ w' i bytes, w.bget sys dev lba = some (w', some i) ∧
      Coherent sys w' (Function.update disk (dev, lba) bytes) noSlot (fun j => j = i) ∧
      Holds w'.cache i (dev, lba) := by
  unfold bget
  rw [if_neg (by simp [hb])]
  have hdev : dev ≠ 0 := by
    rintro rfl
    simp [badDevice] at hb
  obtain ⟨w1, i, he, hc, hh⟩ | ⟨w1, i, he, hf⟩ := getLocked_spec hs h.coherent h.free dev lba
  · rw [he]
    refine ⟨w1, i, disk (dev, lba), rfl, ?_, hh⟩
    rw [update_eq_self]
    exact hc.mono fun _ hj => hj.elim
  rw [he]
  refine ⟨_, i, _, rfl, hf.fill (fun j => j = i) hdev _ id ?_ fun hne => absurd rfl hne⟩
  simp [hf.clean, hf.blockSize]

variable {i : Slot} {a : BlockAddr}
theorem brelse_spec (h : Coherent sys w disk noSlot noSlot) (hh : Holds w.cache i a) :
    Quiet sys (w.brelse i) disk := by
  have hr : (w.cache.pool i).refcount = 1 := by simpa using (hh.held i).1
  have hp := BCache.releaseLocked_pool (c := w.cache) (i := i) (by omega)
  constructor
  · refine h.congr rfl (h.linked.releaseLocked (h.linked.allocated i (.inl hh.valid)))
      fun j => .inl ?_
    simp only [brelse, hp]
    by_cases hj : j = i
    · subst hj; simp [BufferHead.Same]
    · simp [BufferHead.Same, hj]
  intro j
  have := hh.held j
  simp only [brelse, hp]
  by_cases hj : j = i
  · subst hj; simp [hr]
  · simpa [hj, Ne.symm hj] using this

lemma Holds.congr {c c' : BCache} (hh : Holds c i a) {data : Buffer} {dirty : Bool}
    (hp : ∀ j, c'.pool j =
      if j = i then { c.pool i with data := data, dirty := dirty } else c.pool j) :
    Holds c' i a := by
  refine ⟨fun j => ?_, by simpa [hp] using hh.valid, by simpa [BCache.addr, hp] using hh.addr⟩
  have := hh.held j
  rw [hp]
  by_cases hj : j = i
  · subst hj; rw [if_pos rfl]; exact this
  · rw [if_neg hj]; exact this

section
variable (h : Coherent sys w disk noSlot ls)
include h
lemma Coherent.setData (hh : Holds w.cache i a) (data : Buffer) (f : BufferHead → BufferHead)
    (hf : f (w.cache.pool i) = { w.cache.pool i with data := data }) :
    Coherent sys { w with cache := w.cache.modify i f }
        (Function.update disk a (data.toList (sys.device a.1).blockSize)) noSlot
        (fun j => ls j ∨ j = i) ∧ Holds (w.cache.modify i f) i a := by
  have hp : ∀ j, (w.cache.modify i f).pool j =
      if j = i then { w.cache.pool i with data := data, dirty := (w.cache.pool i).dirty }
      else w.cache.pool j := by
    intro j
    rw [BCache.modify_pool, update_apply, hf]
  refine ⟨?_, hh.congr hp⟩
  obtain rfl := hh.addr
  exact h.update _ hh.valid hp rfl rfl (fun _ _ _ => rfl) (h.writable i hh.valid)
    (fun j _ hl => .inl hl) fun _ hl => absurd (.inr rfl) hl

lemma Coherent.markDirty (hh : Holds w.cache i a) (hw : (sys.device a.1).writeBlocks = true) :
    Coherent sys { w with cache := w.cache.markDirty i } disk noSlot (fun j => ls j ∧ j ≠ i) ∧
      Holds (w.cache.markDirty i) i a := by
  refine ⟨?_, hh.congr (BCache.markDirty_pool w.cache i)⟩
  obtain rfl := hh.addr
  have hc : Coherent sys { w with cache := w.cache.markDirty i } _ noSlot (fun j => ls j ∧ j ≠ i) :=
    h.update _ hh.valid (BCache.markDirty_pool w.cache i) (BCache.markDirty_lru _ i)
    (BCache.markDirty_hash _ i)
      (fun _ _ _ => rfl) (fun _ => hw) (fun j hj hl => ⟨hl, hj⟩) (by simp)
  have hda : (w.cache.pool i).data.toList (sys.device (w.cache.pool i).device).blockSize =
      disk (w.cache.addr i) := h.data i hh.valid
  rwa [hda, update_eq_self] at hc

omit h in
lemma Holds.flushLocked {j : Slot} (hh : Holds w.cache i a) (s : Site) :
    Holds (w.flushLocked sys s j).1.cache i a := by
  refine ⟨hh.held.flushLocked s j, ?_, ?_⟩ <;>
  · obtain he | he := flushLocked_cache sys s w j
    · rw [he]; first | exact hh.valid | exact hh.addr
    · rw [he]
      by_cases hij : i = j
      · subst hij
        simp only [BCache.addr, BCache.markClean_pool, if_true]
        first | exact hh.valid | exact hh.addr
      · simp only [BCache.addr, BCache.markClean_pool, if_neg hij]
        first | exact hh.valid | exact hh.addr

/-- `bdirty`, with whatever write-back the dirty limit asks for. -/
theorem bdirty_spec (hh : Holds w.cache i a) (hw : (sys.device a.1).writeBlocks = true) :
    Coherent sys (w.bdirty sys i) disk noSlot (fun j => ls j ∧ j ≠ i) ∧
      Holds (w.bdirty sys i).cache i a := by
  obtain ⟨h1, h2⟩ := h.markDirty hh hw
  unfold bdirty
  dsimp only
  split
  · exact ⟨h1.flushLocked .limit _, Holds.flushLocked (w := { w with cache := w.cache.markDirty i })
      h2 .limit⟩
  · exact ⟨h1, h2⟩

theorem bwrite_spec (hh : Holds w.cache i a) (hw : (sys.device a.1).writeBlocks = true) :
    (∃ w', w.bwrite sys i = (w', false) ∧ Coherent sys w' disk noSlot ls ∧
      Holds w'.cache i a ∧ ∃ n, sys.driver .bwrite n = false) ∨
    ∃ w', w.bwrite sys i = (w', true) ∧ Coherent sys w' disk noSlot (fun j => ls j ∧ j ≠ i) ∧
      Holds w'.cache i a := by
  obtain rfl := hh.addr
  obtain ⟨hdev, hsz⟩ := h.device i hh.valid
  unfold bwrite
  rw [if_neg (by simpa [hdev, BCache.addr] using hw)]
  obtain ⟨he, hd⟩ | ⟨media, he, h1, h2⟩ := driverWrite_cases sys .bwrite w
    (w.cache.pool i).device (w.cache.pool i).lba (localCopy (w.cache.pool i))
  · rw [he]
    exact .inl ⟨_, rfl, h.withCalls _, hh, _, hd⟩
  rw [he]
  rw [toList_localCopy hsz] at h1
  refine .inr ⟨_, rfl, h.written hh.valid h1 h2, hh.held.markClean i, ?_, ?_⟩
  · simp only [BCache.markClean_pool, if_true]; exact hh.valid
  · exact BCache.markClean_addr _ _ _
end

/-! ## Calls on several blocks -/

lemma readaheadLoop_spec (hs : sys.Safe) (dev : DevPtr) (n : ℕ) :
    ∀ {w : World} (lba : ℕ), Quiet sys w disk →
      ∃ w', readaheadLoop sys dev w lba n = some w' ∧ Quiet sys w' disk := by
  induction n with
  | zero => intro w lba h; exact ⟨w, rfl, h⟩
  | succ n ih =>
    intro w lba h
    unfold readaheadLoop
    obtain ⟨w1, he, h1, -⟩ | ⟨w1, i, he, -, hc, hh⟩ := bread_spec hs h dev lba
    · rw [he]; exact ⟨w1, rfl, h1⟩
    · rw [he]; exact ih _ (brelse_spec hc hh)

lemma blockDeviceReadahead_spec (hs : sys.Safe) (h : Quiet sys w disk) (dev : DevPtr) (s wn : ℕ) :
    ∃ w', w.blockDeviceReadahead sys dev s wn = some w' ∧ Quiet sys w' disk := by
  unfold blockDeviceReadahead
  split_ifs
  · exact ⟨w, rfl, h⟩
  · exact ⟨w, rfl, h⟩
  · exact readaheadLoop_spec hs dev _ _ h

/-- What `bread` needs to succeed when no driver fails. -/
def Readable (sys : System) (dev : DevPtr) : Prop :=
  badDevice sys dev = false ∧ (sys.device dev).readBlocks = true

lemma accepts_cons_read {e : List Event} (h : Accepts disk e) :
    Accepts disk (.read a (disk a) :: e) := by
  rw [← singleton_append]
  exact accepts_append (accepts_read rfl) (by simpa using h)

lemma after_blockEvents_read (dev : DevPtr) (bl : List (List UInt8)) :
    ∀ (disk : PlainDisk) (lba : ℕ), after disk (blockEvents .read dev lba bl) = disk := by
  induction bl with
  | nil => intro disk lba; rfl
  | cons b bs ih => intro disk lba; simp [blockEvents, ih]

/-- The blocks `block_device_read` copies are those of the plain disk. -/
lemma readLoop_spec (hs : sys.Safe) (dev : DevPtr) (n : ℕ) :
    ∀ {w : World} (lba : ℕ), Quiet sys w disk →
      ∃ w' r, readLoop sys dev w lba n = some (w', r) ∧ Quiet sys w' disk ∧
        (∀ blocks, r = some blocks → blocks.length = n ∧
          Accepts disk (blockEvents .read dev lba blocks)) ∧
        (Readable sys dev → (∀ k, sys.driver .fill k = true) → r ≠ none) := by
  induction n with
  | zero =>
    intro w lba h
    refine ⟨w, some [], rfl, h, ?_, by simp⟩
    rintro blocks ⟨⟩
    exact ⟨rfl, accepts_nil disk⟩
  | succ n ih =>
    intro w lba h
    unfold readLoop
    obtain ⟨w1, he, h1, hf⟩ | ⟨w1, i, he, -, hc, hh⟩ := bread_spec hs h dev lba
    · rw [he]
      refine ⟨w1, none, rfl, h1, by simp, ?_⟩
      rintro ⟨hr1, hr2⟩ hok
      simp [hr1, hr2, hok] at hf
    obtain ⟨w2, r, he2, h2, hr, hsu⟩ := ih ((lba + 1) % 2 ^ 64) (brelse_spec hc hh)
    rw [he]
    dsimp only
    rw [he2]
    have hb : (w1.cache.pool i).data.toList (sys.device dev).blockSize = disk (dev, lba) := by
      have := hc.data i hh.valid
      rw [hh.addr] at this
      rw [← this, bufferBlock, show (w1.cache.pool i).device = dev from
        congrArg Prod.fst hh.addr]
    cases r with
    | none => exact ⟨w2, none, rfl, h2, by simp, by simpa using hsu⟩
    | some b =>
      refine ⟨w2, _, rfl, h2, ?_, by simp⟩
      rintro blocks ⟨⟩
      obtain ⟨hl, ha⟩ := hr b rfl
      rw [hb]
      exact ⟨by simp [hl], accepts_cons_read ha⟩

/-- The arguments `block_device_read` accepts. -/
def ReadArgs (sys : System) (dev : DevPtr) (lba n : ℕ) : Prop :=
  Readable sys dev ∧ n ≠ 0 ∧ (lba + n) % 2 ^ 64 ≤ (sys.device dev).blockCount

lemma blockDeviceRead_spec (hs : sys.Safe) (h : Quiet sys w disk) (dev : DevPtr) (lba n : ℕ) :
    ∃ w' r, w.blockDeviceRead sys dev lba n = some (w', r) ∧ Quiet sys w' disk ∧
      (∀ blocks, r = some blocks → blocks.length = n ∧
        Accepts disk (blockEvents .read dev lba blocks)) ∧
      (ReadArgs sys dev lba n → (∀ k, sys.driver .fill k = true) → r ≠ none) := by
  unfold blockDeviceRead
  by_cases hv : blockDeviceValidate sys dev = false ∨ n = 0
  · rw [if_pos hv]
    refine ⟨w, none, rfl, h, by simp, ?_⟩
    rintro ⟨⟨hr1, hr2⟩, hn, -⟩ -
    simp only [badDevice, Bool.or_eq_false_iff, beq_eq_false_iff_ne] at hr1
    simp [blockDeviceValidate, hr1, hr2, hn] at hv
  rw [if_neg hv]
  by_cases hra : (lba + n) % 2 ^ 64 > (sys.device dev).blockCount
  · rw [if_pos hra]
    exact ⟨w, none, rfl, h, by simp, fun ha => absurd hra (by simpa using ha.2.2)⟩
  rw [if_neg hra]
  obtain ⟨w1, r, he, h1, hr, hsu⟩ := readLoop_spec hs dev n lba h
  rw [he]
  cases r with
  | none => exact ⟨w1, none, rfl, h1, by simp, fun ha hok => hsu ha.1 hok⟩
  | some blocks =>
    dsimp only
    set w2 : World := { w1 with
      readahead := Function.update w1.readahead dev (lba, n % 2 ^ 32) } with hw2
    have h2 : Quiet sys w2 disk :=
      ⟨h1.coherent.congr rfl h1.coherent.linked fun _ => .inl ⟨rfl, rfl, rfl, rfl, rfl, rfl⟩,
        h1.free⟩
    split_ifs
    · obtain ⟨w3, he3, h3⟩ := blockDeviceReadahead_spec hs h2 dev ((lba + n) % 2 ^ 64)
        readaheadWindow
      rw [he3]
      exact ⟨w3, _, rfl, h3, hr, by simp⟩
    · exact ⟨w2, _, rfl, h2, hr, by simp⟩

lemma blocksOf_succ (b : ℕ) (s : Buffer) (n : ℕ) : blocksOf b s (n + 1) =
      s.toList b :: blocksOf b (fun k => s (b + k)) n := by
  unfold blocksOf
  rw [range_succ_eq_map, map_cons, map_map]
  congr 1
  · simp
  apply map_congr_left
  intro i _
  simp only [comp_apply, Nat.succ_eq_add_one, Nat.add_mul, one_mul]
  congr 1
  funext k
  congr 1
  omega

/-- `block_device_write` stores its blocks one after the other. -/
lemma writeLoop_spec (hs : sys.Safe) (hb : badDevice sys dev = false)
    (hw : (sys.device dev).writeBlocks = true) (n : ℕ) :
    ∀ {w : World} {disk : PlainDisk} (lba : ℕ) (s : Buffer), Quiet sys w disk →
      ∃ w', writeLoop sys dev w lba s n = some (w', true) ∧ Quiet sys w' (after disk
          (blockEvents .write dev lba (blocksOf (sys.device dev).blockSize s n))) := by
  induction n with
  | zero => intro w disk lba s h; exact ⟨w, rfl, h⟩
  | succ n ih =>
    intro w disk lba s h
    unfold writeLoop
    obtain ⟨w1, i, bytes, he, hc, hh⟩ := bget_spec hs h hb lba
    rw [he]
    set data : Buffer := fun k =>
      if k < (sys.device dev).blockSize then s k else (w1.cache.pool i).data k with hda
    have hsz := (hc.device i hh.valid).2
    rw [show (w1.cache.pool i).device = dev from congrArg Prod.fst hh.addr] at hsz
    obtain ⟨hc2, hh2⟩ := hc.setData hh data
      (fun b => { b with
        data := fun k => if k < (sys.device dev).blockSize then s k else b.data k
        blockSize := (sys.device dev).blockSize, valid := true })
      (by simp [hda, ← hsz, ← hh.valid])
    obtain ⟨hc3, hh3⟩ := bdirty_spec hc2 hh2 hw
    have hby : data.toList (sys.device dev).blockSize = s.toList (sys.device dev).blockSize := by
      apply map_congr_left
      intro k hk
      simp only [hda, if_pos (mem_range.1 hk)]
    rw [hby, update_idem] at hc3
    have h4 := brelse_spec (hc3.mono (by simp [noSlot])) hh3
    obtain ⟨w', he', hq⟩ := ih ((lba + 1) % 2 ^ 64) (fun k => s ((sys.device dev).blockSize + k)) h4
    refine ⟨w', he', ?_⟩
    rw [blocksOf_succ]
    exact hq

lemma accepts_blockEvents_write (dev : DevPtr) (bl : List (List UInt8)) :
    ∀ (disk : PlainDisk) (lba : ℕ), Accepts disk (blockEvents .write dev lba bl) := by
  induction bl with
  | nil => intro disk lba; exact accepts_nil disk
  | cons b bs ih =>
    intro disk lba
    rw [blockEvents, ← singleton_append]
    exact accepts_append (accepts_write _ _ _) (ih _ _)

/-- `block_device_write` stores everything or nothing. -/
lemma blockDeviceWrite_spec (hs : sys.Safe) (h : Quiet sys w disk) (dev : DevPtr) (lba : ℕ)
    (s : Buffer) (n : ℕ) : (w.blockDeviceWrite sys dev lba s n = some (w, false)) ∨
      ∃ w', w.blockDeviceWrite sys dev lba s n = some (w', true) ∧ Quiet sys w' (after disk
          (blockEvents .write dev lba (blocksOf (sys.device dev).blockSize s n))) := by
  unfold blockDeviceWrite
  split_ifs with h1 h2 h3
  · exact .inl rfl
  · exact .inl rfl
  · exact .inl rfl
  by_cases hb : badDevice sys dev = true
  · -- the first `bget` returns `NULL`
    obtain ⟨m, rfl⟩ : ∃ m, n = m + 1 := ⟨n - 1, by omega⟩
    left
    simp [writeLoop, bget, hb]
  · exact .inr (writeLoop_spec hs (by simpa using hb) (by simpa using h2) n lba s h)

/-! ## Whole devices -/
section
variable (h : Quiet sys w disk)
include h
lemma Quiet.flushLocked (s : Site) (i : Slot) : Quiet sys (w.flushLocked sys s i).1 disk :=
  ⟨h.coherent.flushLocked s i, h.free.flushLocked s i⟩

lemma Quiet.flushSlot (dev : DevPtr) (i : Slot) : Quiet sys (w.flushSlot sys dev i) disk := by
  unfold World.flushSlot
  split_ifs
  · exact h.flushLocked .flushDevice i
  · exact h

omit h in
lemma Quiet.foldl {f : World → Slot → World}
    (hf : ∀ w i, Quiet sys w disk → Quiet sys (f w i) disk) (l : List Slot) :
    ∀ {w : World}, Quiet sys w disk → Quiet sys (l.foldl f w) disk := by
  induction l with
  | nil => intro w h; exact h
  | cons i l ih => intro w h; exact ih (hf w i h)

lemma Quiet.flushDevice (dev : DevPtr) : Quiet sys (w.flushDevice sys dev) disk := by
  unfold World.flushDevice
  split_ifs
  · exact h
  · exact Quiet.foldl (fun w i hw => hw.flushSlot dev i) _ h

lemma Quiet.blockDeviceFlush (dev : DevPtr) : Quiet sys (w.blockDeviceFlush sys dev).1 disk := by
  unfold World.blockDeviceFlush
  split_ifs
  · exact h
  · exact ⟨(h.flushDevice dev).coherent.withCalls _, (h.flushDevice dev).free⟩

omit h in
lemma invalidate_pool (c : BCache) (i j : Slot) : (c.invalidate i).pool j = if j = i then
      { c.pool i with valid := false, dirty := false, device := 0, lba := 0, blockSize := 0 }
      else c.pool j := by
  have hp := c.unhashed_pool i
  unfold BCache.invalidate
  rw [BCache.lruPushFront_pool, BCache.lruDetach_pool, BCache.modify_pool, hp, update_apply]

omit h in
lemma invalidate_linked {c : BCache} (h : c.Linked noSlot) (hi : (c.pool i).allocated = true) :
    (c.invalidate i).Linked noSlot := by
  have hh : (if (c.pool i).valid then c.hashRemove i else c).hash = (c.hashRemove i).hash := by
    split_ifs with hv
    · rfl
    -- a buffer that is not valid is on no chain
    have hnot : i ∉ c.hash (bcacheHashKey (c.pool i).device (c.pool i).lba) := by
      intro hm
      have := ((h.mem_hash i _).1 hm).1
      simp [hv, noSlot] at this
    unfold BCache.hashRemove
    dsimp only
    rw [erase_of_not_mem hnot, update_eq_self]
  have hp := c.unhashed_pool i
  have hl : ((if (c.pool i).valid then c.hashRemove i else c).modify i fun b => { b with
      valid := false, dirty := false, device := 0, lba := 0, blockSize := 0 }).Linked noSlot := by
    refine h.unhash (i := i) hh ?_ ?_ ?_ ?_ ?_ (fun _ _ => Iff.rfl)
    · rw [BCache.modify_lru]; split <;> rfl
    · intro j hj
      rw [BCache.modify_pool, hp, update_of_ne hj]
    · simp [hp]
    · intro _; exact hi
    · simp [noSlot]
  exact hl.toFront (by simpa [hp] using hi)

lemma Quiet.invalidate (hi : (w.cache.pool i).allocated = true)
    (hd : (w.cache.pool i).valid = true → (w.cache.pool i).dirty = false) :
    Quiet sys { w with cache := w.cache.invalidate i } disk := by
  constructor
  · refine h.coherent.drop (i := i) (fun hv => ⟨hd hv, id⟩) rfl
      (invalidate_linked h.coherent.linked hi) ?_ ?_
    · simp [invalidate_pool]
    · intro j hj
      rw [invalidate_pool, if_neg hj]
  intro j
  have := h.free j
  rw [invalidate_pool]
  by_cases hji : j = i
  · subst hji; simpa using this
  · rw [if_neg hji]; exact this
end

lemma Quiet.invalidateSlot (hs : sys.Safe) (h : Quiet sys w disk) (hdev : dev ≠ 0) (i : Slot) :
    Quiet sys (w.invalidateSlot sys dev i) disk := by
  unfold World.invalidateSlot
  by_cases hi : (w.cache.pool i).device = dev
  · have ha := h.coherent.linked.allocated i (.inr (.inr (hi ▸ hdev)))
    rw [if_pos hi]
    by_cases hd : ((w.cache.pool i).dirty && (w.cache.pool i).valid) = true
    · simp only [Bool.and_eq_true] at hd
      rw [if_pos (by simp [hd])]
      refine (h.flushLocked .invalidateDevice i).invalidate ?_ ?_
      · obtain he | he := flushLocked_cache sys .invalidateDevice w i <;>
          simpa [he, BCache.markClean_pool] using ha
      · intro _
        exact flushLocked_dirty h.coherent hd.2 (hs _).2
    · rw [if_neg hd]
      refine h.invalidate ha fun hv => ?_
      simpa [hv] using hd
  rw [if_neg hi]
  exact h

lemma Quiet.invalidateDevice (hs : sys.Safe) (h : Quiet sys w disk) (dev : DevPtr) :
    Quiet sys (w.invalidateDevice sys dev) disk := by
  unfold World.invalidateDevice
  split_ifs with hdev
  · exact h
  · exact Quiet.foldl (fun w i hw => hw.invalidateSlot hs hdev i) _ h

/-! ## Uses of one buffer -/

/-- Whether the bytes of a held buffer are written after a sequence of actions;
`trust` says that a `bwrite` counts. -/
def settled (trust : Bool) : Bool → List Action → Bool
  | s, [] => s
  | _, .modify _ :: as => settled trust false as
  | _, .bdirty :: as => settled trust true as
  | s, .bwrite :: as => settled trust (s || trust) as

/-- What the cache expects of its callers: a change to a buffer is followed by
`bdirty` (or `bwrite`), a buffer from `bget` too, and only on a device that
can be written. -/
def Op.Admissible (sys : System) (trust : Bool) : Op → Prop
  | .use .bread dev _ actions =>
    settled trust true actions = true ∧ (actions ≠ [] → (sys.device dev).writeBlocks = true)
  | .use .bget dev _ actions =>
    settled trust false actions = true ∧ (sys.device dev).writeBlocks = true
  | _ => True

variable {lba : ℕ}
lemma blockOf_eq (h : Coherent sys w disk noSlot ls) (hh : Holds w.cache i (dev, lba)) :
    blockOf sys dev w i = disk (dev, lba) := by
  have := h.data i hh.valid
  rw [hh.addr] at this
  rw [← this, bufferBlock, show (w.cache.pool i).device = dev from congrArg Prod.fst hh.addr]
  rfl

variable {trust : Bool}
/-- The actions on a held buffer; `bytes` are those of the buffer, and they are
those of the plain disk whenever the buffer is settled. -/
lemma runActions_spec (hw : (sys.device dev).writeBlocks = true)
    (ht : trust = true → ∀ n, sys.driver .bwrite n = true) (ac : List Action) :
    ∀ {w : World} {disk : PlainDisk} (b : List UInt8) (s : Bool),
      Coherent sys w (Function.update disk (dev, lba) b) noSlot (fun j => s = false ∧ j = i) →
      Holds w.cache i (dev, lba) → (s = true → disk (dev, lba) = b) →
      ∃ w' e b', runActions sys dev lba i w ac = (w', e) ∧
        Coherent sys w' (Function.update (after disk e) (dev, lba) b') noSlot
          (fun j => settled trust s ac = false ∧ j = i) ∧ Holds w'.cache i (dev, lba) ∧
        (settled trust s ac = true → after disk e (dev, lba) = b') ∧ Accepts disk e := by
  induction ac with
  | nil =>
    intro w disk b s hc hh hb
    exact ⟨w, [], b, rfl, hc, hh, hb, accepts_nil disk⟩
  | cons a as ih =>
    intro w disk b s hc hh hb
    have hbl : blockOf sys dev w i = b := by rw [blockOf_eq hc hh, update_self]
    -- a marked or written buffer is an event, after which the disk has its bytes
    have hwr : ∀ {w1 : World} (s1 : Bool), Coherent sys w1
        (Function.update disk (dev, lba) b) noSlot (fun j => s1 = false ∧ j = i) →
        Holds w1.cache i (dev, lba) →
        ∃ w' e b', runActions sys dev lba i w1 as = (w', e) ∧
          Coherent sys w' (Function.update
            (after disk (.write (dev, lba) b :: e)) (dev, lba) b') noSlot
            (fun j => settled trust s1 as = false ∧ j = i) ∧
          Holds w'.cache i (dev, lba) ∧
          (settled trust s1 as = true →
            after disk (.write (dev, lba) b :: e) (dev, lba) = b') ∧
          Accepts disk (.write (dev, lba) b :: e) := by
      intro w1 s1 hc1 hh1
      have hc1' : Coherent sys w1 (Function.update (Function.update disk (dev, lba) b)
          (dev, lba) b) noSlot (fun j => s1 = false ∧ j = i) := by
        rw [update_idem]; exact hc1
      obtain ⟨w', e, b', he, h1, h2, h3, h4⟩ := ih b s1 hc1' hh1 (fun _ => update_self ..)
      exact ⟨w', e, b', he, h1, h2, h3, accepts_append (accepts_write _ _ _) h4⟩
    cases a with
    | modify f =>
      obtain ⟨hc1, hh1⟩ := hc.setData hh (f (w.cache.pool i).data)
        (fun bh => { bh with data := f bh.data }) rfl
      rw [update_idem] at hc1
      obtain ⟨w', e, b', he, h⟩ := ih _ false
        (hc1.mono fun j hj => ⟨rfl, hj.elim And.right id⟩) hh1 (by simp)
      refine ⟨w', e, b', ?_, h⟩
      unfold runActions Action.run
      dsimp only
      rw [he]
      rfl
    | bdirty =>
      obtain ⟨hc1, hh1⟩ := bdirty_spec hc hh hw
      obtain ⟨w', e, b', he, h⟩ := hwr true (hc1.mono (by simp)) hh1
      refine ⟨w', _, b', ?_, h⟩
      unfold runActions Action.run
      dsimp only
      rw [he, hbl]
      rfl
    | bwrite =>
      obtain ⟨w1, hb1, hc1, hh1, n, hn⟩ | ⟨w1, hb1, hc1, hh1⟩ := bwrite_spec hc hh hw
      · have hts : trust = false := by
          by_contra htr
          rw [ht (by simpa using htr) n] at hn
          simp at hn
        obtain ⟨w', e, b', he, h⟩ := ih b s hc1 hh1 hb
        refine ⟨w', e, b', ?_, ?_⟩
        · unfold runActions Action.run
          rw [hb1]
          dsimp only
          rw [he]
          rfl
        · simpa [settled, hts] using h
      obtain ⟨w', e, b', he, h⟩ := hwr (s || trust) (hc1.mono fun j hj => absurd hj.1.2 hj.2) hh1
      refine ⟨w', _, b', ?_, h⟩
      unfold runActions Action.run
      rw [hb1]
      dsimp only
      rw [he, hbl]
      rfl

/-- A use of one buffer, from `bread` or `bget` to `brelse`. -/
lemma use_spec (hs : sys.Safe) (h : Quiet sys w disk)
    (ht : trust = true → ∀ n, sys.driver .bwrite n = true) {f : Fetch} {ac : List Action}
    (ha : (Op.use f dev lba ac).Admissible sys trust) :
    ∃ w' e, (Op.use f dev lba ac).run sys w = some (w', e) ∧
      Quiet sys w' (after disk e) ∧ Accepts disk e := by
  -- a settled buffer is released
  have hf : ∀ {w1 : World} {i : Slot} (bytes : List UInt8) (s : Bool),
      Coherent sys w1 (Function.update disk (dev, lba) bytes) noSlot (fun j => s = false ∧ j = i) →
      Holds w1.cache i (dev, lba) → (s = true → disk (dev, lba) = bytes) →
      (sys.device dev).writeBlocks = true → settled trust s ac = true →
      Quiet sys ((runActions sys dev lba i w1 ac).1.brelse i)
        (after disk (runActions sys dev lba i w1 ac).2) ∧
      Accepts disk (runActions sys dev lba i w1 ac).2 := by
    intro w1 i bytes s hc hh hb hw hset
    obtain ⟨w', e, b', he, hc', hh', hb', hacc⟩ := runActions_spec hw ht ac bytes s hc hh hb
    rw [he]
    rw [← hb' hset, update_eq_self] at hc'
    exact ⟨brelse_spec (hc'.mono (by simp [hset])) hh', hacc⟩
  unfold Op.run
  cases f with
  | bread =>
    obtain ⟨hset, hw⟩ := ha
    dsimp only
    obtain ⟨w1, he, h1, -⟩ | ⟨w1, i, he, -, hc, hh⟩ := bread_spec hs h dev lba
    · rw [he]
      exact ⟨w1, [], rfl, h1, accepts_nil disk⟩
    rw [he]
    refine ⟨_, _, rfl, ?_⟩
    rw [blockOf_eq hc hh, singleton_append]
    cases ac with
    | nil => exact ⟨brelse_spec hc hh, accepts_cons_read (accepts_nil disk)⟩
    | cons a as =>
      obtain ⟨h1, h2⟩ := hf (disk (dev, lba)) true
        (by rw [update_eq_self]; exact hc.mono fun _ hj => hj.elim) hh (fun _ => rfl)
        (hw (by simp)) hset
      exact ⟨h1, accepts_cons_read h2⟩
  | bget =>
    obtain ⟨hset, hw⟩ := ha
    dsimp only
    by_cases hbad : badDevice sys dev = true
    · simp only [bget, hbad, if_true]
      exact ⟨w, [], rfl, h, accepts_nil disk⟩
    obtain ⟨w1, i, bytes, he, hc, hh⟩ := bget_spec hs h (by simpa using hbad) lba
    rw [he]
    refine ⟨_, _, rfl, ?_⟩
    rw [nil_append]
    exact hf bytes false (hc.mono fun _ hj => ⟨rfl, hj⟩) hh (by simp) hw hset

/-! ## Runs -/

/-- **One operation of a run.** It returns, its reads are those of the plain disk,
and the cache follows its writes. -/
theorem Op.run_spec (hs : sys.Safe) (h : Quiet sys w disk)
    (ht : trust = true → ∀ n, sys.driver .bwrite n = true) {o : Op}
    (ha : o.Admissible sys trust) :
    ∃ w' e, o.run sys w = some (w', e) ∧ Quiet sys w' (after disk e) ∧ Accepts disk e := by
  cases o with
  | read dev lba n =>
    obtain ⟨w1, r, he, h1, hr, -⟩ := blockDeviceRead_spec hs h dev lba n
    simp only [Op.run, he]
    cases r with
    | none => exact ⟨w1, [], rfl, h1, accepts_nil disk⟩
    | some blocks =>
      refine ⟨w1, _, rfl, ?_, (hr blocks rfl).2⟩
      rw [after_blockEvents_read]
      exact h1
  | write dev lba buffer n =>
    obtain he | ⟨w1, he, h1⟩ := blockDeviceWrite_spec hs h dev lba buffer n
    · simp only [Op.run, he]
      exact ⟨w, [], rfl, h, accepts_nil disk⟩
    simp only [Op.run, he]
    exact ⟨w1, _, rfl, h1, accepts_blockEvents_write dev _ _ _⟩
  | flush dev => exact ⟨_, [], rfl, h.blockDeviceFlush dev, accepts_nil disk⟩
  | flushDevice dev => exact ⟨_, [], rfl, h.flushDevice dev, accepts_nil disk⟩
  | invalidateDevice dev => exact ⟨_, [], rfl, h.invalidateDevice hs dev, accepts_nil disk⟩
  | use f dev lba actions => exact use_spec hs h ht ha

/-- **Whole runs.** -/
theorem run_spec (hs : sys.Safe) (ht : trust = true → ∀ n, sys.driver .bwrite n = true)
    (o : List Op) :
    ∀ {w : World} {disk : PlainDisk}, Quiet sys w disk → (∀ op ∈ o, op.Admissible sys trust) →
      ∃ w' e, run sys w o = some (w', e) ∧ Quiet sys w' (after disk e) ∧ Accepts disk e := by
  induction o with
  | nil => intro w disk h _; exact ⟨w, [], rfl, h, accepts_nil disk⟩
  | cons op o ih =>
    intro w disk h hops
    obtain ⟨w1, e1, he1, h1, ha1⟩ := Op.run_spec hs h ht (hops op (by simp))
    obtain ⟨w2, e2, he2, h2, ha2⟩ := ih h1 fun op hop => hops op (by simp [hop])
    refine ⟨w2, e1 ++ e2, ?_, ?_, accepts_append ha1 ha2⟩
    · simp only [run, he1, he2]
    rw [after_append]
    exact h2

/-- The bytes the devices hold at the start. -/
def initialDisk (sys : System) (media : DevPtr → ℕ → Buffer) : PlainDisk :=
  fun a => (media a.1 a.2).toList (sys.device a.1).blockSize

lemma quiet_initial (sys : System) (m : DevPtr → ℕ → Buffer) :
    Quiet sys (initial m) (initialDisk sys m) where
  coherent := by
    refine ⟨BCache.linked_initial, ?_, ?_, ?_, ?_, ?_, fun a _ => rfl⟩ <;>
      simp [initial, BCache.initial]
  free := by simp [HeldBy, initial, BCache.initial]

/-- **The block cache refines the plain disk.** With drivers that do not fail,
every run returns; every block it reads has the bytes most recently written to
it, or the device's initial bytes; and afterwards a valid `block_device_read`
succeeds. -/
theorem run_refines_plainDisk (hok : ∀ site n, sys.driver site n = true)
    (media : DevPtr → ℕ → Buffer) (ops : List Op) (hops : ∀ op ∈ ops, op.Admissible sys true) :
    ∃ w es, run sys (initial media) ops = some (w, es) ∧
      Accepts (initialDisk sys media) es ∧
      ∀ dev lba n, ReadArgs sys dev lba n → ∃ w' blocks,
        w.blockDeviceRead sys dev lba n = some (w', some blocks) ∧ blocks.length = n ∧
        Accepts (after (initialDisk sys media) es) (blockEvents .read dev lba blocks) := by
  have hs : sys.Safe := fun n => ⟨hok _ _, hok _ _⟩
  obtain ⟨w, es, he, hq, ha⟩ := run_spec hs (fun _ n => hok _ n) ops (quiet_initial sys media) hops
  refine ⟨w, es, he, ha, fun dev lba n har => ?_⟩
  obtain ⟨w', r, hr, -, hb, hsu⟩ := blockDeviceRead_spec hs hq dev lba n
  cases r with
  | none => exact absurd rfl (hsu har fun k => hok _ k)
  | some blocks => exact ⟨w', blocks, hr, hb blocks rfl⟩

/-- **Failing drivers.** If no write-back fails whose buffer is reused or dropped, every run returns,
each block it reads has the bytes last written, and cache and devices keep them. -/
theorem run_survives_failures (hs : sys.Safe) (media : DevPtr → ℕ → Buffer) {ops : List Op}
    (hops : ∀ op ∈ ops, op.Admissible sys false) :
    ∃ w es, run sys (initial media) ops = some (w, es) ∧ Accepts (initialDisk sys media) es ∧
      Quiet sys w (after (initialDisk sys media) es) := by
  obtain ⟨w, es, hr, hq, ha⟩ :=
    run_spec hs (show false = true → _ from nofun) ops (quiet_initial sys media) hops
  exact ⟨w, es, hr, ha, hq⟩

/-- A device of eight blocks of two bytes whose driver never fails. -/
def sampleSystem : System where
  device := fun _ => { blockSize := 2, blockCount := 8, readBlocks := true, writeBlocks := true,
                       flush := true }
  driver := fun _ _ => true

/-- A run that writes block 3, drops the cache and reads blocks 2 to 4. -/
theorem run_refines_plainDisk_sample : ∃ w es,
    run sampleSystem (initial fun _ _ _ => 0)
      [.write 16 3 (fun _ => 7) 1, .invalidateDevice 16, .read 16 2 3] = some (w, es) ∧
    es = [.write (16, 3) [7, 7], .read (16, 2) [0, 0], .read (16, 3) [7, 7],
      .read (16, 4) [0, 0]] ∧
    Accepts (initialDisk sampleSystem fun _ _ _ => 0) es ∧
    ∀ dev lba n, ReadArgs sampleSystem dev lba n → ∃ w' blocks,
      w.blockDeviceRead sampleSystem dev lba n = some (w', some blocks) ∧ blocks.length = n ∧
      Accepts (after (initialDisk sampleSystem fun _ _ _ => 0) es)
        (blockEvents .read dev lba blocks) := by
  obtain ⟨w, es, hrun, hrest⟩ := @run_refines_plainDisk sampleSystem (fun _ _ => rfl)
    (fun _ _ _ => 0) [.write 16 3 (fun _ => 7) 1, .invalidateDevice 16, .read 16 2 3]
    (by simp [Op.Admissible])
  have hes := congrArg (Option.map Prod.snd) hrun
  exact ⟨w, es, hrun, Option.some.inj (hes.symm.trans (by decide +kernel)), hrest⟩

/-- The driver fails at every read, flush and `bwrite`. -/
def brokenSystem : System :=
  { sampleSystem with driver := fun site _ => decide (site = .evict ∨ site = .invalidateDevice) }

theorem run_survives_failures_flush : ∃ w es, run brokenSystem (initial fun _ _ _ => 0)
      [.write 16 3 (fun _ => 7) 1, .flush 16, .read 16 2 3] = some (w, es) ∧
    Accepts (initialDisk brokenSystem fun _ _ _ => 0) es ∧
    Quiet brokenSystem w (after (initialDisk brokenSystem fun _ _ _ => 0) es) :=
  run_survives_failures (fun _ => ⟨rfl, rfl⟩) _ (by simp [Op.Admissible])
end Menios.Block
