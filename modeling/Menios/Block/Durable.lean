import Menios.Block.Refinement

/-!
# What a successful flush says

`block_device_flush` returns what the driver's `flush` returns, and `true` if the
driver has none. It does not see whether `block_cache_flush_device` could write
the dirty buffers (lines 384-400 of `block_cache.c`), and it cannot see data that
an eviction or an invalidation dropped before, after a failed write-back
(lines 178-194, 410-421).

Results:

* `flushDevice_clean`: with working write-backs no dirty buffer of the device is
  left.
* `blockDeviceFlush_durable`: in a run without the losses above, a successful
  flush leaves the latest bytes of every block on the device. Failed write-backs
  of the dirty limit, failed reads and failed `bwrite`s are allowed.

**Defect.** `block_device_flush` reports success for data that is not on the
device: `blockDeviceFlush_reports_lost` has a driver without flush operation and
one whose write fails inside the flush.
-/

namespace Menios.Block
open Common MemEvent World Option
variable {sys : System} {w : World} {d : PlainDisk}
/-- Buffers keep their blocks, and some become clean. -/
def Cleaner (c c' : BCache) : Prop :=
  ∀ j, c'.pool j = c.pool j ∨ c'.pool j = { c.pool j with dirty := false }

/-- Buffer `i` has nothing to write to `dev`. -/
def CleanFor (dev : DevPtr) (c : BCache) (i : Slot) : Prop :=
  (c.pool i).device = dev → (c.pool i).valid = true → (c.pool i).dirty = false

lemma Cleaner.refl (c : BCache) : Cleaner c c := fun _ => .inl rfl

lemma Cleaner.trans {c c' c'' : BCache} (h : Cleaner c c') (h' : Cleaner c' c'') :
    Cleaner c c'' := by
  intro j
  obtain h1 | h1 := h j <;> obtain h2 | h2 := h' j
  · exact .inl (h2.trans h1)
  · exact .inr (by rw [h2, h1])
  · exact .inr (by rw [h2, h1])
  · exact .inr (by rw [h2, h1])

lemma CleanFor.mono {dv : DevPtr} {c c' : BCache} {i : Slot} (h : CleanFor dv c i)
    (hc : Cleaner c c') : CleanFor dv c' i := by
  intro hd hv
  obtain he | he := hc i
  · rw [he] at hd hv ⊢
    exact h hd hv
  · rw [he]

lemma flushLocked_cleaner (sys : System) (s : Site) (w : World) (i : Slot) :
    Cleaner w.cache (w.flushLocked sys s i).1.cache := by
  intro j
  obtain he | he := flushLocked_cache sys s w i
  · rw [he]; exact .inl rfl
  rw [he, BCache.markClean_pool]
  by_cases hj : j = i
  · subst hj; rw [if_pos rfl]; exact .inr rfl
  · rw [if_neg hj]; exact .inl rfl

section
variable (h : Quiet sys w d)
include h
lemma flushLocked_calls (s : Site) (i : Slot) : w.calls ≤ (w.flushLocked sys s i).1.calls ∧
      (w.flushLocked sys s i).1.calls ≤ w.calls + 1 := by
  by_cases hv : (w.cache.pool i).valid = true
  · obtain ⟨-, he⟩ | ⟨he, -⟩ | ⟨media, he, -⟩ := flushLocked_cases h.coherent s hv <;>
      simp [he]
  rw [flushLocked_invalid s (by simpa using hv)]
  exact ⟨le_rfl, Nat.le_succ _⟩

/-- One buffer of `block_cache_flush_device`. -/
lemma flushSlot_spec (dv : DevPtr) (i : Slot) (hd : sys.driver .flushDevice w.calls = true) :
    CleanFor dv (w.flushSlot sys dv i).cache i ∧ Cleaner w.cache (w.flushSlot sys dv i).cache ∧
      w.calls ≤ (w.flushSlot sys dv i).calls ∧ (w.flushSlot sys dv i).calls ≤ w.calls + 1 := by
  unfold flushSlot
  split_ifs with hi
  · exact ⟨fun _ _ => flushLocked_dirty h.coherent hi.2.2 hd, flushLocked_cleaner _ _ _ _,
      flushLocked_calls h .flushDevice i⟩
  refine ⟨fun h1 h2 => ?_, Cleaner.refl _, le_rfl, Nat.le_succ _⟩
  by_contra hdi
  exact hi ⟨h1, by simpa using hdi, h2⟩

omit h in
lemma foldl_flushSlot_spec (dv : DevPtr) (l : List Slot) : ∀ {w : World}, Quiet sys w d →
      (∀ n, w.calls ≤ n → n < w.calls + l.length → sys.driver .flushDevice n = true) →
      (∀ i ∈ l, CleanFor dv (l.foldl (flushSlot sys dv) w).cache i) ∧
        Cleaner w.cache (l.foldl (flushSlot sys dv) w).cache := by
  induction l with
  | nil => intro w _ _; exact ⟨by simp, Cleaner.refl _⟩
  | cons i l ih =>
    intro w h hd
    rw [List.length_cons] at hd
    obtain ⟨h1, h2, h3, h4⟩ := flushSlot_spec h dv i (hd _ le_rfl (by omega))
    obtain ⟨h5, h6⟩ := ih (h.flushSlot dv i) fun n hn hn' => hd n (by omega) (by omega)
    refine ⟨?_, h2.trans h6⟩
    intro j hj
    obtain rfl | hj := List.mem_cons.1 hj
    · exact h1.mono h6
    · exact h5 j hj

/-- **Working write-backs leave no dirty buffer of the device.** -/
theorem flushDevice_clean {dv : DevPtr} (hdev : dv ≠ 0)
    (hd : ∀ n, w.calls ≤ n → n < w.calls + bcacheMaxBuffers → sys.driver .flushDevice n = true)
    (i : Slot) : CleanFor dv (w.flushDevice sys dv).cache i := by
  unfold flushDevice
  rw [if_neg hdev]
  exact (foldl_flushSlot_spec dv _ h (by simpa using hd)).1 i (List.mem_finRange i)

lemma Quiet.media_eq {dv : DevPtr} (hc : ∀ i, CleanFor dv w.cache i) (l : ℕ) :
    mediaBlock sys w (dv, l) = d (dv, l) := by
  by_cases hv : ∃ i, (w.cache.pool i).valid = true ∧ w.cache.addr i = (dv, l)
  · obtain ⟨i, hv, ha⟩ := hv
    rw [← ha]
    exact h.coherent.clean i hv (hc i (congrArg Prod.fst ha) hv) id
  apply h.coherent.absent
  intro i hi ha
  exact hv ⟨i, hi, ha⟩
end

/-- **A successful flush means durable**, in every run in which no write-back of
an evicted or invalidated buffer fails, if the write-backs of this flush
succeed and a device without a flush operation has nothing to write back. -/
theorem blockDeviceFlush_durable (hs : sys.Safe) (media : DevPtr → ℕ → Buffer) {ops : List Op}
    (hops : ∀ op ∈ ops, op.Admissible sys false) {w : World} {es : List Event}
    (hrun : run sys (initial media) ops = some (w, es)) (dev : DevPtr)
    (hflush : (sys.device dev).flush = false → ∀ i, CleanFor dev w.cache i)
    (hd : ∀ n, w.calls ≤ n → n < w.calls + bcacheMaxBuffers → sys.driver .flushDevice n = true)
    {w' : World} (hret : w.blockDeviceFlush sys dev = (w', true)) (lba : ℕ) :
    mediaBlock sys w' (dev, lba) = after (initialDisk sys media) es (dev, lba) := by
  obtain ⟨w1, e1, he, hq, -⟩ := run_spec hs (by simp) ops (quiet_initial sys media) hops
  rw [hrun] at he
  cases he
  obtain rfl : (w.blockDeviceFlush sys dev).1 = w' := by rw [hret]
  refine (hq.blockDeviceFlush dev).media_eq ?_ lba
  intro i
  unfold blockDeviceFlush
  by_cases h0 : dev = 0
  · -- no buffer belongs to `NULL`
    rw [if_pos (.inl h0)]
    intro hi hv
    exact absurd (hi.trans h0) (hq.coherent.device i hv).1
  by_cases hf : (sys.device dev).flush = false
  · rw [if_pos (.inr hf)]
    exact hflush hf i
  rw [if_neg (by simp [h0, hf])]
  exact flushDevice_clean hq h0 hd i

/-- A block is written and flushed: it is on the device. -/
theorem blockDeviceFlush_durable_sample : ∃ w es w',
    run sampleSystem (initial fun _ _ _ => 0) [.write 16 3 (fun _ => 7) 1] = some (w, es) ∧
      w.blockDeviceFlush sampleSystem 16 = (w', true) ∧
      mediaBlock sampleSystem w' (16, 3) =
        after (initialDisk sampleSystem fun _ _ _ => 0) es (16, 3) := by
  have hsa : sampleSystem.Safe := fun _ => ⟨rfl, rfl⟩
  obtain ⟨w, es, hr, -⟩ := run_spec hsa (fun h : false = true => absurd h Bool.false_ne_true)
    [.write 16 3 (fun _ => 7) 1] (quiet_initial sampleSystem fun _ _ _ => 0)
    (by simp [Op.Admissible])
  refine ⟨w, es, (w.blockDeviceFlush sampleSystem 16).1, hr, rfl, ?_⟩
  exact blockDeviceFlush_durable hsa _ (by simp [Op.Admissible]) hr 16
    (by simp [sampleSystem]) (by simp [sampleSystem]) rfl 3

/-- The sample device with a driver without flush operation. -/
def noFlushSystem : System :=
  { sampleSystem with device := fun dev => { sampleSystem.device dev with flush := false } }

/-- The sample device with a driver that fails when `block_cache_flush_device`
calls it. -/
def failingSystem : System :=
  { sampleSystem with driver := fun site _ => decide (site ≠ .flushDevice) }

lemma flushDevice_media (hd : ∀ n, sys.driver .flushDevice n = false) (w : World) (dv : DevPtr) :
    (w.flushDevice sys dv).media = w.media := by
  have hsl : ∀ (w : World) i, (w.flushSlot sys dv i).media = w.media := by
    intro w i
    unfold flushSlot
    split_ifs
    · simp only [flushLocked, driverWrite, hd]
      split_ifs <;> simp_all
    · rfl
  have hf : ∀ (l : List Slot) (w : World), (l.foldl (flushSlot sys dv) w).media = w.media := by
    intro l
    induction l with
    | nil => intro w; rfl
    | cons i l ih => intro w; rw [List.foldl_cons, ih, hsl]
  unfold flushDevice
  split_ifs
  · rfl
  · exact hf _ w

/-- Block 3 of device 16 is written, and `block_device_flush` returns `true` though
the device does not have the bytes. -/
def LosesBlock (sys : System) : Prop :=
  ∃ r, run sys (initial fun _ _ _ => 0) [.write 16 3 (fun _ => 7) 1] = some r ∧
    (r.1.blockDeviceFlush sys 16).2 = true ∧
    mediaBlock sys (r.1.blockDeviceFlush sys 16).1 (16, 3) ≠
      after (initialDisk sys fun _ _ _ => 0) r.2 (16, 3)

/-- **A successful flush need not mean durable**: not without a flush operation, and
not if the write-back inside the flush fails. -/
theorem blockDeviceFlush_reports_lost : LosesBlock noFlushSystem ∧ LosesBlock failingSystem := by
  have hd : ∀ n, failingSystem.driver .flushDevice n = false := by simp [failingSystem]
  have hme : ∀ w : World, (w.blockDeviceFlush failingSystem 16).1.media = w.media := by
    intro w
    unfold blockDeviceFlush
    rw [if_neg (by simp [failingSystem, sampleSystem])]
    dsimp only
    rw [flushDevice_media hd]
  constructor
  · refine ⟨get _ (by decide +kernel), (some_get _).symm, rfl, ?_⟩
    decide +kernel
  refine ⟨get _ (by decide +kernel), (some_get _).symm, rfl, ?_⟩
  unfold mediaBlock
  rw [hme]
  decide +kernel
end Menios.Block
