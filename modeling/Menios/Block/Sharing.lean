import Menios.Block.Linked
import Menios.Block.Device

/-!
# Callers that share the cache

A step model of `bread`, `bget`, `bdirty`, `bwrite` and `brelse` for any number of
callers (`src/kernel/block/block_cache.c`). Each stretch between
`kmutex_lock(&bcache_lock)` and the next unlock or `kcondvar_wait` is one step;
driver calls and the `memset` of `bget` are steps of their own.

Results:

* `Step.inv`, `reach_inv`: the invariant `Inv` of every run in which nobody misses
  on a block while another caller is bringing it in.
* `oneBuffer_of_guarded`: in such a run no block has two buffers.
* `lists_exact_of_guarded`: and its lists are exact.

**Defect.** `bcache_hash_lookup` only sees valid buffers, and a fresh buffer is
not valid until its contents are there (lines 190-200, 281-298, 315-320). Two
callers that miss on one block both bring it in (`two_buffers_for_one_block`).
-/

namespace Menios.Block
open Common BCache Option Function

/-! ## Model -/

/-- A block on its way to a device: `local` of `bcache_flush_locked` or `bwrite`. -/
structure WriteBack where
  addr : BlockAddr
  data : Buffer

/-- Where a caller is. -/
inductive Pc where
  /-- Outside the cache. -/
  | idle
  /-- `bread` or `bget`: about to run the loop of `bcache_get_locked`. -/
  | get (fetch : Fetch) (a : BlockAddr)
  /-- The lock is dropped for the write-back of the victim (line 112). -/
  | evict (fetch : Fetch) (a : BlockAddr) (victim : Slot) (wb : WriteBack)
  /-- The write-back is over, the lock is not taken yet. -/
  | evicted (fetch : Fetch) (a : BlockAddr) (victim : Slot) (ok : Bool)
  /-- A fresh buffer, before its contents are there (lines 276, 311). -/
  | fill (fetch : Fetch) (a : BlockAddr) (i : Slot)
  /-- The contents are there, or the read failed; the lock is not taken yet. -/
  | filled (fetch : Fetch) (a : BlockAddr) (i : Slot) (ok : Bool)
  /-- `bdirty`, before the lock. -/
  | dirty (i : Slot)
  /-- The write-back of the dirty limit: before and after the driver call. -/
  | limit (tail : Slot) (wb : WriteBack)
  | limited (tail : Slot) (ok : Bool)
  /-- `bwrite`: before the lock, with its local copy, after the driver call. -/
  | write (i : Slot)
  | writing (i : Slot) (wb : WriteBack)
  | written (i : Slot) (ok : Bool)
  /-- `brelse`, before the lock. -/
  | release (i : Slot)

/-- The state shared by callers `T`; `holder` says which caller a buffer was
returned to. -/
structure Shared (T : Type) where
  cache : BCache
  media : DevPtr → ℕ → Buffer
  pc : T → Pc
  holder : Slot → Option T

variable {T : Type}
namespace Shared
section
variable [DecidableEq T] (s : Shared T)
/-- Caller `t` goes on at `p`. -/
def goto (t : T) (p : Pc) : Shared T := { s with pc := update s.pc t p }

@[simp] lemma goto_cache (t : T) (p : Pc) : (s.goto t p).cache = s.cache := rfl

@[simp] lemma goto_holder (t : T) (p : Pc) : (s.goto t p).holder = s.holder := rfl

@[simp] lemma goto_self (t : T) (p : Pc) : (s.goto t p).pc t = p := update_self ..

lemma goto_of_ne {t t' : T} (h : t' ≠ t) (p : Pc) : (s.goto t p).pc t' = s.pc t' :=
  update_of_ne h ..
end

/-- `write_blocks` with outcome `ok`. -/
def driverWrite (sys : System) (s : Shared T) (wb : WriteBack) (ok : Bool) : Shared T :=
  if ok then
    { s with media := update s.media wb.addr.1 (update (s.media wb.addr.1) wb.addr.2
        fun k => if k < (sys.device wb.addr.1).blockSize then wb.data k
          else s.media wb.addr.1 wb.addr.2 k) }
  else s

/-- The copy that is written back, if `bcache_flush_locked` gets to its driver call
(lines 101-111). -/
def writeBack (sys : System) (c : BCache) (i : Slot) : Option WriteBack :=
  let bh := c.pool i
  if bh.dirty = false ∨ bh.valid = false ∨ bh.device = 0 ∨
      (sys.device bh.device).writeBlocks = false then none
  else some ⟨c.addr i, World.localCopy bh⟩

/-- Lines 118-120 after the driver call. -/
def finishWrite (s : Shared T) (i : Slot) (ok : Bool) : Shared T :=
  if ok then { s with cache := s.cache.markClean i } else s
end Shared

/-- The assignments of `bread` (lines 295-297) and `bget` (line 318) to a filled
buffer. -/
def Fetch.finish (sys : System) (a : BlockAddr) : Fetch → BufferHead → BufferHead
  | .bread, bh => { bh with valid := true, dirty := false, blockSize := (sys.device a.1).blockSize }
  | .bget, bh => { bh with valid := true }

open Shared

/-- One step of one caller. A miss is labelled with the caller and the block. -/
inductive Step [DecidableEq T] (sys : System) : Shared T → Option (T × BlockAddr) → Shared T → Prop
  /-- `bread(device, lba)` or `bget(device, lba)` is called. -/
  | get (s : Shared T) (t : T) (fetch : Fetch) (a : BlockAddr) (hpc : s.pc t = .idle)
      (hdev : World.badDevice sys a.1 = false)
      (hread : fetch = .bread → (sys.device a.1).readBlocks = true) :
      Step sys s none (s.goto t (.get fetch a))
  /-- The block is in a valid buffer that is busy, or no buffer can be reused:
      `kcondvar_wait` (lines 145, 172). -/
  | wait (s : Shared T) (t : T) (fetch : Fetch) (a : BlockAddr) (hpc : s.pc t = .get fetch a)
      (hwait : (∃ i, s.cache.hashLookup a.1 a.2 = some i ∧ (s.cache.pool i).busy = true) ∨
        (s.cache.hashLookup a.1 a.2 = none ∧ s.cache.chooseVictim = none)) :
      Step sys s none s
  /-- The block is in a valid buffer (lines 148-153). -/
  | hit (s : Shared T) (t : T) (fetch : Fetch) (a : BlockAddr) (i : Slot)
      (hpc : s.pc t = .get fetch a) (hlookup : s.cache.hashLookup a.1 a.2 = some i)
      (hbusy : (s.cache.pool i).busy = false) :
      Step sys s none { s.goto t .idle with
        cache := s.cache.acquire i, holder := update s.holder i (some t) }
  /-- A miss whose victim needs no write-back (lines 156-200). -/
  | miss (s : Shared T) (t : T) (fetch : Fetch) (a : BlockAddr) (c : BCache) (victim : Slot)
      (hpc : s.pc t = .get fetch a) (hlookup : s.cache.hashLookup a.1 a.2 = none)
      (hvictim : s.cache.chooseVictim = some (c, victim))
      (hclean : writeBack sys (c.setBusy victim) victim = none) :
      Step sys s (some (t, a)) { s.goto t (.fill fetch a victim) with
        cache := (c.setBusy victim).takeOver victim a.1 a.2 (sys.device a.1).blockSize }
  /-- A miss whose victim is written back first, without the lock (line 112). -/
  | missDirty (s : Shared T) (t : T) (fetch : Fetch) (a : BlockAddr) (c : BCache) (victim : Slot)
      (wb : WriteBack) (hpc : s.pc t = .get fetch a)
      (hlookup : s.cache.hashLookup a.1 a.2 = none)
      (hvictim : s.cache.chooseVictim = some (c, victim))
      (hdirty : writeBack sys (c.setBusy victim) victim = some wb) :
      Step sys s (some (t, a)) { s.goto t (.evict fetch a victim wb) with
        cache := c.setBusy victim }
  | evictIo (s : Shared T) (t : T) (fetch : Fetch) (a : BlockAddr) (victim : Slot) (wb : WriteBack)
      (ok : Bool) (hpc : s.pc t = .evict fetch a victim wb) :
      Step sys s none ((s.driverWrite sys wb ok).goto t (.evicted fetch a victim ok))
  /-- The lock is taken again (line 114), and the victim is reused whether it was
      written or not. -/
  | evictDone (s : Shared T) (t : T) (fetch : Fetch) (a : BlockAddr) (victim : Slot) (ok : Bool)
      (hpc : s.pc t = .evicted fetch a victim ok) :
      Step sys s none { s.goto t (.fill fetch a victim) with
        cache := (s.finishWrite victim ok).cache.takeOver victim a.1 a.2
          (sys.device a.1).blockSize }
  /-- `read_blocks` (line 282), which may fail. -/
  | readIo (s : Shared T) (t : T) (a : BlockAddr) (i : Slot) (ok : Bool)
      (hpc : s.pc t = .fill .bread a i) :
      Step sys s none { s.goto t (.filled .bread a i ok) with
        cache := s.cache.modify i fun bh => { bh with data := fun k =>
          if ok ∧ k < (sys.device a.1).blockSize then s.media a.1 a.2 k else bh.data k } }
  /-- `memset` (line 316). -/
  | clear (s : Shared T) (t : T) (a : BlockAddr) (i : Slot) (hpc : s.pc t = .fill .bget a i) :
      Step sys s none { s.goto t (.filled .bget a i true) with
        cache := s.cache.modify i fun bh => { bh with data := fun k =>
          if k < (sys.device a.1).blockSize then 0 else bh.data k } }
  /-- The buffer becomes valid and is returned (lines 294-301, 317-320). -/
  | fillDone (s : Shared T) (t : T) (fetch : Fetch) (a : BlockAddr) (i : Slot)
      (hpc : s.pc t = .filled fetch a i true) :
      Step sys s none { s.goto t .idle with
        cache := s.cache.modify i (fetch.finish sys a)
        holder := update s.holder i (some t) }
  /-- The read failed (lines 283-292). -/
  | fillFailed (s : Shared T) (t : T) (fetch : Fetch) (a : BlockAddr) (i : Slot)
      (hpc : s.pc t = .filled fetch a i false) :
      Step sys s none { s.goto t .idle with cache := s.cache.discard i }
  /-- The holder changes the bytes of its buffer. -/
  | modify (s : Shared T) (t : T) (i : Slot) (f : Buffer → Buffer) (hpc : s.pc t = .idle)
      (hheld : s.holder i = some t) :
      Step sys s none { s with cache := s.cache.modify i fun bh => { bh with data := f bh.data } }
  /-- The holder calls `bdirty`, `bwrite` or `brelse`. -/
  | call (s : Shared T) (t : T) (i : Slot) (p : Pc) (hpc : s.pc t = .idle)
      (hheld : s.holder i = some t) (hp : p = .dirty i ∨ p = .write i ∨ p = .release i) :
      Step sys s none (s.goto t p)
  /-- `bdirty` within the dirty limit, or with nothing to write back. -/
  | dirty (s : Shared T) (t : T) (i : Slot) (hpc : s.pc t = .dirty i)
      (hlim : ∀ tail, (s.cache.markDirty i).overLimit = some tail →
        writeBack sys (s.cache.markDirty i) tail = none) :
      Step sys s none { s.goto t .idle with cache := s.cache.markDirty i }
  /-- `bdirty` over the dirty limit: the lock is dropped while `tail` is written. -/
  | dirtyLimit (s : Shared T) (t : T) (i tail : Slot) (wb : WriteBack) (hpc : s.pc t = .dirty i)
      (hlim : (s.cache.markDirty i).overLimit = some tail)
      (hwb : writeBack sys (s.cache.markDirty i) tail = some wb) :
      Step sys s none { s.goto t (.limit tail wb) with cache := s.cache.markDirty i }
  | limitIo (s : Shared T) (t : T) (tail : Slot) (wb : WriteBack) (ok : Bool)
      (hpc : s.pc t = .limit tail wb) :
      Step sys s none ((s.driverWrite sys wb ok).goto t (.limited tail ok))
  | limitDone (s : Shared T) (t : T) (tail : Slot) (ok : Bool) (hpc : s.pc t = .limited tail ok) :
      Step sys s none ((s.finishWrite tail ok).goto t .idle)
  /-- `bwrite` copies the block (lines 353-358), or returns `false` (line 345). -/
  | write (s : Shared T) (t : T) (i : Slot) (p : Pc) (hpc : s.pc t = .write i)
      (hp : p = if (s.cache.pool i).device = 0 ∨
          (sys.device (s.cache.pool i).device).writeBlocks = false then .idle
        else .writing i ⟨s.cache.addr i, World.localCopy (s.cache.pool i)⟩) :
      Step sys s none (s.goto t p)
  | writeIo (s : Shared T) (t : T) (i : Slot) (wb : WriteBack) (ok : Bool)
      (hpc : s.pc t = .writing i wb) :
      Step sys s none ((s.driverWrite sys wb ok).goto t (.written i ok))
  | writeDone (s : Shared T) (t : T) (i : Slot) (ok : Bool) (hpc : s.pc t = .written i ok) :
      Step sys s none ((s.finishWrite i ok).goto t .idle)
  /-- `brelse` (lines 375-382). -/
  | release (s : Shared T) (t : T) (i : Slot) (hpc : s.pc t = .release i) :
      Step sys s none { s.goto t .idle with
        cache := s.cache.releaseLocked i, holder := update s.holder i none }

/-- The state after `block_cache_initialize`. -/
def Shared.initial (T : Type) (media : DevPtr → ℕ → Buffer) : Shared T where
  cache := BCache.initial
  media := media
  pc := fun _ => .idle
  holder := fun _ => none

/-- The states of the runs in which every miss is allowed by `guard`. -/
inductive Reach [DecidableEq T] (sys : System) (guard : Shared T → T → BlockAddr → Prop) : Shared T → Prop
  | init (media : DevPtr → ℕ → Buffer) : Reach sys guard (initial T media)
  | step {s s' : Shared T} {l : Option (T × BlockAddr)} : Reach sys guard s → Step sys s l s' →
      (∀ t a, l = some (t, a) → guard s t a) → Reach sys guard s'

/-! ## What a caller is doing -/
namespace Pc
/-- The block a caller has missed and not yet brought in. -/
def missing : Pc → Option BlockAddr
  | evict _ a _ _ | evicted _ a _ _ | fill _ a _ | filled _ a _ _ => some a
  | _ => none

/-- The buffer a caller has taken for it. -/
def taken : Pc → Option Slot
  | evict _ _ i _ | evicted _ _ i _ | fill _ _ i | filled _ _ i _ => some i
  | _ => none

/-- The fresh buffer a caller is filling, once it stands for the block. -/
def filling : Pc → Option (BlockAddr × Slot)
  | fill _ a i | filled _ a i _ => some (a, i)
  | _ => none

/-- The buffer a caller is giving back. -/
def returning : Pc → Option Slot
  | release i => some i
  | _ => none

/-- A buffer that becomes valid unless a read that has not been made yet fails. -/
def promised : Pc → Option Slot
  | fill _ _ i | filled _ _ i true => some i
  | _ => none
end Pc

namespace Shared
variable (s : Shared T)
/-- Some caller is filling buffer `i`. -/
def Pending (i : Slot) : Prop := ∃ t a, (s.pc t).filling = some (a, i)

/-- Valid, or about to become valid. -/
def Live (i : Slot) : Prop := (s.cache.pool i).valid = true ∨ ∃ t, (s.pc t).promised = some i

/-- **One buffer per block.** -/
def OneBuffer : Prop :=
  ∀ i j, (s.cache.pool i).allocated = true → (s.cache.pool j).allocated = true → s.Live i →
    s.Live j → s.cache.addr i = s.cache.addr j → i = j

/-- No other caller is bringing in the block `a`. -/
def Alone (t : T) (a : BlockAddr) : Prop := ∀ t', t' ≠ t → (s.pc t').missing ≠ some a
end Shared

/-! ## The invariant -/

/-- The invariant of guarded runs. -/
structure Inv (s : Shared T) : Prop where
  linked : s.cache.Linked s.Pending
  held : ∀ t i, s.holder i = some t → (s.cache.pool i).busy = true ∧
    (s.cache.pool i).allocated = true ∧ (s.cache.pool i).valid = true
  taken : ∀ t i, (s.pc t).taken = some i → (s.cache.pool i).busy = true ∧
    (s.cache.pool i).allocated = true ∧ s.holder i = none
  taken_inj : ∀ t t' i, (s.pc t).taken = some i → (s.pc t').taken = some i → t = t'
  filling : ∀ t a i, (s.pc t).filling = some (a, i) → (s.cache.pool i).valid = false ∧
    s.cache.addr i = a
  unique : ∀ i j, (s.cache.pool i).valid = true → (s.cache.pool j).valid = true →
    s.cache.addr i = s.cache.addr j → i = j
  missing : ∀ t a, (s.pc t).missing = some a → ∀ j, (s.cache.pool j).valid = true →
    s.cache.addr j ≠ a
  missing_inj : ∀ t t' a, (s.pc t).missing = some a → (s.pc t').missing = some a → t = t'
  returning : ∀ t i, (s.pc t).returning = some i → s.holder i = some t

variable {p : Pc} {a : BlockAddr} {i : Slot}
open Pc

lemma Pc.filling_eq (h : p.filling = some (a, i)) : p.missing = some a ∧ p.taken = some i := by
  cases p <;> simp_all [filling, missing, taken]

lemma Pc.promised_filling (h : p.promised = some i) : ∃ a, p.filling = some (a, i) := by
  cases p with
  | fill _ a j => exact ⟨a, by simpa [promised, filling] using h⟩
  | filled _ a j ok =>
    cases ok
    · simp [promised] at h
    · exact ⟨a, by simpa [promised, filling] using h⟩
  | _ => simp [promised] at h

lemma Pc.returning_of_missing (h : p.missing = some a) : p.returning = none := by
  cases p <;> simp_all [missing, returning]

lemma inv_initial (m : DevPtr → ℕ → Buffer) : Inv (Shared.initial T m) := by
  refine ⟨?_, ?_, ?_, ?_, ?_, ?_, ?_, ?_, ?_⟩
  · refine BCache.linked_initial.congr rfl rfl (fun _ => rfl) (fun _ => rfl) fun i => ?_
    simp [Shared.Pending, Shared.initial, filling]
  all_goals simp [Shared.initial, BCache.initial, taken, filling, missing, returning]

variable {s : Shared T}
lemma Inv.oneBuffer (h : Inv s) : s.OneBuffer := by
  -- a buffer that is about to become valid has the block its caller missed
  have hpr : ∀ {t i}, (s.pc t).promised = some i →
      (s.pc t).missing = some (s.cache.addr i) ∧ (s.pc t).taken = some i := by
    intro t i hp
    obtain ⟨a, hf⟩ := promised_filling hp
    obtain ⟨h1, h2⟩ := filling_eq hf
    rw [(h.filling t a i hf).2]
    exact ⟨h1, h2⟩
  rintro i j - - (hi | ⟨t, ht⟩) (hj | ⟨t', ht'⟩) ha
  · exact h.unique i j hi hj ha
  · exact absurd ha (h.missing t' _ (hpr ht').1 i hi)
  · exact absurd ha.symm (h.missing t _ (hpr ht).1 j hj)
  have h1 := hpr ht
  have h2 := hpr ht'
  rw [ha] at h1
  obtain rfl := h.missing_inj t t' _ h1.1 h2.1
  exact some.inj (h1.2.symm.trans h2.2)

variable {s' : Shared T}
lemma Inv.congr (h : Inv s) (hl : s'.cache.lru = s.cache.lru)
    (hha : s'.cache.hash = s.cache.hash) (ha : ∀ i, s'.cache.addr i = s.cache.addr i)
    (hp : ∀ i, (s'.cache.pool i).valid = (s.cache.pool i).valid ∧
      (s'.cache.pool i).allocated = (s.cache.pool i).allocated ∧
      (s'.cache.pool i).busy = (s.cache.pool i).busy)
    (hpc : ∀ t, (s'.pc t).missing = (s.pc t).missing ∧ (s'.pc t).taken = (s.pc t).taken ∧
      (s'.pc t).filling = (s.pc t).filling) (hh : s'.holder = s.holder)
    (hr : ∀ t i, (s'.pc t).returning = some i → s.holder i = some t) : Inv s' := by
  have hpe : s'.Pending = s.Pending := by
    funext i
    simp only [Shared.Pending, hpc]
  refine ⟨?_, ?_, ?_, ?_, ?_, ?_, ?_, ?_, hh ▸ hr⟩
  · refine h.linked.congr hl hha ha (fun i => (hp i).2.1) fun i => ?_
    rw [hpe, (hp i).1]
  all_goals simp only [hpc, hp, ha, hh]
  · exact h.held
  · exact h.taken
  · exact h.taken_inj
  · exact h.filling
  · exact h.unique
  · exact h.missing
  · exact h.missing_inj

/-- Two buffer heads that agree except for bytes, size, dirty flag and count. -/
def BufferHead.SameUse (a b : BufferHead) : Prop :=
  b.device = a.device ∧ b.lba = a.lba ∧ b.valid = a.valid ∧ b.allocated = a.allocated ∧
    b.busy = a.busy

lemma BufferHead.SameUse.refl (a : BufferHead) : a.SameUse a := ⟨rfl, rfl, rfl, rfl, rfl⟩

lemma finishWrite_sameUse (s : Shared T) (i : Slot) (o : Bool) (j : Slot) :
    (s.cache.pool j).SameUse ((s.finishWrite i o).cache.pool j) := by
  unfold finishWrite
  split_ifs
  · simp only [markClean_pool]
    by_cases hj : j = i
    · subst hj; rw [if_pos rfl]; exact ⟨rfl, rfl, rfl, rfl, rfl⟩
    · rw [if_neg hj]; exact .refl _
  · exact .refl _

lemma finishWrite_links (s : Shared T) (i : Slot) (o : Bool) :
    (s.finishWrite i o).cache.lru = s.cache.lru ∧ (s.finishWrite i o).cache.hash = s.cache.hash ∧
      (s.finishWrite i o).holder = s.holder ∧ (s.finishWrite i o).pc = s.pc ∧
      (s.finishWrite i o).media = s.media := by
  unfold finishWrite
  split_ifs <;> simp [markClean_lru, markClean_hash]

lemma driverWrite_shared (sys : System) (s : Shared T) (w : WriteBack) (o : Bool) :
    (s.driverWrite sys w o).cache = s.cache ∧ (s.driverWrite sys w o).pc = s.pc ∧
      (s.driverWrite sys w o).holder = s.holder := by
  unfold driverWrite
  split_ifs <;> exact ⟨rfl, rfl, rfl⟩

variable [DecidableEq T] {t : T}
lemma goto_pc (hm : p.missing = (s.pc t).missing) (ht : p.taken = (s.pc t).taken)
    (hf : p.filling = (s.pc t).filling) (t' : T) :
    ((s.goto t p).pc t').missing = (s.pc t').missing ∧
      ((s.goto t p).pc t').taken = (s.pc t').taken ∧
      ((s.goto t p).pc t').filling = (s.pc t').filling := by
  by_cases h : t' = t
  · subst h; simp [hm, ht, hf]
  · simp [s.goto_of_ne h]

lemma goto_idle {t' : T} {α : Type} {f : Pc → Option α} (hf : f .idle = none) {x : α} :
    f ((s.goto t .idle).pc t') = some x ↔ t' ≠ t ∧ f (s.pc t') = some x := by
  by_cases h : t' = t
  · subst h; simp [hf]
  · simp [s.goto_of_ne h, h]

variable {v : Slot} {c : BCache}
/-- A step of caller `t` that changes nothing but the buffer `v`, which the others do not use.
A block that becomes valid is the one that the caller missed. -/
lemma Inv.change (h : Inv s) (hp : ∀ t', t' ≠ t → s'.pc t' = s.pc t')
    (hpo : ∀ j, j ≠ v → s'.cache.pool j = s.cache.pool j)
    (hh : ∀ j, j ≠ v → s'.holder j = s.holder j) (hhl : ∀ t', s.holder v = some t' → t' = t)
    (hta : ∀ t', t' ≠ t → (s.pc t').taken ≠ some v) (hl : s'.cache.Linked s'.Pending)
    (hhe : ∀ t', s'.holder v = some t' → (s'.cache.pool v).busy = true ∧
      (s'.cache.pool v).allocated = true ∧ (s'.cache.pool v).valid = true)
    (htk : ∀ i, (s'.pc t).taken = some i → i = v ∧ (s'.cache.pool v).busy = true ∧
      (s'.cache.pool v).allocated = true ∧ s'.holder v = none)
    (hf : ∀ b i, (s'.pc t).filling = some (b, i) → i = v ∧ (s'.cache.pool v).valid = false ∧
      s'.cache.addr v = b) (hv : (s'.cache.pool v).valid = true →
      ((s.cache.pool v).valid = true ∧ s'.cache.addr v = s.cache.addr v) ∨
      ((s.pc t).missing = some (s'.cache.addr v) ∧ (s'.pc t).missing = none))
    (hmi : ∀ b, (s'.pc t).missing = some b → (s.pc t).missing = some b ∨
      (s.Alone t b ∧ ∀ j, (s.cache.pool j).valid = true → s.cache.addr j ≠ b))
    (hr : ∀ i, (s'.pc t).returning = some i → s'.holder i = some t) : Inv s' := by
  have ha : ∀ j, j ≠ v → s'.cache.addr j = s.cache.addr j := by
    intro j hj
    rw [addr, hpo j hj, addr]
  have hold : ∀ j, (s'.cache.pool j).valid = true →
      ((s.cache.pool j).valid = true ∧ s'.cache.addr j = s.cache.addr j) ∨
      (j = v ∧ (s.pc t).missing = some (s'.cache.addr v) ∧ (s'.pc t).missing = none) := by
    intro j hj
    by_cases hjv : j = v
    · subst hjv
      exact (hv hj).imp_right fun hnew => ⟨rfl, hnew⟩
    · exact .inl ⟨hpo j hjv ▸ hj, ha j hjv⟩
  refine ⟨hl, ?_, ?_, ?_, ?_, ?_, ?_, ?_, ?_⟩
  · intro t' i hi
    by_cases hiv : i = v
    · exact hiv ▸ hhe t' (hiv ▸ hi)
    · rw [hpo i hiv]
      exact h.held t' i (hh i hiv ▸ hi)
  · intro t' i hi
    by_cases ht : t' = t
    · obtain ⟨rfl, hi⟩ := htk i (ht ▸ hi)
      exact hi
    · rw [hp t' ht] at hi
      have hiv : i ≠ v := fun hiv => hta t' ht (hiv ▸ hi)
      rw [hpo i hiv, hh i hiv]
      exact h.taken t' i hi
  · intro t1 t2 i h1 h2
    by_cases ht1 : t1 = t <;> by_cases ht2 : t2 = t
    · rw [ht1, ht2]
    · obtain ⟨rfl, -⟩ := htk i (ht1 ▸ h1)
      exact absurd (hp t2 ht2 ▸ h2) (hta t2 ht2)
    · obtain ⟨rfl, -⟩ := htk i (ht2 ▸ h2)
      exact absurd (hp t1 ht1 ▸ h1) (hta t1 ht1)
    · exact h.taken_inj t1 t2 i (hp t1 ht1 ▸ h1) (hp t2 ht2 ▸ h2)
  · intro t' b i hi
    by_cases ht : t' = t
    · obtain ⟨rfl, hi⟩ := hf b i (ht ▸ hi)
      exact hi
    · rw [hp t' ht] at hi
      have hiv : i ≠ v := fun hiv => hta t' ht (hiv ▸ (filling_eq hi).2)
      rw [hpo i hiv, ha i hiv]
      exact h.filling t' b i hi
  · intro i j hi hj hij
    obtain ⟨hi, ai⟩ | ⟨rfl, hi, -⟩ := hold i hi <;> obtain ⟨hj, aj⟩ | ⟨rfl, hj, -⟩ := hold j hj
    · exact h.unique i j hi hj (ai ▸ aj ▸ hij)
    · exact absurd (ai ▸ hij) (h.missing t _ hj i hi)
    · exact absurd (aj ▸ hij.symm) (h.missing t _ hi j hj)
    · rfl
  · intro t' b hb j hj
    by_cases ht : t' = t
    · subst ht
      obtain ⟨hj, aj⟩ | ⟨-, -, hno⟩ := hold j hj
      · rw [aj]
        obtain hb | ⟨-, hb⟩ := hmi b hb
        · exact h.missing t' b hb j hj
        · exact hb j hj
      · rw [hno] at hb
        cases hb
    · rw [hp t' ht] at hb
      obtain ⟨hj, aj⟩ | ⟨rfl, hnew, -⟩ := hold j hj
      · rw [aj]
        exact h.missing t' b hb j hj
      · rintro rfl
        exact ht (h.missing_inj t' t _ hb hnew)
  · intro t1 t2 b h1 h2
    -- nobody else misses the block that `t` misses now
    have hot : ∀ t', t' ≠ t → (s'.pc t).missing = some b → (s.pc t').missing ≠ some b := by
      intro t' ht hb hb'
      obtain hb | ⟨hal, -⟩ := hmi b hb
      · exact ht (h.missing_inj t' t b hb' hb)
      · exact hal t' ht hb'
    by_cases ht1 : t1 = t <;> by_cases ht2 : t2 = t
    · rw [ht1, ht2]
    · exact absurd (hp t2 ht2 ▸ h2) (hot t2 ht2 (ht1 ▸ h1))
    · exact absurd (hp t1 ht1 ▸ h1) (hot t1 ht1 (ht2 ▸ h2))
    · exact h.missing_inj t1 t2 b (hp t1 ht1 ▸ h1) (hp t2 ht2 ▸ h2)
  intro t' i hi
  by_cases ht : t' = t
  · exact ht ▸ hr i (ht ▸ hi)
  have hi := h.returning t' i (hp t' ht ▸ hi)
  rw [hh i fun hiv => ht (hhl t' (hiv ▸ hi))]
  exact hi

/-- A buffer nobody uses is taken by caller `t` for a block that nobody has: it is
busy now, and it may have been reset. -/
lemma Inv.claim (h : Inv s) (hmi : (s.pc t).missing = none)
    (hp : p.missing = some a ∧ p.taken = some v ∧ p.filling = none) (ha : s.Alone t a)
    (hlo : s.cache.hashLookup a.1 a.2 = none)
    (hfr : s.holder v = none ∧ ∀ t', (s.pc t').taken ≠ some v) (hl : c.Linked s.Pending)
    (hv : (c.pool v).busy = true ∧ (c.pool v).allocated = true)
    (hva : (c.pool v).valid = true → (s.cache.pool v).valid = true ∧ c.addr v = s.cache.addr v)
    (hot : ∀ j, j ≠ v → c.pool j = s.cache.pool j) : Inv { s.goto t p with cache := c } := by
  have hfi : ∀ t', (((s.goto t p).pc t').filling) = (s.pc t').filling := by
    intro t'
    by_cases ht : t' = t
    · subst ht
      rw [s.goto_self, hp.2.2]
      cases hf : (s.pc t').filling with
      | none => rfl
      | some x => rw [(filling_eq hf).1] at hmi; simp at hmi
    · rw [s.goto_of_ne ht]
  have hpe : (Shared.Pending { s.goto t p with cache := c }) = s.Pending := by
    funext i
    simp only [Shared.Pending, hfi]
  have hpct : (s.goto t p).pc t = p := s.goto_self t p
  refine h.change (t := t) (v := v) (fun t' ht => s.goto_of_ne ht p) hot (fun _ _ => rfl) ?_
    (fun t' _ => hfr.2 t') (hpe ▸ hl) ?_ ?_ ?_ (fun hj => .inl (hva hj)) ?_ ?_
  · simp [hfr.1]
  · simp [hfr.1]
  · intro i hi
    simp only [hpct, hp.2.1, some.injEq] at hi
    exact ⟨hi.symm, hv.1, hv.2, hfr.1⟩
  · simp [hp.2.2]
  · intro b hb
    simp only [hpct, hp.1, some.injEq] at hb
    subst hb
    exact .inr ⟨ha, fun j hj => h.linked.hashLookup_none hlo hj⟩
  · simp [returning_of_missing hp.1]

lemma Inv.takeOver (h : Inv s) (hm : (s.pc t).missing = some a) (ht : (s.pc t).taken = some v)
    (hf : (s.pc t).filling = none) (f : Fetch) (bs : ℕ) :
    Inv { s.goto t (.fill f a v) with cache := s.cache.takeOver v a.1 a.2 bs } := by
  obtain ⟨hbu, ha, hh⟩ := h.taken t v ht
  have hno : ∀ t' b, (s.pc t').filling ≠ some (b, v) := by
    intro t' b hfb
    obtain rfl := h.taken_inj t' t v (Pc.filling_eq hfb).2 ht
    simp [hf] at hfb
  have hpc : ∀ t', t' ≠ t → (s.goto t (.fill f a v)).pc t' = s.pc t' :=
    fun t' ht => s.goto_of_ne ht _
  have hp : (s.goto t (.fill f a v)).pc t = .fill f a v := s.goto_self t _
  refine h.change (t := t) (v := v) hpc (fun j hj => ?_) (fun _ _ => rfl) ?_
    (fun t' htt hv => htt (h.taken_inj t' t v hv ht)) ?_ ?_ ?_ ?_ ?_ ?_ ?_
  · exact (takeOver_pool ..).trans (if_neg hj)
  · simp [hh]
  · refine (h.linked.takeOver ha (by rintro ⟨t', b, hb⟩; exact hno t' b hb) a.1 a.2
      bs).congr rfl rfl (fun _ => rfl) (fun _ => rfl) fun i => ?_
    -- the pending buffers are the old ones and the victim
    apply or_congr_right
    constructor
    · rintro ⟨t', b, hb⟩
      by_cases htt : t' = t
      · subst htt
        simp only [hp, Pc.filling, some.injEq, Prod.mk.injEq] at hb
        exact .inr hb.2.symm
      · simp only [hpc t' htt] at hb
        exact .inl ⟨t', b, hb⟩
    · rintro (⟨t', b, hb⟩ | rfl)
      · refine ⟨t', b, ?_⟩
        have htt : t' ≠ t := by
          rintro rfl
          simp [hf] at hb
        simpa [hpc t' htt] using hb
      · exact ⟨t, a, by simp [Pc.filling]⟩
  · simp [hh]
  · intro i hi
    simp only [hp, Pc.taken, some.injEq] at hi
    subst hi
    simp [takeOver_pool, hbu, ha, hh]
  · intro b i hi
    simp only [hp, Pc.filling, some.injEq, Prod.mk.injEq] at hi
    simp [← hi.1, hi.2, addr, takeOver_pool]
  · simp [takeOver_pool]
  · intro b hb
    simp only [hp, Pc.missing, some.injEq] at hb
    exact .inl (hb ▸ hm)
  · simp [Pc.returning]

lemma Inv.hit (h : Inv s)
    (hp : (s.pc t).missing = none ∧ (s.pc t).taken = none ∧ (s.pc t).filling = none)
    (hv : (s.cache.pool i).valid = true) (hb : (s.cache.pool i).busy = false) :
    Inv { s.goto t .idle with
      cache := s.cache.acquire i, holder := update s.holder i (some t) } := by
  have ha := h.linked.allocated i (.inl hv)
  have hpcs := goto_pc (s := s) (t := t) (p := .idle) hp.1.symm hp.2.1.symm hp.2.2.symm
  have hot : ∀ j, j ≠ i → (s.cache.acquire i).pool j = s.cache.pool j := by
    intro j hj
    rw [acquire_pool, if_neg hj]
  refine h.change (t := t) (v := i) (fun t' ht => s.goto_of_ne ht _) hot
    (fun j hj => update_of_ne hj _ _) ?_ ?_ ?_ ?_ ?_ ?_ (fun hj => .inl ?_) ?_ ?_
  · intro t' ht
    have := h.held t' i ht
    simp [hb] at this
  · intro t' _ ht
    have := h.taken t' i ht
    simp [hb] at this
  · refine (h.linked.acquire ha).congr rfl rfl (fun _ => rfl) (fun _ => rfl) fun j => ?_
    simp only [Shared.Pending, hpcs]
  · simp [acquire_pool, hv, ha]
  · simp [Pc.taken]
  · simp [Pc.filling]
  · exact ⟨hv, by simp [addr, acquire_pool]⟩
  · simp [Pc.missing]
  · simp [Pc.returning]

/-- A caller is done with the buffer `i` it was filling: the buffer is valid now
and belongs to the caller, or it is dropped. -/
lemma Inv.leave (h : Inv s) (hf : (s.pc t).filling = some (a, i)) {holder : Slot → Option T}
    (hl : c.Linked fun j => s.Pending j ∧ j ≠ i) (hot : ∀ j, j ≠ i → c.pool j = s.cache.pool j)
    (hh : ∀ j, j ≠ i → holder j = s.holder j)
    (hse : ((c.pool i).valid = true ∧ (c.pool i).busy = true ∧ c.addr i = a) ∨
      ((c.pool i).valid = false ∧ holder i = none)) :
    Inv { s.goto t .idle with cache := c, holder := holder } := by
  obtain ⟨hm, ht⟩ := Pc.filling_eq hf
  have hfi : ∀ t' x, ((s.goto t .idle).pc t').filling = some x ↔
      t' ≠ t ∧ (s.pc t').filling = some x := fun t' x => goto_idle rfl
  -- the other callers use other buffers
  have hne : ∀ {t' j}, t' ≠ t → (s.pc t').taken = some j → j ≠ i := by
    rintro t' j htt hj rfl
    exact htt (h.taken_inj t' t j hj ht)
  refine h.change (t := t) (v := i) (fun t' htt => s.goto_of_ne htt _) hot hh ?_
    (fun t' htt hi => hne htt hi rfl) ?_ ?_ ?_ ?_ ?_ ?_ ?_
  · simp [(h.taken t i ht).2.2]
  · refine hl.congr rfl rfl (fun _ => rfl) (fun _ => rfl) fun j => or_congr_right ?_
    simp only [Shared.Pending, hfi]
    constructor
    · rintro ⟨t', b, htt, hb⟩
      exact ⟨⟨t', b, hb⟩, hne htt (Pc.filling_eq hb).2⟩
    · rintro ⟨⟨t', b, hb⟩, hji⟩
      refine ⟨t', b, ?_, hb⟩
      rintro rfl
      rw [hf, some.injEq, Prod.mk.injEq] at hb
      exact hji hb.2.symm
  · intro t' hi
    obtain ⟨h1, h2, -⟩ | ⟨-, h1⟩ := hse
    · exact ⟨h2, hl.allocated i (.inl h1), h1⟩
    · simp [h1] at hi
  · simp [Pc.taken]
  · simp [Pc.filling]
  · intro (hv : (c.pool i).valid = true)
    obtain ⟨-, -, h1⟩ | ⟨h1, -⟩ := hse
    · exact .inr ⟨h1 ▸ hm, by simp [Pc.missing]⟩
    · simp [hv] at h1
  · simp [Pc.missing]
  · simp [Pc.returning]

variable {ft : Fetch}
section
variable (h : Inv s)
include h
lemma Inv.fillDone {o : Bool} (hpc : s.pc t = .filled ft a i o) (sys : System) :
    Inv { s.goto t .idle with
      cache := s.cache.modify i (ft.finish sys a), holder := update s.holder i (some t) } := by
  have hf : (s.pc t).filling = some (a, i) := by rw [hpc]; rfl
  have hb := (h.taken t i (filling_eq hf).2).1
  have ha := (h.filling t a i hf).2
  refine h.leave hf ?_ ?_ ?_ (.inl ?_)
  · refine h.linked.congr rfl rfl ?_ ?_ ?_
    · intro j
      by_cases hj : j = i
      · subst hj; cases ft <;> simp [addr, Fetch.finish]
      · simp [addr, hj]
    · intro j
      by_cases hj : j = i
      · subst hj; cases ft <;> simp [Fetch.finish]
      · simp [hj]
    · intro j
      by_cases hj : j = i
      · subst hj
        have hp : s.Pending j := ⟨t, a, hf⟩
        cases ft <;> simp [Fetch.finish, hp]
      · simp [hj]
  · intro j hj
    simp [hj]
  · intro j hj
    simp [hj]
  rw [← ha]
  cases ft <;> simp [addr, Fetch.finish, hb]

lemma Inv.fillFailed (hf : (s.pc t).filling = some (a, i)) :
    Inv { s.goto t .idle with cache := s.cache.discard i } := by
  refine h.leave hf (h.linked.discard ⟨t, a, hf⟩) ?_ (fun _ _ => rfl) (.inr ⟨?_, ?_⟩)
  · intro j hj
    rw [discard_pool, if_neg hj]
  · simp [discard_pool]
  · exact (h.taken t i (filling_eq hf).2).2.2

lemma Inv.release (hp : s.pc t = .release i) : Inv { s.goto t .idle with
      cache := s.cache.releaseLocked i, holder := update s.holder i none } := by
  have hh := h.returning t i (by rw [hp]; rfl)
  have ha := (h.held t i hh).2.1
  have hpcs := goto_pc (s := s) (t := t) (p := .idle) (by rw [hp]; rfl) (by rw [hp]; rfl)
    (by rw [hp]; rfl)
  have hot : ∀ j, j ≠ i → (s.cache.releaseLocked i).pool j = s.cache.pool j := by
    intro j hj
    by_cases h0 : (s.cache.pool i).refcount = 0
    · rw [releaseLocked, if_pos h0]
    · rw [releaseLocked_pool h0, if_neg hj]
  have hf : ∀ j, ((s.cache.releaseLocked i).pool j).valid = (s.cache.pool j).valid ∧
      (s.cache.releaseLocked i).addr j = s.cache.addr j := by
    intro j
    by_cases h0 : (s.cache.pool i).refcount = 0
    · rw [releaseLocked, if_pos h0]; exact ⟨rfl, rfl⟩
    by_cases hj : j = i
    · subst hj; simp [addr, releaseLocked_pool h0]
    · simp [addr, releaseLocked_pool h0, hj]
  refine h.change (t := t) (v := i) (fun t' ht => s.goto_of_ne ht _) hot
    (fun j hj => update_of_ne hj _ _) ?_ ?_ ?_ ?_ ?_ ?_ (fun hj => .inl ?_) ?_ ?_
  · intro t' ht
    exact some.inj (ht.symm.trans hh)
  · intro t' _ ht
    have := h.taken t' i ht
    simp [hh] at this
  · refine (h.linked.releaseLocked ha).congr rfl rfl (fun _ => rfl) (fun _ => rfl) fun j => ?_
    simp only [Shared.Pending, hpcs]
  · simp
  · simp [Pc.taken]
  · simp [Pc.filling]
  · exact ⟨(hf i).1 ▸ hj, (hf i).2⟩
  · simp [Pc.missing]
  · simp [Pc.returning]

/-! ## Steps and runs -/

/-- A caller moves on without bringing in another block, while at most bytes and
dirty flags change. -/
lemma Inv.move (hm : p.missing = (s.pc t).missing) (ht : p.taken = (s.pc t).taken)
    (hf : p.filling = (s.pc t).filling) (hr : ∀ i, p.returning = some i → s.holder i = some t)
    (hp : s'.pc = (s.goto t p).pc) (hh : s'.holder = s.holder)
    (hl : s'.cache.lru = s.cache.lru) (hha : s'.cache.hash = s.cache.hash)
    (hpo : ∀ i, (s.cache.pool i).SameUse (s'.cache.pool i)) : Inv s' := by
  refine h.congr hl hha ?_ ?_ ?_ hh ?_
  · intro i
    obtain ⟨h1, h2, -⟩ := hpo i
    rw [addr, h1, h2, addr]
  · intro i
    obtain ⟨-, -, h3⟩ := hpo i
    exact h3
  · intro t'
    rw [hp]
    exact goto_pc hm ht hf t'
  intro t' i hi
  rw [hp] at hi
  by_cases htt : t' = t
  · subst htt
    exact hr i (by simpa using hi)
  · exact h.returning t' i (by simpa [s.goto_of_ne htt] using hi)

/-- Moving from place `q`. -/
lemma Inv.go {q : Pc} (hq : s.pc t = q)
    (hp : p.missing = q.missing ∧ p.taken = q.taken ∧ p.filling = q.filling ∧ p.returning = none)
    (hpc : s'.pc = (s.goto t p).pc) (hh : s'.holder = s.holder)
    (hl : s'.cache.lru = s.cache.lru) (hha : s'.cache.hash = s.cache.hash)
    (hpo : ∀ i, (s.cache.pool i).SameUse (s'.cache.pool i)) : Inv s' := by
  subst hq
  exact h.move hp.1 hp.2.1 hp.2.2.1 (by simp [hp.2.2.2]) hpc hh hl hha hpo

lemma Inv.wrote {q : Pc} (hq : s.pc t = q)
    (hp : p.missing = q.missing ∧ p.taken = q.taken ∧ p.filling = q.filling ∧ p.returning = none)
    (w : WriteBack) (o : Bool) : Inv ((s.driverWrite sys w o).goto t p) := by
  obtain ⟨h1, h2, h3⟩ := driverWrite_shared sys s w o
  refine h.go hq hp (by simp [goto, h2]) h3 ?_ ?_ ?_ <;> rw [goto_cache, h1]
  exact fun _ => .refl _
end

lemma markDirty_sameUse (c : BCache) (i j : Slot) :
    (c.pool j).SameUse ((c.markDirty i).pool j) := by
  rw [markDirty_pool]
  by_cases hj : j = i
  · subst hj; rw [if_pos rfl]; exact ⟨rfl, rfl, rfl, rfl, rfl⟩
  · rw [if_neg hj]; exact .refl _

lemma modify_sameUse (c : BCache) (i j : Slot) {f : BufferHead → BufferHead}
    (hf : ∀ b : BufferHead, b.SameUse (f b)) : (c.pool j).SameUse ((c.modify i f).pool j) := by
  rw [modify_pool]
  by_cases hj : j = i
  · subst hj; rw [update_self]; exact hf _
  · rw [update_of_ne hj]; exact .refl _

/-- The cache once caller `t` has chosen the victim `v`; a new buffer counts as used
from here on. -/
def BCache.claimed (c : BCache) (v : Slot) : BCache :=
  if v ∈ c.lru then c.setBusy v else (c.setBusy v).lruPushFront v

lemma Inv.miss (h : Inv s) (hp : s.pc t = .get ft a)
    (hl : s.cache.hashLookup a.1 a.2 = none) (hvi : s.cache.chooseVictim = some (c, v))
    (ha : s.Alone t a) (w : WriteBack) :
    Inv { s.goto t (.evict ft a v w) with cache := c.claimed v } := by
  have hno : (s.pc t).missing = none := by rw [hp]; rfl
  obtain ⟨rfl, hmem, -, hb⟩ | ⟨hu, rfl⟩ := BCache.chooseVictim_cases hvi
  · rw [BCache.claimed, if_pos hmem]
    have hac := (h.linked.mem_lru v).1 hmem
    refine h.claim hno ⟨rfl, rfl, rfl⟩ ha hl ⟨?_, ?_⟩ ?_ ?_ ?_ ?_
    · cases hh : s.holder v with
      | none => rfl
      | some t' => simpa [hb] using h.held t' v hh
    · intro t' ht'
      simpa [hb] using h.taken t' v ht'
    · refine h.linked.congr rfl rfl ?_ ?_ ?_ <;>
      · intro j
        by_cases hj : j = v
        · subst hj; simp [BCache.setBusy, BCache.addr]
        · simp [BCache.setBusy, BCache.addr, hj]
    · simp [BCache.setBusy, hac]
    · intro hv
      simpa [BCache.setBusy, BCache.addr] using hv
    · intro j hj
      simp [BCache.setBusy, hj]
  have hnot : v ∉ s.cache.lru := by rw [h.linked.mem_lru, hu]; simp
  rw [BCache.claimed, if_neg (by simpa using hnot)]
  refine h.claim hno ⟨rfl, rfl, rfl⟩ ha hl ⟨?_, ?_⟩ ?_ ?_ ?_ ?_
  · cases hh : s.holder v with
    | none => rfl
    | some t' => simpa [hu] using h.held t' v hh
  · intro t' ht'
    simpa [hu] using h.taken t' v ht'
  · have := h.linked.enlist hu (fun b => { BCache.reset b with busy := true })
      (by simp [BCache.reset])
    simpa [BCache.setBusy, BCache.modify] using this
  · simp [BCache.setBusy, BCache.reset]
  · simp [BCache.setBusy, BCache.reset]
  intro j hj
  simp [BCache.setBusy, hj]

lemma takeOver_claimed (c : BCache) (v : Slot) (d : DevPtr) (l b : ℕ) :
    (c.claimed v).takeOver v d l b = (c.setBusy v).takeOver v d l b := by
  unfold claimed
  split_ifs with hv
  · rfl
  · exact takeOver_lruPushFront (c := c.setBusy v) hv d l b

variable {sys : System}
/-- **One step of a guarded run keeps the invariant.** -/
theorem Step.inv {l : Option (T × BlockAddr)} (h : Inv s) (hs : Step sys s l s')
    (hg : ∀ t a, l = some (t, a) → s.Alone t a) : Inv s' := by
  cases hs with
  | get t ft a hpc hdev hr =>
    exact h.move (t := t) (p := .get ft a) (by rw [hpc]; rfl) (by rw [hpc]; rfl)
      (by rw [hpc]; rfl) (by simp [returning]) rfl rfl rfl rfl fun _ => .refl _
  | wait => exact h
  | hit t ft a i hpc hl hb =>
    exact h.hit (by rw [hpc]; exact ⟨rfl, rfl, rfl⟩) (BCache.Linked.hashLookup_some hl).1 hb
  | miss t ft a c v hpc hl hv hc =>
    -- as if the victim had been claimed first
    have h1 := h.miss hpc hl hv (hg t a rfl) ⟨a, fun _ => 0⟩
    have h2 := h1.takeOver (t := t) (a := a) (v := v) (by simp [missing]) (by simp [taken])
      (by simp [filling]) ft (sys.device a.1).blockSize
    rw [takeOver_claimed] at h2
    simpa [goto] using h2
  | missDirty t ft a c v w hpc hl hv hdi =>
    obtain ⟨rfl, hmem, -⟩ | ⟨-, rfl⟩ := chooseVictim_cases hv
    · have h1 := h.miss hpc hl hv (hg t a rfl) w
      rwa [claimed, if_pos hmem] at h1
    · simp [writeBack, setBusy, reset] at hdi
  | evictIo t ft a v w ok hpc =>
    exact h.wrote (p := .evicted ft a v ok) hpc ⟨rfl, rfl, rfl, rfl⟩ w ok
  | evictDone t ft a v ok hpc =>
    obtain ⟨h1, h2, h3, h4, h5⟩ := finishWrite_links s v ok
    have hf : Inv (s.finishWrite v ok) :=
      h.move (t := t) (p := s.pc t) rfl rfl rfl (h.returning t) (by simp [goto, h4]) h3 h1 h2
        (finishWrite_sameUse s v ok)
    have h6 := hf.takeOver (t := t) (a := a) (v := v) (by rw [h4, hpc]; rfl) (by rw [h4, hpc]; rfl)
      (by rw [h4, hpc]; rfl) ft (sys.device a.1).blockSize
    convert h6 using 2
    simp [goto, h3, h4, h5]
  | readIo t a i ok hpc =>
    refine h.go (p := .filled .bread a i ok) hpc ⟨rfl, rfl, rfl, rfl⟩ rfl rfl rfl rfl fun j => ?_
    dsimp only
    exact modify_sameUse s.cache i j (by exact fun _ => ⟨rfl, rfl, rfl, rfl, rfl⟩)
  | clear t a i hpc =>
    refine h.go (p := .filled .bget a i true) hpc ⟨rfl, rfl, rfl, rfl⟩ rfl rfl rfl rfl fun j => ?_
    dsimp only
    exact modify_sameUse s.cache i j (by exact fun _ => ⟨rfl, rfl, rfl, rfl, rfl⟩)
  | fillDone t ft a i hpc => exact h.fillDone hpc sys
  | fillFailed t ft a i hpc => exact h.fillFailed (t := t) (a := a) (by rw [hpc]; rfl)
  | modify t i f hpc hh =>
    refine h.move (t := t) (p := s.pc t) rfl rfl rfl (h.returning t) (by simp [goto]) rfl rfl
      rfl fun j => ?_
    dsimp only
    exact modify_sameUse s.cache i j (by exact fun _ => ⟨rfl, rfl, rfl, rfl, rfl⟩)
  | call t i p hpc hh hp =>
    refine h.move (t := t) (p := p) ?_ ?_ ?_ ?_ rfl rfl rfl rfl fun _ => .refl _
    · rw [hpc]; obtain rfl | rfl | rfl := hp <;> rfl
    · rw [hpc]; obtain rfl | rfl | rfl := hp <;> rfl
    · rw [hpc]; obtain rfl | rfl | rfl := hp <;> rfl
    intro j hj
    obtain rfl | rfl | rfl := hp
    · simp [returning] at hj
    · simp [returning] at hj
    obtain rfl : i = j := by simpa [returning] using hj
    exact hh
  | dirty t i hpc hlim =>
    exact h.go (p := .idle) hpc ⟨rfl, rfl, rfl, rfl⟩ rfl rfl (markDirty_lru _ i) (markDirty_hash _ i)
      (markDirty_sameUse s.cache i)
  | dirtyLimit t i tail w hpc hlim hwb =>
    exact h.go (p := .limit tail w) hpc ⟨rfl, rfl, rfl, rfl⟩ rfl rfl (markDirty_lru _ i)
      (markDirty_hash _ i) (markDirty_sameUse s.cache i)
  | limitIo t tail w ok hpc => exact h.wrote (p := .limited tail ok) hpc ⟨rfl, rfl, rfl, rfl⟩ w ok
  | limitDone t tail ok hpc =>
    obtain ⟨h1, h2, h3, h4, -⟩ := finishWrite_links s tail ok
    exact h.go (p := .idle) hpc ⟨rfl, rfl, rfl, rfl⟩ (by simp [goto, h4]) h3 h1 h2
      (finishWrite_sameUse s tail ok)
  | write t i p hpc hp =>
    refine h.move (t := t) (p := p) ?_ ?_ ?_ ?_ rfl rfl rfl rfl fun _ => .refl _ <;>
    · rw [hp]
      split_ifs <;> simp [hpc, missing, taken, filling, returning]
  | writeIo t i w ok hpc => exact h.wrote (p := .written i ok) hpc ⟨rfl, rfl, rfl, rfl⟩ w ok
  | writeDone t i ok hpc =>
    obtain ⟨h1, h2, h3, h4, -⟩ := finishWrite_links s i ok
    exact h.go (p := .idle) hpc ⟨rfl, rfl, rfl, rfl⟩ (by simp [goto, h4]) h3 h1 h2
      (finishWrite_sameUse s i ok)
  | release t i hpc => exact h.release hpc

theorem reach_inv (h : Reach sys Shared.Alone s) : Inv s := by
  induction h with
  | init media => exact inv_initial media
  | step _ hs hg ih => exact hs.inv ih hg

/-- **One buffer per block**, in every run in which a caller misses on a block only
while no other caller is bringing it in. -/
theorem oneBuffer_of_guarded {sys : System} {s : Shared T} (h : Reach sys Shared.Alone s) :
    s.OneBuffer := (reach_inv h).oneBuffer

/-- **The lists are exact** in these runs, each buffer is in them once, and a held buffer is valid
and taken by nobody for another block. -/
theorem lists_exact_of_guarded (h : Reach sys Shared.Alone s) : s.cache.Linked s.Pending ∧
    ∀ t i, s.holder i = some t → (s.cache.pool i).valid = true ∧ ∀ u, (s.pc u).taken ≠ some i := by
  have hi := reach_inv h
  refine ⟨hi.linked, fun t i ht => ⟨(hi.held t i ht).2.2, fun u hu => ?_⟩⟩
  cases (hi.taken u i hu).2.2.symm.trans ht

/-! ## The guard is needed -/

lemma Inv.miss_shares (h : Inv s) {u : T} (hne : u ≠ t) (hp : (s.pc u).promised = some i)
    (hai : s.cache.addr i = a) (hv : s.cache.chooseVictim = some (c, v)) :
    ¬ Shared.OneBuffer { s.goto t (.fill ft a v) with
      cache := (c.setBusy v).takeOver v a.1 a.2 (sys.device a.1).blockSize } := by
  obtain ⟨b, hf⟩ := promised_filling hp
  obtain ⟨hbu, ha, -⟩ := h.taken u i (filling_eq hf).2
  -- the buffer being filled is busy and allocated, so it is not the victim
  have hiv : i ≠ v := by
    rintro rfl
    obtain ⟨-, -, -, hb⟩ | ⟨hu, -⟩ := chooseVictim_cases hv
    · simp [hbu] at hb
    · simp [ha] at hu
  have hpo : ((c.setBusy v).takeOver v a.1 a.2 (sys.device a.1).blockSize).pool i =
      s.cache.pool i := by
    rw [takeOver_pool, if_neg hiv]
    obtain ⟨rfl, -⟩ | ⟨-, rfl⟩ := chooseVictim_cases hv <;>
      simp [setBusy, hiv]
  have hva : (c.pool v).allocated = true := by
    obtain ⟨rfl, hmem, -⟩ | ⟨-, rfl⟩ := chooseVictim_cases hv
    · exact (h.linked.mem_lru v).1 hmem
    · simp [reset]
  intro hone
  refine hiv (hone i v ?_ ?_ (.inr ⟨u, ?_⟩) (.inr ⟨t, ?_⟩) ?_)
  · simpa only [hpo] using ha
  · simpa [takeOver_pool, setBusy] using hva
  · simpa [s.goto_of_ne hne] using hp
  · simp [promised]
  rw [addr, hpo]
  simp only [addr, takeOver_pool, if_true]
  exact hai

lemma exists_miss (sys : System) (hp : s.pc t = .get ft a)
    (hin : ∀ i, (s.cache.pool i).valid = false) (hu : ∃ i, (s.cache.pool i).allocated = false) :
    ∃ c v, s.cache.chooseVictim = some (c, v) ∧
      Step sys s (some (t, a)) { s.goto t (.fill ft a v) with
        cache := (c.setBusy v).takeOver v a.1 a.2 (sys.device a.1).blockSize } := by
  have hlo : s.cache.hashLookup a.1 a.2 = none := by
    cases hl : s.cache.hashLookup a.1 a.2 with
    | none => rfl
    | some i =>
      have := (BCache.Linked.hashLookup_some hl).1
      simp [hin i] at this
  obtain ⟨⟨c, v⟩, hv⟩ : ∃ r, s.cache.chooseVictim = some r := by
    obtain ⟨i, hi⟩ := hu
    rw [← isSome_iff_exists]
    unfold chooseVictim
    cases s.cache.selectVictim with
    | some v => rfl
    | none =>
      simp only [allocLocked, map_map, isSome_map, List.find?_isSome]
      exact ⟨i, List.mem_finRange i, by simp [hi]⟩
  refine ⟨c, v, hv, .miss s t ft a c v hp hlo hv ?_⟩
  unfold writeBack
  obtain ⟨rfl, -⟩ | ⟨-, rfl⟩ := chooseVictim_cases hv <;>
    simp [setBusy, reset, hin]

/-- Devices with blocks of two bytes. -/
def sharedSystem : System where
  device := fun _ => { blockSize := 2, blockCount := 8, readBlocks := true, writeBlocks := true,
                       flush := true }
  driver := fun _ _ => true

lemma Reach.unguarded {guard : Shared T → T → BlockAddr → Prop}
    (h : Reach sys guard s) : Reach sys (fun _ _ _ => True) s := by
  induction h with
  | init media => exact .init media
  | step _ hstep _ ih => exact ih.step hstep fun _ _ _ => trivial

/-- Two callers call `bget`, for block 3 and for `b`, and the first one misses. -/
lemma reach_first_miss {b : BlockAddr} (hb : World.badDevice sharedSystem b.1 = false) :
    ∃ (s : Shared Bool) (v : Slot), Reach sharedSystem Shared.Alone s ∧
      s.pc true = .fill .bget (16, 3) v ∧ s.pc false = .get .bget b ∧ s.cache.addr v = (16, 3) ∧
      (∀ i, (s.cache.pool i).valid = false) ∧ ∃ i, (s.cache.pool i).allocated = false := by
  set s₀ : Shared Bool := ((initial Bool fun _ _ _ => 0).goto true (.get .bget (16, 3))).goto false
    (.get .bget b) with hs₀
  have h₀ : Reach sharedSystem Shared.Alone s₀ :=
    .step (.step (.init _) (.get _ true .bget (16, 3) rfl (by decide) (by simp)) (by simp))
      (.get _ false .bget b rfl hb (by simp)) (by simp)
  have hpool₀ : ∀ i, s₀.cache.pool i = BCache.initial.pool i := fun _ => rfl
  obtain ⟨c, v, hv, hstep⟩ := exists_miss sharedSystem
    (show s₀.pc true = .get .bget (16, 3) from rfl) (fun i => by rw [hpool₀]; rfl)
    ⟨⟨0, by decide⟩, by rw [hpool₀]; rfl⟩
  set s₁ : Shared Bool := { s₀.goto true (.fill .bget (16, 3) v) with
    cache := (c.setBusy v).takeOver v 16 3 (sharedSystem.device 16).blockSize } with hs₁
  have h₁ : Reach sharedSystem Shared.Alone s₁ := h₀.step hstep (by
    rintro t a ⟨⟩ t' ht'
    obtain rfl : t' = false := by simpa using ht'
    simp [hs₀, missing])
  have hpool₁ : ∀ i, i ≠ v → s₁.cache.pool i = BCache.initial.pool i := by
    intro i hi
    obtain ⟨rfl, -⟩ | ⟨-, rfl⟩ := BCache.chooseVictim_cases hv <;>
      simp [hs₁, BCache.takeOver_pool, BCache.setBusy, hi, hpool₀]
  have hnew : (s₁.cache.pool v).valid = false ∧ s₁.cache.addr v = (16, 3) := by
    simp [hs₁, BCache.addr, BCache.takeOver_pool]
  refine ⟨s₁, v, h₁, by simp [hs₁], by simp [hs₁, hs₀, goto], hnew.2, fun i => ?_, ?_⟩
  · by_cases hi : i = v
    · rw [hi]; exact hnew.1
    · rw [hpool₁ i hi]; rfl
  · by_cases hi : v = ⟨0, by decide⟩
    · exact ⟨⟨1, by decide⟩, by rw [hpool₁ _ (by rw [hi]; decide)]; rfl⟩
    · exact ⟨⟨0, by decide⟩, by rw [hpool₁ _ (Ne.symm hi)]; rfl⟩

/-- While the first caller fills a buffer for block 3, the second one misses on block 4; then the
first one has its buffer. -/
lemma reach_filled : ∃ (s : Shared Bool) (i j : Slot), Reach sharedSystem Shared.Alone s ∧
    s.holder i = some true ∧ (s.pc false).filling = some ((16, 4), j) := by
  obtain ⟨s, v, h, htrue, hfalse, -, hinvalid, hunused⟩ :=
    reach_first_miss (b := (16, 4)) (by decide)
  obtain ⟨c, w, -, hstep⟩ := exists_miss sharedSystem hfalse hinvalid hunused
  have h₁ := h.step hstep (by
    rintro t a ⟨⟩ t' ht'
    obtain rfl : t' = true := by simpa using ht'
    simp [htrue, missing])
  have h₂ := h₁.step (.clear _ true (16, 3) v (by simpa [goto] using htrue)) (by simp)
  have h₃ := h₂.step (.fillDone _ true .bget (16, 3) v (by simp)) (by simp)
  exact ⟨_, v, w, h₃, by simp, by simp [goto, filling]⟩

theorem oneBuffer_of_guarded_two : ∃ (s : Shared Bool) (i j : Slot),
    Reach sharedSystem Shared.Alone s ∧ s.holder i = some true ∧
      (s.pc false).filling = some ((16, 4), j) ∧ s.OneBuffer := by
  obtain ⟨s, i, j, h, hheld, hfilling⟩ := reach_filled
  exact ⟨s, i, j, h, hheld, hfilling, oneBuffer_of_guarded h⟩

theorem lists_exact_of_guarded_two : ∃ (s : Shared Bool) (i j : Slot),
    s.cache.Linked s.Pending ∧ s.holder i = some true ∧ (s.cache.pool i).valid = true ∧
      (s.pc false).filling = some ((16, 4), j) := by
  obtain ⟨s, i, j, h, hheld, hfilling⟩ := reach_filled
  obtain ⟨hlinked, hvalid⟩ := lists_exact_of_guarded h
  exact ⟨s, i, j, hlinked, hheld, (hvalid true i hheld).1, hfilling⟩

/-- **Two buffers for one block**: both callers call `bget` for it, and both miss. -/
theorem two_buffers_for_one_block :
    ∃ s : Shared Bool, Reach sharedSystem (fun _ _ _ => True) s ∧ ¬ s.OneBuffer := by
  obtain ⟨s, v, h, htrue, hfalse, haddr, hinvalid, hunused⟩ :=
    reach_first_miss (b := (16, 3)) (by decide)
  obtain ⟨c, w, hw, hstep⟩ := exists_miss sharedSystem hfalse hinvalid hunused
  refine ⟨_, h.unguarded.step hstep (by simp), ?_⟩
  exact (reach_inv h).miss_shares (u := true) (i := v) (by simp) (by simp [htrue, promised]) haddr hw
end Menios.Block
