import Menios.Block.Cache

/-!
# The links of the cache

The invariant `BCache.Linked`: a buffer is on the hash chain of its block iff it
is valid or being filled, it is on the list of last use iff it is allocated, and
no chain holds a buffer twice. Every operation under the lock keeps it.

Results:

* `Linked.hashLookup_some`, `Linked.hashLookup_none`: a lookup finds a block iff
  a valid buffer has it.
* `Linked.takeOver`: a victim leaves its old chain and joins the new one.
-/

namespace Menios.Block
open Common List Function

namespace BCache
variable (c : BCache)
lemma unhashed_pool (i : Slot) :
    (if (c.pool i).valid then c.hashRemove i else c).pool = c.pool := by
  split <;> rfl

/-- The block a buffer stands for. -/
def addr (i : Slot) : DevPtr × ℕ := ((c.pool i).device, (c.pool i).lba)

/-- The chain of a buffer's block. -/
def key (i : Slot) : ℕ := bcacheHashKey (c.pool i).device (c.pool i).lba

lemma mem_hashInsert (i j : Slot) (k : ℕ) :
    j ∈ (c.hashInsert i).hash k ↔ (j = i ∧ c.key i = k) ∨ j ∈ c.hash k := by
  unfold hashInsert
  dsimp only
  by_cases hk : k = bcacheHashKey (c.pool i).device (c.pool i).lba
  · rw [hk, update_self, mem_cons]
    simp [key]
  rw [update_of_ne hk]
  simp [key, Ne.symm hk]

lemma markClean_pool (i j : Slot) :
    (c.markClean i).pool j = if j = i then { c.pool i with dirty := false } else c.pool j := by
  unfold markClean
  by_cases hd : (c.pool i).dirty = true
  · rw [if_pos hd]
    by_cases hj : j = i
    · subst hj; simp [modify]
    · simp [modify, hj]
  rw [if_neg hd]
  by_cases hj : j = i
  · subst hj
    rw [if_pos rfl, ← (by simpa using hd : (c.pool j).dirty = false)]
  · rw [if_neg hj]

lemma markClean_hash (i : Slot) : (c.markClean i).hash = c.hash := by
  unfold markClean; split <;> rfl

lemma markClean_lru (i : Slot) : (c.markClean i).lru = c.lru := by unfold markClean; split <;> rfl

lemma markClean_addr (i j : Slot) : (c.markClean i).addr j = c.addr j := by
  rw [addr, markClean_pool]
  by_cases hj : j = i
  · subst hj; rw [if_pos rfl]; rfl
  · rw [if_neg hj]; rfl

lemma markDirty_pool (i j : Slot) :
    (c.markDirty i).pool j = if j = i then { c.pool i with dirty := true } else c.pool j := by
  unfold markDirty
  by_cases hd : (c.pool i).dirty = true
  · rw [if_pos hd]
    by_cases hj : j = i
    · subst hj; rw [if_pos rfl, ← hd]
    · rw [if_neg hj]
  rw [if_neg hd]
  by_cases hj : j = i
  · subst hj; simp [modify]
  · simp [modify, hj]

lemma markDirty_hash (i : Slot) : (c.markDirty i).hash = c.hash := by
  unfold markDirty; split <;> rfl

lemma markDirty_lru (i : Slot) : (c.markDirty i).lru = c.lru := by unfold markDirty; split <;> rfl

lemma takeOver_pool (i j : Slot) (d : DevPtr) (lba blockSize : ℕ) :
    (c.takeOver i d lba blockSize).pool j =
      if j = i then { c.pool i with device := d, lba := lba, blockSize := blockSize,
                                    valid := false, dirty := false, refcount := 1 }
      else c.pool j := by
  have hp := c.unhashed_pool i
  unfold takeOver
  rw [lruPushFront_pool, lruDetach_pool, hashInsert_pool, modify_pool, hp]
  by_cases hj : j = i
  · subst hj; rw [update_self, if_pos rfl]
  · rw [update_of_ne hj, if_neg hj]

lemma acquire_pool (i j : Slot) : (c.acquire i).pool j = if j = i then
      { c.pool i with busy := true, refcount := (c.pool i).refcount + 1 } else c.pool j := by
  rw [acquire, lruPushFront_pool, lruDetach_pool, modify_pool, update_apply]

lemma discard_pool (i j : Slot) : (c.discard i).pool j = if j = i then
      { c.pool i with valid := false, refcount := 0, busy := false } else c.pool j := by
  rw [discard, lruPushFront_pool, lruDetach_pool, hashRemove_pool, modify_pool, update_apply]

variable {i : Slot} {c : BCache}
lemma releaseLocked_pool (h : (c.pool i).refcount ≠ 0) (j : Slot) :
    (c.releaseLocked i).pool j = if j = i then
      { c.pool i with refcount := (c.pool i).refcount - 1, busy := false } else c.pool j := by
  rw [releaseLocked, if_neg h, lruPushFront_pool, lruDetach_pool, modify_pool, update_apply]

/-! ## The invariant -/

/-- The links agree with the buffers; `pending` are the fresh buffers whose
contents are still on the way. -/
structure Linked (c : BCache) (pending : Slot → Prop) : Prop where
  lru_nodup : c.lru.Nodup
  mem_lru : ∀ i, i ∈ c.lru ↔ (c.pool i).allocated = true
  hash_nodup : ∀ k, (c.hash k).Nodup
  mem_hash : ∀ i k, i ∈ c.hash k ↔ ((c.pool i).valid = true ∨ pending i) ∧ c.key i = k
  allocated : ∀ i, (c.pool i).valid = true ∨ pending i ∨ (c.pool i).device ≠ 0 →
    (c.pool i).allocated = true

lemma linked_initial : initial.Linked fun _ => False where
  lru_nodup := nodup_nil
  mem_lru := by simp [initial]
  hash_nodup := fun _ => nodup_nil
  mem_hash := by simp [initial]
  allocated := by simp [initial]

namespace Linked
variable {c : BCache} {p : Slot → Prop}
lemma congr {c' : BCache} {p' : Slot → Prop} (h : c.Linked p)
    (hl : c'.lru = c.lru) (hh : c'.hash = c.hash) (ha : ∀ i, c'.addr i = c.addr i)
    (hal : ∀ i, (c'.pool i).allocated = (c.pool i).allocated)
    (hli : ∀ i, ((c'.pool i).valid = true ∨ p' i) ↔ ((c.pool i).valid = true ∨ p i)) :
    c'.Linked p' where
  lru_nodup := hl ▸ h.lru_nodup
  mem_lru i := by rw [hl, hal]; exact h.mem_lru i
  hash_nodup k := by rw [hh]; exact h.hash_nodup k
  mem_hash i k := by
    have hk : c'.key i = c.key i := by
      have := ha i
      simp only [addr, Prod.mk.injEq] at this
      rw [key, this.1, this.2, key]
    rw [hh, hli, hk]; exact h.mem_hash i k
  allocated i hi := by
    have hdev : (c'.pool i).device = (c.pool i).device := congrArg Prod.fst (ha i)
    rw [hal]
    apply h.allocated i
    rw [hdev, ← or_assoc, hli i, or_assoc] at hi
    exact hi

variable {i : Slot}
section
variable (h : c.Linked p)
include h
lemma toFront (hi : (c.pool i).allocated = true) : ((c.lruDetach i).lruPushFront i).Linked p where
  lru_nodup := by
    rw [lruPushFront_lru, lruDetach_lru, nodup_cons]
    exact ⟨h.lru_nodup.not_mem_erase, h.lru_nodup.erase i⟩
  mem_lru j := by
    rw [lruPushFront_lru, lruDetach_lru, mem_cons, lruPushFront_pool, lruDetach_pool,
      ← h.mem_lru j, h.lru_nodup.mem_erase_iff]
    by_cases hj : j = i
    · rw [hj, h.mem_lru i]; simp [hi]
    · simp [hj]
  __ := h

lemma mem_hashRemove (i j : Slot) (k : ℕ) : j ∈ (c.hashRemove i).hash k ↔ j ∈ c.hash k ∧ j ≠ i := by
  unfold hashRemove
  dsimp only
  by_cases hk : k = bcacheHashKey (c.pool i).device (c.pool i).lba
  · rw [hk, update_self, (h.hash_nodup _).mem_erase_iff]
    exact and_comm
  -- on another chain there is no `i` to remove
  rw [update_of_ne hk]
  refine ⟨fun hj => ⟨hj, ?_⟩, And.left⟩
  rintro rfl
  exact hk ((h.mem_hash j k).1 hj).2.symm

lemma nodup_hashRemove (i : Slot) (k : ℕ) : ((c.hashRemove i).hash k).Nodup := by
  unfold hashRemove
  dsimp only
  by_cases hk : k = bcacheHashKey (c.pool i).device (c.pool i).lba
  · rw [hk, update_self]
    exact (h.hash_nodup _).erase i
  rw [update_of_ne hk]
  exact h.hash_nodup k

lemma unhash {c' : BCache} {p' : Slot → Prop}
    (hh : c'.hash = (c.hashRemove i).hash) (hl : c'.lru = c.lru)
    (hp : ∀ j, j ≠ i → c'.pool j = c.pool j) (ha : (c'.pool i).allocated = (c.pool i).allocated)
    (hdev : (c'.pool i).device ≠ 0 → (c.pool i).allocated = true)
    (hde : (c'.pool i).valid = false ∧ ¬ p' i)
    (hpe : ∀ j, j ≠ i → (p' j ↔ p j)) : c'.Linked p' where
  lru_nodup := hl ▸ h.lru_nodup
  mem_lru j := by
    rw [hl, h.mem_lru]
    by_cases hj : j = i
    · rw [hj, ha]
    · rw [hp j hj]
  hash_nodup k := by rw [hh]; exact h.nodup_hashRemove i k
  mem_hash j k := by
    rw [hh, h.mem_hashRemove, h.mem_hash]
    by_cases hj : j = i
    · subst hj
      simp [hde.1, hde.2]
    rw [hpe j hj]
    simp [key, hp j hj, hj]
  allocated j hj := by
    by_cases hji : j = i
    · subst hji
      rw [ha]
      simp only [hde.1, hde.2, Bool.false_eq_true, false_or] at hj
      exact hdev hj
    rw [hp j hji] at hj ⊢
    rw [hpe j hji] at hj
    exact h.allocated j hj

lemma hashInsert (f : BufferHead → BufferHead)
    (hde : (c.pool i).valid = false ∧ ¬ p i) (ha : (c.pool i).allocated = true)
    (hf : (f (c.pool i)).valid = false ∧ (f (c.pool i)).allocated = true) :
    ((c.modify i f).hashInsert i).Linked fun j => p j ∨ j = i := by
  have hnot : ∀ k, i ∉ c.hash k := by
    intro k hk
    have := ((h.mem_hash i k).1 hk).1
    simp [hde.1, hde.2] at this
  have hot : ∀ j, j ≠ i → ((c.modify i f).hashInsert i).pool j = c.pool j := by
    intro j hj
    rw [hashInsert_pool, modify_pool, update_of_ne hj]
  have hse : ((c.modify i f).hashInsert i).pool i = f (c.pool i) := by
    rw [hashInsert_pool, modify_pool, update_self]
  constructor
  · exact h.lru_nodup
  · intro j
    rw [hashInsert_lru, modify_lru, h.mem_lru]
    by_cases hj : j = i
    · rw [hj, hse, ha, hf.2]
    · rw [hot j hj]
  · intro k
    unfold BCache.hashInsert
    dsimp only
    by_cases hk : k = bcacheHashKey ((c.modify i f).pool i).device ((c.modify i f).pool i).lba
    · rw [hk, update_self, nodup_cons]
      exact ⟨hnot _, h.hash_nodup _⟩
    · rw [update_of_ne hk]
      exact h.hash_nodup k
  · intro j k
    rw [mem_hashInsert, modify_hash, h.mem_hash]
    by_cases hj : j = i
    · subst hj
      rw [show ((c.modify j f).hashInsert j).key j = (c.modify j f).key j from rfl]
      simp [hde.1, hde.2]
    · have hk : ((c.modify i f).hashInsert i).key j = c.key j := by rw [key, hot j hj, key]
      rw [hk, hot j hj]
      simp [hj]
  intro j hj
  by_cases hji : j = i
  · rw [hji, hse, hf.2]
  rw [hot j hji] at hj ⊢
  exact h.allocated j (by simpa [hji] using hj)

section
variable (hi : (c.pool i).allocated = true)
include hi
/-- The victim becomes the pending buffer of another block. -/
theorem takeOver (hp : ¬ p i) (device : DevPtr) (lba blockSize : ℕ) :
    (c.takeOver i device lba blockSize).Linked fun j => p j ∨ j = i := by
  set f : BufferHead → BufferHead := fun bh =>
    { bh with device := device, lba := lba, blockSize := blockSize, valid := false, dirty := false,
              refcount := 1 }
  -- the chain is left before `valid` is cleared; the order does not matter
  set c1 := (if (c.pool i).valid then c.hashRemove i else c).modify i fun bh =>
    { bh with valid := false } with hc1
  have hpo := c.unhashed_pool i
  have hl : (if (c.pool i).valid then c.hashRemove i else c).lru = c.lru := by split <;> rfl
  have h1 : c1.Linked p := by
    by_cases hv : (c.pool i).valid = true
    · refine h.unhash (i := i) ?_ ?_ ?_ ?_ ?_ ?_ (fun j _ => Iff.rfl)
      · simp [hc1, hv]
      · simp [hc1, hl]
      · intro j hj
        simp [hc1, hpo, hj]
      · simp [hc1, hpo]
      · intro _; exact hi
      · simp [hc1, hp]
    simp only [hv, Bool.false_eq_true, if_false] at hc1
    refine h.congr ?_ ?_ ?_ ?_ ?_
    · simp [hc1]
    · simp [hc1]
    · intro j
      by_cases hj : j = i
      · subst hj; simp [hc1, addr]
      · simp [hc1, addr, hj]
    · intro j
      by_cases hj : j = i
      · subst hj; simp [hc1]
      · simp [hc1, hj]
    intro j
    by_cases hj : j = i
    · subst hj; simp [hc1, hv]
    · simp [hc1, hj]
  have h2 := (h1.hashInsert (i := i) f (by simp [hc1, hp]) (by simp [hc1, hpo, hi])
    (by simp [hc1, f, hpo, hi])).toFront (i := i) (by simp [hc1, f, hpo, hi])
  have he : c1.modify i f = (if (c.pool i).valid then c.hashRemove i else c).modify i f := by
    simp [hc1, BCache.modify, f]
  rw [he] at h2
  exact h2

omit hi in
lemma enlist (hi : (c.pool i).allocated = false)
    (f : BufferHead → BufferHead) (hf : (f (c.pool i)).valid = false ∧
      (f (c.pool i)).allocated = true) : ((c.modify i f).lruPushFront i).Linked p := by
  have hnot : i ∉ c.lru := by rw [h.mem_lru, hi]; simp
  have hde : ¬ ((c.pool i).valid = true ∨ p i) := by
    intro hl
    have := h.allocated i (by tauto)
    simp [hi] at this
  have hot : ∀ j, j ≠ i → ((c.modify i f).lruPushFront i).pool j = c.pool j := by
    intro j hj
    rw [lruPushFront_pool, modify_pool, update_of_ne hj]
  have hse : ((c.modify i f).lruPushFront i).pool i = f (c.pool i) := by
    rw [lruPushFront_pool, modify_pool, update_self]
  constructor
  · rw [lruPushFront_lru, modify_lru, nodup_cons]
    exact ⟨hnot, h.lru_nodup⟩
  · intro j
    rw [lruPushFront_lru, modify_lru, mem_cons, h.mem_lru]
    by_cases hj : j = i
    · simp [hj, hf.2]
    · rw [hot j hj]
      simp [hj]
  · exact h.hash_nodup
  · intro j k
    rw [lruPushFront_hash, modify_hash, h.mem_hash]
    by_cases hj : j = i
    · subst hj
      rw [hse, hf.1]
      have := not_or.1 hde
      simp [this.1, this.2]
    · rw [key, key, hot j hj]
  intro j hj
  by_cases hji : j = i
  · rw [hji, hse, hf.2]
  rw [hot j hji] at hj ⊢
  exact h.allocated j hj

lemma modify_toFront
    (f : BufferHead → BufferHead) (ha : ∀ b, (f b).device = b.device ∧ (f b).lba = b.lba)
    (hf : ∀ b, (f b).allocated = b.allocated ∧ (f b).valid = b.valid) :
    (((c.modify i f).lruDetach i).lruPushFront i).Linked p := by
  have hl : (c.modify i f).Linked p := by
    refine h.congr rfl rfl ?_ ?_ ?_ <;>
    · intro j
      by_cases hj : j = i
      · subst hj; simp [addr, ha, hf]
      · simp [addr, hj]
  exact hl.toFront (by simpa [hf] using hi)

lemma acquire : (c.acquire i).Linked p :=
  h.modify_toFront hi _ (fun _ => ⟨rfl, rfl⟩) fun _ => ⟨rfl, rfl⟩

lemma releaseLocked : (c.releaseLocked i).Linked p := by
  unfold BCache.releaseLocked
  split_ifs
  · exact h
  · exact h.modify_toFront hi _ (fun _ => ⟨rfl, rfl⟩) fun _ => ⟨rfl, rfl⟩
end

lemma discard (hi : p i) : (c.discard i).Linked fun j => p j ∧ j ≠ i := by
  have ha := h.allocated i (.inr (.inl hi))
  have hl : ((c.modify i fun b => { b with
      valid := false, refcount := 0, busy := false }).hashRemove i).Linked
      fun j => p j ∧ j ≠ i := by
    refine h.unhash (i := i) ?_ rfl ?_ ?_ ?_ ?_ ?_
    · simp [BCache.hashRemove]
    · intro j hj
      simp [hj]
    · simp
    · intro _; exact ha
    · simp
    intro j hj
    simp [hj]
  exact hl.toFront (by simpa using ha)
end

/-! ## Lookup -/

theorem hashLookup_some {d : DevPtr} {l : ℕ} (hl : c.hashLookup d l = some i) :
    (c.pool i).valid = true ∧ c.addr i = (d, l) := by
  have := List.find?_some hl
  simp only [Bool.and_eq_true, beq_iff_eq] at this
  exact ⟨this.1.1, by rw [addr, this.1.2, this.2]⟩

theorem hashLookup_none (h : c.Linked p) {d : DevPtr} {l : ℕ}
    (hl : c.hashLookup d l = none) (hv : (c.pool i).valid = true) : c.addr i ≠ (d, l) := by
  intro ha
  simp only [addr, Prod.mk.injEq] at ha
  have hmem : i ∈ c.hash (bcacheHashKey d l) :=
    (h.mem_hash i _).2 ⟨.inl hv, by rw [key, ha.1, ha.2]⟩
  have := List.find?_eq_none.1 hl i hmem
  simp [hv, ha.1, ha.2] at this
end Linked

/-! ## The choice of a victim -/

lemma selectVictim_some (h : c.selectVictim = some i) :
    i ∈ c.lru ∧ (c.pool i).refcount = 0 ∧ (c.pool i).busy = false := by
  have h1 := List.mem_of_find?_eq_some h
  have h2 := List.find?_some h
  simp only [Bool.and_eq_true, beq_iff_eq, Bool.not_eq_true'] at h2
  exact ⟨mem_reverse.1 h1, h2⟩

/-- The buffer `bcache_alloc_locked` hands out, after the assignments of
`bcache_get_locked`. -/
def reset (bh : BufferHead) : BufferHead :=
  { bh with allocated := true, refcount := 0, dirty := false, valid := false, busy := false,
            device := 0, lba := 0, blockSize := 0 }

/-- What `chooseVictim` can do. -/
lemma chooseVictim_cases {c c' : BCache} (h : c.chooseVictim = some (c', i)) :
    (c' = c ∧ i ∈ c.lru ∧ (c.pool i).refcount = 0 ∧ (c.pool i).busy = false) ∨
      ((c.pool i).allocated = false ∧ c' = c.modify i reset) := by
  unfold chooseVictim at h
  cases hs : c.selectVictim with
  | some v =>
    rw [hs] at h
    simp only [Option.some.injEq, Prod.mk.injEq] at h
    obtain ⟨rfl, rfl⟩ := h
    exact .inl ⟨rfl, selectVictim_some hs⟩
  | none =>
    rw [hs] at h
    simp only [allocLocked, Option.map_map, Option.map_eq_some_iff, Function.comp_apply,
      Prod.mk.injEq] at h
    obtain ⟨j, hj, hc, rfl⟩ := h
    refine .inr ⟨by simpa using List.find?_some hj, ?_⟩
    rw [← hc]
    simp [modify, reset]

lemma chooseVictim_isSome {pn : Slot → Prop} (h : c.Linked pn)
    (hf : ∀ i, (c.pool i).refcount = 0 ∧ (c.pool i).busy = false) :
    ∃ c' i, c.chooseVictim = some (c', i) := by
  unfold chooseVictim
  cases hs : c.selectVictim with
  | some v => exact ⟨c, v, rfl⟩
  | none =>
    have hno := List.find?_eq_none.1 hs
    have hu : ∀ i, (c.pool i).allocated = false := by
      intro i
      by_contra ha
      have hmem := (h.mem_lru i).2 (by simpa using ha)
      have := hno i (mem_reverse.2 hmem)
      simp [hf i] at this
    obtain ⟨j, hj⟩ : ∃ j, (List.finRange bcacheMaxBuffers).find?
        (fun i => !(c.pool i).allocated) = some j := by
      rw [← Option.isSome_iff_exists, List.find?_isSome]
      exact ⟨⟨0, by decide⟩, mem_finRange _, by simp [hu]⟩
    simp [allocLocked, hj]

lemma takeOver_lruPushFront (h : i ∉ c.lru) (d : DevPtr) (l b : ℕ) :
    (c.lruPushFront i).takeOver i d l b = c.takeOver i d l b := by
  unfold takeOver
  by_cases hv : (c.pool i).valid = true <;>
    simp [hv, modify, lruPushFront, lruDetach, hashRemove, hashInsert, erase_of_not_mem h]
end BCache
end Menios.Block
