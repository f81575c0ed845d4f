import Menios.Mem.FirstFit

/-!
# The count of free pages

`pmm_free_page_count` is kept by `set_page_used`, `set_page_free` and
`set_page_row_free` (`src/kernel/mem/pmm.c`), and `bulk_page_bitmap_as_free`
(lines 711-732) frees a range with the third where it can and with the second
elsewhere.

**Defects.** `list_memory_areas` frees the ranges of the memory map without a bound, also
those behind the bitmap. `set_page_row_free` adds `64 - used` to the count where `used` bits
become clear, and adds nothing for a row that was full. A range that holds a whole
row and goes on after it leaves the count wrong, unless the errors of its rows
happen to cancel.

Results:
* `bulkFree_spec`: the bits that `bulk_page_bitmap_as_free` clears, and by how much
  it moves the count away from the truth.
* `bulkFree_truthful_iff`: when the count is truthful after it.
* `count_truthful_of_safe`: the count is truthful in every run whose calls stay in
  the bitmap and free whole rows only where the errors cancel.
* `listMemoryAreas_isSome_iff`: when a memory map is counted inside the bitmap.
-/

namespace Menios.Mem
open Common Option Finset

/-! ## Model -/
namespace Pmm
/-- The loop of `bulk_page_bitmap_as_free` (lines 718-728) from `p` up to `stop`,
which is `base + size` in `uint64_t`, for at most `fuel` turns. `p` and `stop` are
multiples of the page size, so no sum with `p` wraps. -/
def bulkLoop (base size stop : ℕ) : ℕ → ℕ → Pmm → Option Pmm
  | 0, _, m => some m
  | fuel + 1, p, m =>
    if p < stop then
      let b := p - base
      let r := size - b
      if p % pageRowSize = 0 ∧ r > pageRowSize then do
        let m ← m.setPageRowFree p
        let p := p + (pageRowSize - pageSize)
        let m ← m.setPageFree p
        bulkLoop base size stop fuel (p + pageSize) m
      else do
        let m ← m.setPageFree p
        bulkLoop base size stop fuel (p + pageSize) m
    else some m

variable (m : Pmm)
/-- `bulk_page_bitmap_as_free` (lines 711-732). Each turn of the loop frees a page or
more. -/
def bulkPageBitmapAsFree (base size : UInt64) : Option Pmm :=
  if size = 0 then some m
  else if base.toNat % pageSize = 0 ∧ size.toNat % pageSize = 0 then
    bulkLoop base.toNat size.toNat ((base.toNat + size.toNat) % 2 ^ 64)
      (size.toNat / pageSize) base.toNat
      { m with totalUsablePages := m.totalUsablePages + size.toNat / pageSize }
  else some m

/-- `pmm_free_pages` (lines 691-699). -/
def pmmFreePages (baseAddress pageCount : ℕ) : Option Pmm :=
  (List.range pageCount).foldlM
    (fun m page => m.setPageFree ((baseAddress + page * pageSize) % 2 ^ 64)) m

/-- The calls that change the bitmap after `pmm_page_bitmap_initialize`. -/
inductive Call
  | bulkPageBitmapAsFree (base size : UInt64)
  | pmmAllocPages (pageCount : UInt64)
  | pmmAllocAlignedPages (pageCount alignment maxPhysAddr : UInt64)
  | setPageUsed (physicalAddress : UInt64)
  | pmmFreePages (baseAddress pageCount : UInt64)

/-- The effect of a call; `none` when it leaves the bitmap array. -/
def call : Call → Option Pmm
  | .bulkPageBitmapAsFree base size => m.bulkPageBitmapAsFree base size
  | .pmmAllocPages pageCount => (m.pmmAllocPages pageCount).map Prod.snd
  | .pmmAllocAlignedPages pageCount alignment maxPhysAddr =>
    (m.pmmAllocAlignedPages pageCount alignment maxPhysAddr).map Prod.snd
  | .setPageUsed physicalAddress => m.setPageUsed physicalAddress.toNat
  | .pmmFreePages baseAddress pageCount => m.pmmFreePages baseAddress.toNat pageCount.toNat

/-- The types of a Limine memory map entry that `list_memory_areas` tells apart. -/
inductive MemmapType
  | usable
  | framebuffer
  | other

/-- `limine_memmap_entry`. -/
structure MemmapEntry where
  base : UInt64
  length : UInt64
  type : MemmapType

/-- The loop of `list_memory_areas` (lines 750-770) without the sums it prints. -/
def listMemoryAreas (entries : List MemmapEntry) : Option Pmm :=
  entries.foldlM (fun m e =>
    match e.type with
    | .usable => m.bulkPageBitmapAsFree e.base e.length
    | _ => some m) m

/-! ## Clear bits -/

/-- The pages whose bit is clear. -/
def clearPages : Finset ℕ := (Finset.range pageLimit).filter fun page => m.used page = false

/-- The count is the number of clear bits. -/
def Truthful : Prop := m.freePageCount = m.clearPages.card

/-- How far the count is above the number of clear bits. -/
def drift : ℤ := m.freePageCount - m.clearPages.card

lemma truthful_iff_drift : m.Truthful ↔ m.drift = 0 := by
  rw [Truthful, drift]
  omega

lemma mem_clearPages (p : ℕ) : p ∈ m.clearPages ↔ m.Free p := by simp [clearPages, Free]

lemma drift_markFree {p : ℕ} (h : p < pageLimit) : (m.markFree p).drift = m.drift := by
  cases hu : m.used p with
  | false => rw [markFree_of_free hu]
  | true =>
    have hnot : p ∉ m.clearPages := by simp [mem_clearPages, Free, hu]
    have hins : (m.markFree p).clearPages = insert p m.clearPages := by
      ext other
      by_cases ho : other = p
      · simp [mem_clearPages, Free, ho, h]
      · simp [mem_clearPages, Free, ho]
    have hcount : (m.markFree p).freePageCount = m.freePageCount + 1 := by rw [markFree_of_used hu]
    rw [drift, drift, hins, hcount, card_insert_of_notMem hnot]
    omega

lemma Truthful.markUsed {m : Pmm} (hm : m.Truthful) {p : ℕ} (h : p < pageLimit) :
    (m.markUsed p).Truthful := by
  cases hu : m.used p with
  | true => rwa [markUsed_of_used hu]
  | false =>
    have hnot : p ∉ (m.markUsed p).clearPages := by simp [mem_clearPages, Free]
    have hins : m.clearPages = insert p (m.markUsed p).clearPages := by
      ext other
      by_cases ho : other = p
      · simp [mem_clearPages, Free, ho, h, hu]
      · simp [mem_clearPages, Free, ho]
    have hcount : (m.markUsed p).freePageCount = m.freePageCount - 1 := by rw [markUsed_of_free hu]
    rw [Truthful, hins, card_insert_of_notMem hnot] at hm
    rw [Truthful, hcount, hm, Nat.add_sub_cancel]

/-! ## Freeing a row -/

/-- What `set_page_row_free` adds to the count beyond the bits it clears. -/
def rowExcess (row : BitVec 64) : ℤ :=
  (if row ≠ pageFree ∧ popcountll row < 64 then 64 - (popcountll row : ℤ) else 0) - popcountll row

lemma pageBitmap_markRowFree (i : ℕ) :
    (m.markRowFree i).pageBitmap = Function.update m.pageBitmap i pageFree := by
  rw [markRowFree]
  by_cases hz : m.pageBitmap i = pageFree
  · rw [if_neg (not_not.2 hz), ← hz, Function.update_eq_self]
  rw [if_pos hz]
  rfl

lemma used_markRowFree (i p : ℕ) :
    (m.markRowFree i).used p = (m.used p && decide (p / 64 ≠ i)) := by
  rw [used, pageBitmap_markRowFree]
  by_cases hr : p / 64 = i
  · simp [hr, pageFree]
  · simp [hr, used]

lemma pageBitmap_markFree {p o : ℕ} (h : o ≠ p / 64) :
    (m.markFree p).pageBitmap o = m.pageBitmap o := by
  rw [markFree]
  split_ifs
  · simp [setRow, h]
  · rfl

lemma card_clearPages_markRowFree {i : ℕ} (h : i < pageBitmapSize) :
    (m.markRowFree i).clearPages.card = m.clearPages.card + popcountll (m.pageBitmap i) := by
  obtain ⟨row, hr⟩ : ∃ row : Finset ℕ, row =
      ((Finset.range 64).filter fun bit => (m.pageBitmap i).getLsbD bit).map
        (addLeftEmbedding (i * 64)) := ⟨_, rfl⟩
  have hmem : ∀ page, page ∈ row ↔ page / 64 = i ∧ m.used page = true := by
    intro page
    simp only [hr, Finset.mem_map, mem_filter, mem_range, addLeftEmbedding_apply]
    constructor
    · rintro ⟨bit, ⟨hb, hset⟩, rfl⟩
      refine ⟨by omega, ?_⟩
      rw [used, show (i * 64 + bit) / 64 = i by omega,
        show (i * 64 + bit) % 64 = bit by omega]
      exact hset
    rintro ⟨rfl, hset⟩
    exact ⟨page % 64, ⟨Nat.mod_lt _ (by decide), hset⟩, by omega⟩
  have hdi : Disjoint m.clearPages row := by
    rw [disjoint_left]
    intro page hc hin
    have h1 := ((m.mem_clearPages page).1 hc).2
    rw [((hmem page).1 hin).2] at h1
    cases h1
  have hun : (m.markRowFree i).clearPages = m.clearPages ∪ row := by
    ext page
    simp only [mem_union, mem_clearPages, Free, hmem, used_markRowFree]
    have hlt : page / 64 = i → page < pageLimit := by
      rw [pageLimit]
      omega
    cases hu : m.used page with
    | false => simp
    | true => simpa using hlt
  have hca : row.card = popcountll (m.pageBitmap i) := by
    rw [hr, card_map]
    rfl
  rw [hun, card_union_of_disjoint hdi, hca]

lemma drift_markRowFree {i : ℕ} (h : i < pageBitmapSize) :
    (m.markRowFree i).drift = m.drift + rowExcess (m.pageBitmap i) := by
  have hcount : ((m.markRowFree i).freePageCount : ℤ) = m.freePageCount +
      if m.pageBitmap i ≠ pageFree ∧ popcountll (m.pageBitmap i) < 64 then
        64 - (popcountll (m.pageBitmap i) : ℤ) else 0 := by
    simp only [markRowFree]
    by_cases hz : m.pageBitmap i = pageFree
    · simp [hz]
    by_cases hlt : popcountll (m.pageBitmap i) < 64
    · simp only [ne_eq, hz, not_false_eq_true, hlt, and_self, if_true]
      omega
    · simp [hz, hlt]
  rw [drift, drift, card_clearPages_markRowFree m h, hcount, rowExcess]
  omega

/-! ## Freeing a range -/

/-- The rows that `bulk_page_bitmap_as_free` frees whole: all of the row is in the
range from `p` on, and the range goes on after it. -/
def wholeRows (p stop : ℕ) : Finset ℕ :=
  (Finset.range pageBitmapSize).filter fun i => p ≤ i * pageRowSize ∧ (i + 1) * pageRowSize < stop

lemma mem_wholeRows {p sp i : ℕ} (h : sp ≤ pageLimit * pageSize) :
    i ∈ wholeRows p sp ↔ p ≤ i * pageRowSize ∧ (i + 1) * pageRowSize < sp := by
  simp only [wholeRows, mem_filter, mem_range, and_iff_right_iff_imp]
  rintro ⟨-, hlt⟩
  simp only [pageRowSize, pageSize, pageLimit] at h hlt ⊢
  omega

/-- The page at `p` is freed alone: the whole rows are those after it. -/
lemma wholeRows_page {p sp : ℕ} (hst : sp ≤ pageLimit * pageSize) (ha : p % pageSize = 0)
    (h : ¬ (p % pageRowSize = 0 ∧ p + pageRowSize < sp)) :
    wholeRows p sp = wholeRows (p + pageSize) sp := by
  ext i
  rw [mem_wholeRows hst, mem_wholeRows hst]
  simp only [pageRowSize, pageSize] at *
  omega

/-- The row at `p` is freed whole. -/
lemma wholeRows_row {p sp : ℕ} (hst : sp ≤ pageLimit * pageSize)
    (hr : p % pageRowSize = 0) (h : p + pageRowSize < sp) :
    wholeRows p sp = insert (p / pageRowSize) (wholeRows (p + pageRowSize) sp) := by
  ext i
  rw [mem_insert, mem_wholeRows hst, mem_wholeRows hst]
  simp only [pageRowSize, pageSize] at *
  omega

/-- `m'` is `m` with the bits of the pages in `[p, stop)` cleared. -/
def Clears (m m' : Pmm) (p stop : ℕ) : Prop :=
  ∀ page, m'.used page = (m.used page && !decide (p ≤ page * pageSize ∧ page * pageSize < stop))

lemma setPageFree_of_lt {p : ℕ} (h : p < pageLimit * pageSize) :
    m.setPageFree p = some (m.markFree (p / pageSize)) := by
  rw [setPageFree, if_pos]
  rwa [Nat.div_lt_iff_lt_mul (by decide)]

lemma setPageRowFree_of_lt {p : ℕ} (h : p < pageLimit * pageSize) :
    m.setPageRowFree p = some (m.markRowFree (p / pageRowSize)) := by
  have hlt : p / pageSize < pageLimit := by rwa [Nat.div_lt_iff_lt_mul (by decide)]
  rw [setPageRowFree, if_pos hlt, Nat.div_div_eq_div_mul, Nat.mul_comm pageSize 64, pageRowSize]

section
variable {b s st : ℕ}
/-- The turn that frees the row at `p`. -/
lemma bulkLoop_row (m : Pmm) (f : ℕ) {p : ℕ} (hst : st ≤ pageLimit * pageSize)
    (hsz : b + s = st) (hb : b ≤ p) (hp : p % pageRowSize = 0)
    (h : p + pageRowSize < st) : bulkLoop b s st (f + 1) p m =
      bulkLoop b s st f (p + pageRowSize) (m.markRowFree (p / pageRowSize)) := by
  have hlt : p < st := by omega
  have hr : p % pageRowSize = 0 ∧ s - (p - b) > pageRowSize := ⟨hp, by omega⟩
  have hl : p + (pageRowSize - pageSize) < pageLimit * pageSize := by
    simp only [pageRowSize, pageSize] at *
    omega
  have hne : p + (pageRowSize - pageSize) + pageSize = p + pageRowSize := by
    simp only [pageRowSize, pageSize]
  -- the last page of the row is free already
  have hf : (m.markRowFree (p / pageRowSize)).used ((p + (pageRowSize - pageSize)) / pageSize)
      = false := by
    have hrow : (p + (pageRowSize - pageSize)) / pageSize / 64 = p / pageRowSize := by
      simp only [pageRowSize, pageSize] at *
      omega
    rw [used_markRowFree, hrow]
    simp
  rw [bulkLoop, if_pos hlt]
  simp only [if_pos hr, setPageRowFree_of_lt m (hlt.trans_le hst), bind_eq_bind,
    bind_some, setPageFree_of_lt _ hl, markFree_of_free hf, hne]

/-- The turn that frees the page at `p`. -/
lemma bulkLoop_page (m : Pmm) (f : ℕ) {p : ℕ} (hst : st ≤ pageLimit * pageSize)
    (hsz : b + s = st) (hb : b ≤ p) (hlt : p < st)
    (h : ¬ (p % pageRowSize = 0 ∧ p + pageRowSize < st)) : bulkLoop b s st (f + 1) p m =
      bulkLoop b s st f (p + pageSize) (m.markFree (p / pageSize)) := by
  have hr : ¬ (p % pageRowSize = 0 ∧ s - (p - b) > pageRowSize) := by
    rintro ⟨h1, h2⟩
    exact h ⟨h1, by omega⟩
  rw [bulkLoop, if_pos hlt]
  simp only [if_neg hr, setPageFree_of_lt m (hlt.trans_le hst), bind_eq_bind, bind_some]

/-- The loop clears the bits of `[p, stop)`, and each whole row moves the count away
from the truth by its excess. -/
lemma bulkLoop_spec (hsz : b + s = st) (hst : st ≤ pageLimit * pageSize)
    (ha : st % pageSize = 0) (f : ℕ) (m : Pmm) (p : ℕ) (hb : b ≤ p)
    (hp : p % pageSize = 0) (hf : st ≤ p + f * pageSize) :
    ∃ m', bulkLoop b s st f p m = some m' ∧ Clears m m' p st ∧
      m'.drift = m.drift + ∑ i ∈ wholeRows p st, rowExcess (m.pageBitmap i) := by
  have hdo : ∀ m : Pmm, ∀ p, st ≤ p → Clears m m p st ∧
      m.drift = m.drift + ∑ i ∈ wholeRows p st, rowExcess (m.pageBitmap i) := by
    intro m p hle
    constructor
    · intro page
      have : ¬ (p ≤ page * pageSize ∧ page * pageSize < st) := by omega
      simp [this]
    have : wholeRows p st = ∅ := by
      ext i
      rw [mem_wholeRows hst]
      simp only [pageRowSize, pageSize, notMem_empty, iff_false] at *
      omega
    rw [this, sum_empty, add_zero]
  induction f generalizing m p with
  | zero => exact ⟨m, rfl, hdo m p (by omega)⟩
  | succ f ih =>
    by_cases hlt : p < st
    · by_cases hr : p % pageRowSize = 0 ∧ p + pageRowSize < st
      · obtain ⟨hp0, hpr⟩ := hr
        obtain ⟨i, hi⟩ := @exists_eq _ (p / pageRowSize)
        have hilt : i < pageBitmapSize := by
          simp only [pageRowSize, pageSize, pageLimit] at *
          omega
        have hnot : i ∉ wholeRows (p + pageRowSize) st := by
          rw [mem_wholeRows hst]
          simp only [pageRowSize, pageSize] at *
          omega
        rw [bulkLoop_row m f hst hsz hb hp0 hpr, ← hi]
        obtain ⟨m', hm', hc, hdr⟩ := ih (m.markRowFree i) (p + pageRowSize) (by omega)
          (by simp only [pageRowSize, pageSize] at *; omega)
          (by simp only [pageRowSize, pageSize] at *; omega)
        refine ⟨m', hm', fun page => ?_, ?_⟩
        · rw [hc page, used_markRowFree, Bool.and_assoc]
          rw [Bool.eq_iff_iff]
          simp only [Bool.and_eq_true, decide_eq_true_eq, Bool.not_eq_true',
            decide_eq_false_iff_not]
          refine and_congr_right fun _ => ?_
          simp only [pageRowSize, pageSize] at *
          omega
        · have hsum : ∑ j ∈ wholeRows (p + pageRowSize) st,
              rowExcess ((m.markRowFree i).pageBitmap j) =
              ∑ j ∈ wholeRows (p + pageRowSize) st, rowExcess (m.pageBitmap j) := by
            refine sum_congr rfl fun j hj => ?_
            have hne : j ≠ i := fun he => hnot (he ▸ hj)
            rw [pageBitmap_markRowFree, Function.update_of_ne hne]
          rw [hdr, hsum, drift_markRowFree m hilt, wholeRows_row hst hp0 hpr, ← hi,
            sum_insert hnot, add_assoc]
      · obtain ⟨k, hk⟩ := @exists_eq _ (p / pageSize)
        have hklt : k < pageLimit := by
          simp only [pageSize] at *
          omega
        rw [bulkLoop_page m f hst hsz hb hlt hr, ← hk]
        obtain ⟨m', hm', hc, hdr⟩ := ih (m.markFree k) (p + pageSize) (by omega)
          (by simp only [pageSize] at *; omega) (by simp only [pageSize] at *; omega)
        refine ⟨m', hm', fun page => ?_, ?_⟩
        · rw [hc page, used_markFree, Bool.and_assoc]
          rw [Bool.eq_iff_iff]
          simp only [Bool.and_eq_true, decide_eq_true_eq, Bool.not_eq_true',
            decide_eq_false_iff_not]
          refine and_congr_right fun _ => ?_
          simp only [pageSize] at *
          omega
        · have hsum : ∑ j ∈ wholeRows (p + pageSize) st,
              rowExcess ((m.markFree k).pageBitmap j) =
              ∑ j ∈ wholeRows (p + pageSize) st, rowExcess (m.pageBitmap j) := by
            refine sum_congr rfl fun j hj => ?_
            rw [mem_wholeRows hst] at hj
            rw [pageBitmap_markFree m]
            simp only [pageRowSize, pageSize] at *
            omega
          rw [hdr, hsum, drift_markFree m hklt, wholeRows_page hst hp hr]
    rw [bulkLoop, if_neg hlt]
    exact ⟨m, rfl, hdo m p (by omega)⟩
end

/-- `bulk_page_bitmap_as_free` on a page aligned range inside the bitmap. -/
theorem bulkFree_spec (bs sz : UInt64) (hb : bs.toNat % pageSize = 0)
    (hsz : sz.toNat % pageSize = 0) (hin : bs.toNat + sz.toNat ≤ pageLimit * pageSize) :
    ∃ m', m.bulkPageBitmapAsFree bs sz = some m' ∧ Clears m m' bs.toNat (bs.toNat + sz.toNat) ∧
      m'.drift = m.drift + ∑ i ∈ wholeRows bs.toNat (bs.toNat + sz.toNat),
        rowExcess (m.pageBitmap i) := by
  obtain ⟨stop, hst⟩ := @exists_eq _ (bs.toNat + sz.toNat)
  have hmod : (bs.toNat + sz.toNat) % 2 ^ 64 = stop := by
    rw [pageLimit_eq] at hin
    simp only [pageSize] at hin
    omega
  have ha : stop % pageSize = 0 := by
    simp only [pageSize] at *
    omega
  have hf : stop ≤ bs.toNat + sz.toNat / pageSize * pageSize := by
    simp only [pageSize] at *
    omega
  obtain ⟨m', hm', hc, hdr⟩ := bulkLoop_spec hst.symm (hst ▸ hin) ha
    (sz.toNat / pageSize) { m with totalUsablePages := m.totalUsablePages + sz.toNat / pageSize }
    bs.toNat le_rfl hb hf
  rw [bulkPageBitmapAsFree, hmod, ← hst]
  split_ifs with hz hal
  · -- an empty range: the loop of the specification makes no turn
    have hze : sz.toNat = 0 := by rw [hz]; rfl
    have he : wholeRows bs.toNat stop = ∅ := by
      ext i
      rw [mem_wholeRows (hst ▸ hin)]
      simp only [pageRowSize, pageSize, notMem_empty, iff_false]
      omega
    refine ⟨m, rfl, fun page => ?_, by rw [he, sum_empty, add_zero]⟩
    have : ¬ (bs.toNat ≤ page * pageSize ∧ page * pageSize < stop) := by omega
    simp [this]
  · exact ⟨m', hm', hc, hdr⟩
  · exact absurd ⟨hb, hsz⟩ hal

/-- The errors of the rows that a range frees whole cancel. For each row the call
adds `64 - used` if `0 < used < 64` and nothing otherwise, where it clears `used`
bits. -/
def RowsCancel (base stop : ℕ) : Prop := ∑ i ∈ wholeRows base stop, rowExcess (m.pageBitmap i) = 0

theorem bulkFree_truthful_iff {m m' : Pmm} (hm : m.Truthful) {bs sz : UInt64}
    (hb : bs.toNat % pageSize = 0) (hsz : sz.toNat % pageSize = 0)
    (hin : bs.toNat + sz.toNat ≤ pageLimit * pageSize)
    (hr : m.bulkPageBitmapAsFree bs sz = some m') :
    m'.Truthful ↔ m.RowsCancel bs.toNat (bs.toNat + sz.toNat) := by
  obtain ⟨m'', hr', -, hdr⟩ := m.bulkFree_spec bs sz hb hsz hin
  cases hr.symm.trans hr'
  rw [truthful_iff_drift, hdr, m.truthful_iff_drift.1 hm, zero_add]
  rfl

/-! ## The memory map -/

/-- The range goes past the last page of the bitmap. One that ends at `2 ^ 64` or after
does not count: `base + size` wraps, and the loop makes no turn. -/
def PastBitmap (base size : UInt64) : Prop :=
  base.toNat % pageSize = 0 ∧ size.toNat % pageSize = 0 ∧ 0 < size.toNat ∧
    pageLimit * pageSize < base.toNat + size.toNat ∧ base.toNat + size.toNat < 2 ^ 64

/-- The last page of the range is freed alone, so the loop gets to it or fails before. -/
lemma bulkLoop_eq_none {bs sz sp : ℕ} (hsz : bs + sz = sp)
    (hst : pageLimit * pageSize < sp) (ha : sp % pageSize = 0) (f : ℕ) (m : Pmm)
    (p : ℕ) (hb : bs ≤ p) (hp : p % pageSize = 0) (hlt : p < sp)
    (hf : sp ≤ p + f * pageSize) : bulkLoop bs sz sp f p m = none := by
  induction f generalizing m p with
  | zero => omega
  | succ f ih =>
    rw [bulkLoop, if_pos hlt]
    by_cases hr : p % pageRowSize = 0 ∧ sz - (p - bs) > pageRowSize
    · simp only [if_pos hr, bind_eq_bind, bind_eq_none_iff]
      intro m1 _ m2 _
      simp only [pageRowSize, pageSize] at *
      exact ih m2 _ (by omega) (by omega) (by omega) (by omega)
    simp only [if_neg hr, bind_eq_bind, bind_eq_none_iff]
    intro m1 h1
    rw [setPageFree] at h1
    split_ifs at h1 with hin
    simp only [pageSize] at *
    exact ih m1 _ (by omega) (by omega) (by omega) (by omega)

lemma bulkPageBitmapAsFree_eq_none_iff (bs sz : UInt64) :
    m.bulkPageBitmapAsFree bs sz = none ↔ PastBitmap bs sz := by
  by_cases ha : bs.toNat % pageSize = 0 ∧ sz.toNat % pageSize = 0
  · by_cases hin : bs.toNat + sz.toNat ≤ pageLimit * pageSize
    · obtain ⟨m', hr, -⟩ := m.bulkFree_spec bs sz ha.1 ha.2 hin
      rw [hr]
      exact iff_of_false nofun fun h => absurd h.2.2.2.1 (by omega)
    · rw [bulkPageBitmapAsFree, if_pos ha]
      split_ifs with hz
      · exact iff_of_false nofun fun h => absurd h.2.2.1 (by rw [hz]; decide)
      have hpos : 0 < sz.toNat := Nat.pos_of_ne_zero fun h => hz (UInt64.toNat_inj.1 h)
      by_cases hwr : bs.toNat + sz.toNat < 2 ^ 64
      · refine iff_of_true ?_ ⟨ha.1, ha.2, hpos, by omega, hwr⟩
        rw [Nat.mod_eq_of_lt hwr]
        refine bulkLoop_eq_none rfl (by omega) ?_ _ _ _ le_rfl ha.1 (by omega) ?_
        · simp [Nat.add_mod, ha]
        · rw [Nat.div_mul_cancel (Nat.dvd_of_mod_eq_zero ha.2)]
      · refine iff_of_false ?_ fun h => hwr h.2.2.2.2
        have hst : ¬ bs.toNat < (bs.toNat + sz.toNat) % 2 ^ 64 := by
          have := sz.toNat_lt
          omega
        cases sz.toNat / pageSize with
        | zero => nofun
        | succ f =>
          rw [bulkLoop, if_neg hst]
          nofun
  refine iff_of_false ?_ fun h => ha ⟨h.1, h.2.1⟩
  rw [bulkPageBitmapAsFree, if_neg ha]
  split_ifs <;> nofun

/-- `list_memory_areas` stays in the bitmap exactly when no usable range of the map goes
past its last page, which is the one below 16 GiB. -/
theorem listMemoryAreas_isSome_iff (m : Pmm) (entries : List MemmapEntry) :
    (m.listMemoryAreas entries).isSome ↔
      ∀ e ∈ entries, e.type = .usable → ¬ PastBitmap e.base e.length := by
  induction entries generalizing m with
  | nil => simp [listMemoryAreas]
  | cons e r ih =>
    rw [listMemoryAreas, List.foldlM_cons, List.forall_mem_cons]
    cases ht : e.type with
    | usable =>
      rw [← m.bulkPageBitmapAsFree_eq_none_iff]
      cases m.bulkPageBitmapAsFree e.base e.length with
      | none => simp
      | some m' => simpa [listMemoryAreas] using ih m'
    | framebuffer => simpa [listMemoryAreas] using ih m
    | other => simpa [listMemoryAreas] using ih m

/-- One usable page at 16 GiB. -/
theorem listMemoryAreas_above_bitmap :
    pageBitmapInitialize.listMemoryAreas [⟨0x400000000, 0x1000, .usable⟩] = none := by
  rfl

/-! ## Runs -/

/-- The call stays in the bitmap, and a range it frees in bulk is page aligned and has
no whole rows whose errors remain. -/
def SafeCall : Call → Prop
  | .bulkPageBitmapAsFree base size =>
    base.toNat % pageSize = 0 ∧ size.toNat % pageSize = 0 ∧
      base.toNat + size.toNat ≤ pageLimit * pageSize ∧
      m.RowsCancel base.toNat (base.toNat + size.toNat)
  | .pmmAllocPages _ => True
  | .pmmAllocAlignedPages _ _ _ => True
  | .setPageUsed physicalAddress => physicalAddress.toNat / pageSize < pageLimit
  | .pmmFreePages baseAddress pageCount =>
    ∀ i, i < pageCount.toNat →
      (baseAddress.toNat + i * pageSize) % 2 ^ 64 / pageSize < pageLimit

/-- What a call must do beside keeping the count: a range freed in bulk has exactly its
bits cleared. -/
def Exact (m m' : Pmm) : Call → Prop
  | .bulkPageBitmapAsFree base size => Clears m m' base.toNat (base.toNat + size.toNat)
  | _ => True

lemma Truthful.alloc {m : Pmm} (hm : m.Truthful) (p a mp : UInt64) :
    ∃ addr m', m.pmmAllocInternal p a mp = some (addr, m') ∧ m'.Truthful := by
  by_cases hz : p = 0
  · exact ⟨0, m, by rw [pmmAllocInternal, if_pos hz], hm⟩
  have hcount : 0 < p.toNat := by
    refine Nat.pos_of_ne_zero fun h => hz ?_
    exact UInt64.toNat_inj.1 h
  obtain ⟨place, he, -, -, hr⟩ | ⟨-, hr⟩ := pmmAllocInternal_cases m a mp hcount
  · obtain ⟨m', hm', -, ht⟩ := m.setPagesUsed_spec he Truthful hm fun m page hp ht => ht.markUsed hp
    exact ⟨place * pageSize, m', by rw [hr, hm']; rfl, ht⟩
  · exact ⟨0, m, hr, hm⟩

lemma Truthful.freePages {m : Pmm} (hm : m.Truthful) {ba p : ℕ}
    (h : ∀ i, i < p → (ba + i * pageSize) % 2 ^ 64 / pageSize < pageLimit) :
    ∃ m', m.pmmFreePages ba p = some m' ∧ m'.Truthful := by
  refine foldlM_range_some (fun _ => Truthful) p hm ?_
  intro i m hi hm
  refine ⟨_, by rw [setPageFree, if_pos (h i hi)], ?_⟩
  rw [truthful_iff_drift, drift_markFree m (h i hi)]
  exact m.truthful_iff_drift.1 hm

lemma Truthful.call {m : Pmm} (hm : m.Truthful) {c : Call} (hc : m.SafeCall c) :
    ∃ m', m.call c = some m' ∧ Exact m m' c ∧ m'.Truthful := by
  cases c with
  | bulkPageBitmapAsFree base size =>
    obtain ⟨hb, hsz, hin, hca⟩ := hc
    obtain ⟨m', hr, hcl, -⟩ := m.bulkFree_spec base size hb hsz hin
    exact ⟨m', hr, hcl, (bulkFree_truthful_iff hm hb hsz hin hr).2 hca⟩
  | pmmAllocPages pageCount =>
    obtain ⟨addr, m', hr, ht⟩ := hm.alloc pageCount pageSize.toUInt64 (2 ^ 64 - 1)
    refine ⟨m', ?_, trivial, ht⟩
    simp only [Pmm.call, pmmAllocPages, hr, map_some]
  | pmmAllocAlignedPages pageCount a maxPhysAddr =>
    obtain ⟨addr, m', hr, ht⟩ := hm.alloc pageCount a maxPhysAddr
    refine ⟨m', ?_, trivial, ht⟩
    simp only [Pmm.call, pmmAllocAlignedPages, hr, map_some]
  | setPageUsed p =>
    have hlt : p.toNat / pageSize < pageLimit := hc
    refine ⟨_, ?_, trivial, hm.markUsed hlt⟩
    simp only [Pmm.call]
    rw [Pmm.setPageUsed, if_pos hlt]
  | pmmFreePages ba pageCount =>
    obtain ⟨m', hr, ht⟩ := hm.freePages hc
    exact ⟨m', hr, trivial, ht⟩

/-- The states that safe calls lead to after `pmm_page_bitmap_initialize`. -/
inductive Reached : Pmm → Prop
  | init : Reached pageBitmapInitialize
  | call {m m' : Pmm} {c : Call} (h : Reached m) (hc : m.SafeCall c) (hrun : m.call c = some m') :
      Reached m'

lemma truthful_pageBitmapInitialize : pageBitmapInitialize.Truthful := by
  have he : pageBitmapInitialize.clearPages = ∅ := by
    ext page
    simp [mem_clearPages, Free, used_pageBitmapInitialize]
  rw [Truthful, he]
  rfl

lemma Reached.truthful {m : Pmm} (h : Reached m) : m.Truthful := by
  induction h with
  | init => exact truthful_pageBitmapInitialize
  | call _ hc hr ih =>
    obtain ⟨m'', hr', -, ht⟩ := ih.call hc
    cases hr.symm.trans hr'
    exact ht

/-- In every run of safe calls the count is the number of clear bits in every state,
every call has a result, and a range freed in bulk has exactly its bits cleared. -/
theorem count_truthful_of_safe {m : Pmm} (h : Reached m) :
    m.Truthful ∧ ∀ c, m.SafeCall c → ∃ m', m.call c = some m' ∧ Exact m m' c ∧ m'.Truthful :=
  ⟨h.truthful, fun _ hc => h.truthful.call hc⟩

lemma wholeRows_eq_empty {p sp : ℕ} (h : sp ≤ pageLimit * pageSize)
    (hst : sp ≤ pageRowSize) : wholeRows p sp = ∅ := by
  ext i
  rw [mem_wholeRows h]
  simp only [pageRowSize, pageSize, notMem_empty, iff_false] at *
  omega

/-- Pages 1 and 2 are freed, and a page is allocated. -/
theorem count_truthful_of_safe_two_pages :
    ∃ m, pageBitmapInitialize.call (.bulkPageBitmapAsFree 0x1000 0x2000) = some m ∧
      m.Truthful ∧ ∃ m', m.call (.pmmAllocPages 1) = some m' ∧ m'.Truthful := by
  have hin : 0x1000 + 0x2000 ≤ pageLimit * pageSize := by
    rw [pageLimit_eq]
    decide
  have hsa : pageBitmapInitialize.SafeCall (.bulkPageBitmapAsFree 0x1000 0x2000) := by
    refine ⟨by decide, by decide, hin, ?_⟩
    show ∑ i ∈ wholeRows 0x1000 (0x1000 + 0x2000), _ = _
    rw [wholeRows_eq_empty hin (by decide), sum_empty]
  obtain ⟨-, hc⟩ := count_truthful_of_safe Reached.init
  obtain ⟨m, hr, -, ht⟩ := hc _ hsa
  obtain ⟨m', hr', -, ht'⟩ :=
    (count_truthful_of_safe (Reached.call Reached.init hsa hr)).2 (.pmmAllocPages 1) trivial
  exact ⟨m, hr, ht, m', hr', ht'⟩

lemma popcountll_pageBitmapFull : popcountll pageBitmapFull = 64 := by decide

/-- The first 65 pages are freed after the start: the whole row among them adds
nothing to the count. -/
theorem bulkFree_count_short :
    ∃ m, pageBitmapInitialize.call (.bulkPageBitmapAsFree 0 0x41000) = some m ∧
      m.drift = -64 ∧ ¬ m.Truthful := by
  have hin : 0x41000 ≤ pageLimit * pageSize := by
    rw [pageLimit_eq]
    decide
  have hro : wholeRows 0 0x41000 = {0} := by
    ext i
    rw [mem_wholeRows hin, mem_singleton]
    simp only [pageRowSize, pageSize]
    omega
  have he : rowExcess pageBitmapFull = -64 := by
    rw [rowExcess, popcountll_pageBitmapFull]
    rfl
  obtain ⟨m, hr, -, hdr⟩ := pageBitmapInitialize.bulkFree_spec 0 0x41000 (by decide) (by decide) hin
  have hsum : m.drift = pageBitmapInitialize.drift +
      ∑ i ∈ wholeRows 0 0x41000, rowExcess (pageBitmapInitialize.pageBitmap i) := hdr
  rw [hro, sum_singleton, (truthful_iff_drift _).1 truthful_pageBitmapInitialize, zero_add] at hsum
  have hsh : m.drift = -64 := hsum.trans he
  refine ⟨m, hr, hsh, ?_⟩
  rw [truthful_iff_drift, hsh]
  decide
end Pmm
end Menios.Mem
