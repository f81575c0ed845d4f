import Mathlib

/-!
# The page bitmap

Model of the bitmap part of `src/kernel/mem/pmm.c`: one bit for each page of
physical memory, set when the page is used, and the number of free pages kept
beside it.

`page_bitmap` has room for `PAGE_BITMAP_SIZE` rows of 64 pages. `set_page_used`,
`set_page_free` and `set_page_row_free` compute a row from an address and do not
compare it with that size; an access outside the array has no result here
(`none`).

Results:
* `used_markUsed`, `used_markFree`: one bit changes and the others stay.
-/

namespace Menios.Mem
/-- `PAGE_SIZE` (include/kernel/pmm.h, line 14). -/
def pageSize : ℕ := 0x1000

lemma mul_pageSize_div (pg : ℕ) : pg * pageSize / pageSize = pg := Nat.mul_div_cancel _ (by decide)

/-- `PAGE_BITMAP_SIZE` (line 7): the rows of the bitmap. -/
def pageBitmapSize : ℕ := 0x10000

/-- `PAGE_ROW_SIZE` (line 15): the bytes of memory a row stands for. -/
def pageRowSize : ℕ := 64 * pageSize

/-- The pages the bitmap has a bit for. -/
def pageLimit : ℕ := 64 * pageBitmapSize

lemma pageLimit_eq : pageLimit = 4194304 := by decide

/-- `PAGE_BITMAP_FULL` (line 9). -/
def pageBitmapFull : BitVec 64 := 0xffffffffffffffff#64

/-- `PAGE_FREE` (line 11), as a row. -/
def pageFree : BitVec 64 := 0#64

/-- The static variables of `pmm.c` (lines 14-19) that the page allocator
changes. Only the rows below `pageBitmapSize` exist. -/
structure Pmm where
  pageBitmap : ℕ → BitVec 64
  freePageCount : ℕ
  totalUsablePages : ℕ

/-- `1UL << bit_position`. -/
def mask (bit : ℕ) : BitVec 64 := 1#64 <<< bit

/-- `__builtin_popcountll`. -/
def popcountll (row : BitVec 64) : ℕ := ((Finset.range 64).filter fun bit => row.getLsbD bit).card

namespace Pmm
variable (m : Pmm)
/-- `page_bitmap[index] = row`. -/
def setRow (index : ℕ) (row : BitVec 64) : Pmm :=
  { m with pageBitmap := Function.update m.pageBitmap index row }

/-- The body of `set_page_free` for a page the bitmap has. -/
def markFree (page : ℕ) : Pmm :=
  if m.pageBitmap (page / 64) &&& mask (page % 64) ≠ 0#64 then
    { m.setRow (page / 64) (m.pageBitmap (page / 64) &&& ~~~mask (page % 64)) with
      freePageCount := m.freePageCount + 1 }
  else m

/-- `set_page_free` (lines 131-140). -/
def setPageFree (physicalAddress : ℕ) : Option Pmm :=
  if physicalAddress / pageSize < pageLimit then some (m.markFree (physicalAddress / pageSize))
  else none

/-- The body of `set_page_used` for a page the bitmap has. -/
def markUsed (page : ℕ) : Pmm :=
  if m.pageBitmap (page / 64) &&& mask (page % 64) = 0#64 then
    { m.setRow (page / 64) (m.pageBitmap (page / 64) ||| mask (page % 64)) with
      freePageCount := m.freePageCount - 1 }
  else m

/-- `set_page_used` (lines 581-592). The count stays at 0 when it is 0. -/
def setPageUsed (physicalAddress : ℕ) : Option Pmm :=
  if physicalAddress / pageSize < pageLimit then some (m.markUsed (physicalAddress / pageSize))
  else none

/-- The body of `set_page_row_free` for a row the bitmap has. -/
def markRowFree (index : ℕ) : Pmm :=
  let previous := m.pageBitmap index
  if previous ≠ pageFree then
    let used := popcountll previous
    { m.setRow index pageFree with
      freePageCount := if used < 64 then m.freePageCount + (64 - used) else m.freePageCount }
  else m

/-- `set_page_row_free` (lines 594-605). -/
def setPageRowFree (physicalAddress : ℕ) : Option Pmm :=
  if physicalAddress / pageSize < pageLimit then
    some (m.markRowFree (physicalAddress / pageSize / 64))
  else none

/-- The bitmap after `pmm_page_bitmap_initialize` (lines 807-810): every row is
full. -/
def pageBitmapInitialize : Pmm where
  pageBitmap _ := pageBitmapFull
  freePageCount := 0
  totalUsablePages := 0

/-! ## Pages -/

/-- Page `page` is marked used. -/
def used (page : ℕ) : Bool := (m.pageBitmap (page / 64)).getLsbD (page % 64)

/-- The bitmap has a bit for page `page`, and the bit is clear. -/
def Free (page : ℕ) : Prop := page < pageLimit ∧ m.used page = false

instance (m : Pmm) (page : ℕ) : Decidable (m.Free page) := inferInstanceAs (Decidable (_ ∧ _))
end Pmm

lemma getLsbD_mask {b i : ℕ} (h : i < 64) : (mask b).getLsbD i = decide (i = b) := by
  simp only [mask, BitVec.getLsbD_shiftLeft, BitVec.getLsbD_one]
  by_cases hi : i < b
  · simp [hi, hi.ne]
  have hsub : i - b = 0 ↔ i = b := by omega
  simp [h, hi, hsub]

lemma and_mask_eq_zero_iff (ro : BitVec 64) {b : ℕ} (h : b < 64) :
    ro &&& mask b = 0#64 ↔ ro.getLsbD b = false := by
  constructor
  · intro hz
    have := congrArg (fun r => BitVec.getLsbD r b) hz
    simpa [getLsbD_mask h] using this
  intro hb
  apply BitVec.eq_of_getLsbD_eq
  intro i hi
  rw [BitVec.getLsbD_and, getLsbD_mask hi]
  by_cases hib : i = b
  · simp [hib, hb]
  · simp [hib]

namespace Pmm
variable {m : Pmm} {p : ℕ}
lemma and_mask_eq_zero : m.pageBitmap (p / 64) &&& mask (p % 64) = 0#64 ↔ m.used p = false :=
  and_mask_eq_zero_iff _ (Nat.mod_lt _ (by decide))

lemma markFree_of_used (h : m.used p = true) : m.markFree p =
      { m.setRow (p / 64) (m.pageBitmap (p / 64) &&& ~~~mask (p % 64)) with
        freePageCount := m.freePageCount + 1 } := by
  rw [markFree, if_pos (by simp [and_mask_eq_zero, h])]

lemma markFree_of_free (h : m.used p = false) : m.markFree p = m := by
  rw [markFree, if_neg (not_not.2 (and_mask_eq_zero.2 h))]

lemma markUsed_of_free (h : m.used p = false) : m.markUsed p =
      { m.setRow (p / 64) (m.pageBitmap (p / 64) ||| mask (p % 64)) with
        freePageCount := m.freePageCount - 1 } := by
  rw [markUsed, if_pos (and_mask_eq_zero.2 h)]

lemma markUsed_of_used (h : m.used p = true) : m.markUsed p = m := by
  rw [markUsed, if_neg (by simp [and_mask_eq_zero, h])]

/-- A row is written that differs from the one before in the bit of page `p` only. -/
lemma used_setRow {row : BitVec 64} {b : Bool} (hrow : ∀ i < 64, row.getLsbD i =
      if i = p % 64 then b else (m.pageBitmap (p / 64)).getLsbD i) (other : ℕ) :
    (m.setRow (p / 64) row).used other = if other = p then b else m.used other := by
  have hpage : other = p ↔ other / 64 = p / 64 ∧ other % 64 = p % 64 := by omega
  simp only [used, setRow, Function.update_apply, hpage]
  by_cases hr : other / 64 = p / 64
  · simp [hr, hrow _ (Nat.mod_lt other (by decide))]
  · simp [hr]

@[simp]
theorem used_markFree (m : Pmm) (p other : ℕ) :
    (m.markFree p).used other = (m.used other && decide (other ≠ p)) := by
  by_cases ho : other = p <;> cases h : m.used p with
  | false => simp [markFree_of_free h, ho, h]
  | true =>
    rw [markFree_of_used h]
    refine (used_setRow (b := false) (fun i hi => ?_) other).trans (by simp [ho])
    rw [BitVec.getLsbD_and, BitVec.getLsbD_not, getLsbD_mask hi]
    by_cases hip : i = p % 64 <;> simp [hi, hip]

@[simp]
theorem used_markUsed (m : Pmm) (p other : ℕ) :
    (m.markUsed p).used other = (m.used other || decide (other = p)) := by
  by_cases ho : other = p <;> cases h : m.used p with
  | true => simp [markUsed_of_used h, ho, h]
  | false =>
    rw [markUsed_of_free h]
    refine (used_setRow (b := true) (fun i hi => ?_) other).trans (by simp [ho])
    rw [BitVec.getLsbD_or, getLsbD_mask hi]
    by_cases hip : i = p % 64 <;> simp [hip]
end Pmm
end Menios.Mem
