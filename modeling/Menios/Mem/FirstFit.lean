import Menios.Common.Loop
import Menios.Mem.PageBitmap

/-!
# `pmm_alloc_internal` is first fit

`pmm_alloc_internal` (`src/kernel/mem/pmm.c`, lines 607-679) walks over the bitmap
once. It keeps the run of free pages that ends at the page it looks at, skips rows
that are full, and takes the first aligned place of the run as soon as the run
reaches past it.

**Defect.** The alignment is rounded up to pages in `size_t`, by
`(alignment + PAGE_SIZE - 1) / PAGE_SIZE`. The sum wraps for an alignment above
`2^64 - PAGE_SIZE`. Then the quotient is 0, the guard after it makes it 1, and the
function returns pages that are only page aligned.

Results:
* `scan_outcome`: the walk stops at the lowest place that fits, and goes to the
  end of the bitmap only when no place fits.
* `pmmAllocInternal_cases`: the function, for the alignment it really uses.
* `pmmAllocInternal_firstFit_iff`: it is first fit for the alignment it was asked
  for, unless the rounding wraps and some run of free pages is found.
-/

namespace Menios.Mem
open Common Nat

/-! ## Model -/

/-- The arguments of `pmm_alloc_internal` after the rounding of the alignment. -/
structure Request where
  pageCount : ℕ
  alignmentPages : ℕ
  maxPhysAddr : ℕ

/-- `run_start` and `run_length` (lines 623-624). -/
structure FreeRun where
  start : ℕ
  length : ℕ

/-- `alignment_pages` (lines 614-621). `alignment` is a `size_t`. -/
def alignmentPages (alignment : UInt64) : ℕ :=
  let alignment := if alignment.toNat < pageSize then pageSize else alignment.toNat
  let pages := (alignment + pageSize - 1) % 2 ^ 64 / pageSize
  if pages = 0 then 1 else pages

/-- The request that `pmm_alloc_internal` looks for. -/
def request (pageCount alignment maxPhysAddr : UInt64) : Request :=
  ⟨pageCount.toNat, alignmentPages alignment, maxPhysAddr.toNat⟩

/-- The place in the run that ends before `runEnd` (lines 645-655); `none` is the
`continue` of line 653. -/
def candidate (req : Request) (run : FreeRun) (runEnd : ℕ) : Option ℕ :=
  if req.alignmentPages > 1 then
    let aligned := (run.start + req.alignmentPages - 1) / req.alignmentPages * req.alignmentPages
    if aligned + req.pageCount ≤ runEnd then some aligned else none
  else some run.start

/-- The run with the free page `pageNumber` added to it (lines 638-642). -/
def FreeRun.extend (run : FreeRun) (pageNumber : ℕ) : FreeRun :=
  { start := if run.length = 0 then pageNumber else run.start, length := run.length + 1 }

/-- The test of a run that is long enough (lines 645-670). It leaves the function
with the address of the pages found, or with `none` where line 660 returns 0. -/
def tryRun (req : Request) (run : FreeRun) (runEnd : ℕ) : Except (Option ℕ) FreeRun :=
  match candidate req run runEnd with
  | none => .ok run
  | some candidate =>
    let base := candidate * pageSize
    let span := req.pageCount * pageSize % 2 ^ 64
    if span = 0 then .error none
    else if base > req.maxPhysAddr ∨ span - 1 > req.maxPhysAddr - base then .ok run
    else .error (some base)

/-- The body of the loop over the bits of a row (lines 634-675). -/
def scanBit (req : Request) (row : BitVec 64) (index : ℕ) (run : FreeRun) (bit : ℕ) :
    Except (Option ℕ) FreeRun :=
  let pageNumber := index * 64 + bit
  if row &&& mask bit = 0#64 then
    let run := run.extend pageNumber
    if run.length ≥ req.pageCount then tryRun req run (pageNumber + 1) else .ok run
  else .ok { run with length := 0 }

/-- The body of the loop over the rows (lines 626-676). -/
def scanRow (m : Pmm) (req : Request) (run : FreeRun) (index : ℕ) : Except (Option ℕ) FreeRun :=
  if m.pageBitmap index = pageBitmapFull then .ok { run with length := 0 }
  else (List.range 64).foldlM (scanBit req (m.pageBitmap index) index) run

/-- The walk over the whole bitmap. -/
def scan (m : Pmm) (req : Request) : Except (Option ℕ) FreeRun :=
  (List.range pageBitmapSize).foldlM (scanRow m req) { start := 0, length := 0 }

namespace Pmm
/-- The loop of lines 666-668. -/
def setPagesUsed (m : Pmm) (base pageCount : ℕ) : Option Pmm :=
  (List.range pageCount).foldlM (fun m page => m.setPageUsed (base + page * pageSize)) m

/-- `pmm_alloc_internal` (lines 607-679). -/
def pmmAllocInternal (m : Pmm) (pageCount alignment maxPhysAddr : UInt64) : Option (ℕ × Pmm) :=
  if pageCount = 0 then some (0, m)
  else
    match scan m (request pageCount alignment maxPhysAddr) with
    | .error (some base) => (m.setPagesUsed base pageCount.toNat).map (base, ·)
    | .error none => some (0, m)
    | .ok _ => some (0, m)

/-- `pmm_alloc_pages` (lines 681-683). -/
def pmmAllocPages (m : Pmm) (pageCount : UInt64) : Option (ℕ × Pmm) :=
  m.pmmAllocInternal pageCount pageSize.toUInt64 (2 ^ 64 - 1)

/-- `pmm_alloc_aligned_pages` (lines 685-689). -/
def pmmAllocAlignedPages (m : Pmm) (pageCount alignment maxPhysAddr : UInt64) : Option (ℕ × Pmm) :=
  m.pmmAllocInternal pageCount alignment maxPhysAddr
end Pmm

/-! ## Places that fit -/

/-- Pages `place …` are free, `place` has the alignment of the request, and the
last byte is not above its limit. -/
structure Fits (m : Pmm) (req : Request) (place : ℕ) : Prop where
  aligned : req.alignmentPages ∣ place
  free : ∀ page, place ≤ page → page < place + req.pageCount → m.used page = false
  below : (place + req.pageCount) * pageSize ≤ req.maxPhysAddr + 1

/-- The first multiple of `step` from `start` on. -/
def roundUp (start step : ℕ) : ℕ := (start + step - 1) / step * step

lemma le_roundUp {s st : ℕ} (h : 0 < st) : s ≤ roundUp s st := by
  have := div_add_mod (s + st - 1) st
  have := mod_lt (s + st - 1) h
  rw [roundUp, mul_comm]
  omega

lemma dvd_roundUp (st s : ℕ) : s ∣ roundUp st s := dvd_mul_left _ _

lemma roundUp_le {s step p : ℕ} (hst : 0 < step) (hdvd : step ∣ p)
    (h : s ≤ p) : roundUp s step ≤ p := by
  obtain ⟨k, rfl⟩ := hdvd
  rw [roundUp, Nat.mul_comm step k]
  refine Nat.mul_le_mul_right step ?_
  rw [← Nat.lt_succ_iff, Nat.div_lt_iff_lt_mul hst, succ_mul, Nat.mul_comm k step]
  omega

lemma roundUp_one (s : ℕ) : roundUp s 1 = s := by simp [roundUp]

/-- The state of the walk after the pages below `n`: the run is the longest run of
free pages that ends there, and nothing that ends there or earlier fits. -/
structure Scanned (m : Pmm) (req : Request) (n : ℕ) (run : FreeRun) : Prop where
  length_le : run.length ≤ n
  free : ∀ page, n - run.length ≤ page → page < n → m.used page = false
  used : run.length < n → m.used (n - run.length - 1) = true
  start : 0 < run.length → run.start = n - run.length
  nofit : ∀ place, place + req.pageCount ≤ n → ¬ Fits m req place

/-- The walk left the function with the lowest place that fits. -/
def Found (m : Pmm) (req : Request) (result : Option ℕ) : Prop :=
  ∃ place, result = some (place * pageSize) ∧ place + req.pageCount ≤ pageLimit ∧
    Fits m req place ∧ ∀ other, Fits m req other → place ≤ other

section
variable {m : Pmm} {r : Request} {n : ℕ} {run : FreeRun}
lemma candidate_eq (hpos : 0 < r.alignmentPages) (hl : r.pageCount ≤ run.length) :
    candidate r run (run.start + run.length) =
      if roundUp run.start r.alignmentPages + r.pageCount ≤ run.start + run.length then
        some (roundUp run.start r.alignmentPages) else none := by
  unfold candidate
  by_cases h : r.alignmentPages > 1
  · rw [if_pos h]
    rfl
  have hone : r.alignmentPages = 1 := by omega
  rw [if_neg h, hone, roundUp_one, if_pos (by omega)]

lemma Scanned.reset (hcount : 0 < r.pageCount) (h : Scanned m r n run)
    (hu : m.used n = true) : Scanned m r (n + 1) { run with length := 0 } where
  length_le := zero_le _
  free page h1 h2 := absurd h2 (by simpa using h1)
  used _ := by simpa using hu
  start hlt := absurd hlt (lt_irrefl 0)
  nofit place hle hf := by
    rcases lt_or_ge n (place + r.pageCount) with hlt | hge
    · have := hf.free n (by omega) hlt
      rw [hu] at this
      exact absurd this (by decide)
    · exact h.nofit place hge hf

section
variable (h : Scanned m r n run)
include h
lemma Scanned.extend_start : (run.extend n).start + (run.extend n).length = n + 1 := by
  have := h.length_le
  simp only [FreeRun.extend]
  split_ifs with hz
  · omega
  have := h.start (by omega)
  omega

/-- What fits and ends at page `n` starts in the run. -/
lemma Scanned.start_le {p : ℕ} (hf : Fits m r p)
    (he : p + r.pageCount = n + 1) : (run.extend n).start ≤ p := by
  have hsum := h.extend_start
  by_contra hlt
  have hl : (run.extend n).length = run.length + 1 := rfl
  have hu := h.used (by omega)
  have := hf.free (n - run.length - 1) (by omega) (by omega)
  rw [hu] at this
  exact absurd this (by decide)

lemma Scanned.extend (hfr : m.used n = false)
    (hno : ∀ place, place + r.pageCount = n + 1 → ¬ Fits m r place) :
    Scanned m r (n + 1) (run.extend n) where
  length_le := by
    have := h.length_le
    simp only [FreeRun.extend]
    omega
  free page h1 h2 := by
    simp only [FreeRun.extend] at h1
    rcases lt_or_ge page n with hlt | hge
    · exact h.free page (by omega) hlt
    rw [show page = n by omega]
    exact hfr
  used hlt := by
    simp only [FreeRun.extend] at hlt ⊢
    have := h.used (by omega)
    rwa [show n + 1 - (run.length + 1) - 1 = n - run.length - 1 by omega]
  start _ := by
    have := h.extend_start
    omega
  nofit place hle hf := by
    rcases lt_or_ge n (place + r.pageCount) with hlt | hge
    · exact hno place (by omega) hf
    · exact h.nofit place hge hf

lemma Scanned.fits_of_run (hf : m.used n = false) {p : ℕ}
    (ha : r.alignmentPages ∣ p) (hst : (run.extend n).start ≤ p) (he : p + r.pageCount ≤ n + 1)
    (hb : (p + r.pageCount) * pageSize ≤ r.maxPhysAddr + 1) : Fits m r p where
  aligned := ha
  free page h1 h2 := by
    have := h.extend_start
    have : (run.extend n).length = run.length + 1 := rfl
    rcases lt_or_ge page n with hlt | hge
    · exact h.free page (by omega) hlt
    rw [show page = n by omega]
    exact hf
  below := hb
end

variable (hcount : 0 < r.pageCount)
include hcount
variable (hpos : 0 < r.alignmentPages)
include hpos
lemma Scanned.tryRun (hn : n < pageLimit) (h : Scanned m r n run) (hfr : m.used n = false)
    (hlen : r.pageCount ≤ (run.extend n).length) :
    Outcome (Scanned m r (n + 1)) (Found m r) (tryRun r (run.extend n) (n + 1)) := by
  have hsum := h.extend_start
  -- the run is at most as long as the bitmap, so the span does not wrap
  have hsp : r.pageCount * pageSize % 2 ^ 64 = r.pageCount * pageSize := by
    apply mod_eq_of_lt
    rw [pageLimit_eq] at hn
    simp only [pageSize]
    omega
  have hc := candidate_eq hpos hlen
  rw [hsum] at hc
  obtain ⟨place, hp⟩ := @exists_eq _ (roundUp (run.extend n).start r.alignmentPages)
  rw [← hp] at hc
  have hst : (run.extend n).start ≤ place := hp ▸ le_roundUp hpos
  have hdvd : r.alignmentPages ∣ place := hp ▸ dvd_roundUp _ _
  have hls : ∀ other, Fits m r other → other + r.pageCount = n + 1 → place ≤ other :=
    fun other hf he => hp ▸ roundUp_le hpos hf.aligned (h.start_le hf he)
  unfold Mem.tryRun
  rw [hc, hsp]
  by_cases he : place + r.pageCount ≤ n + 1
  · have hne : r.pageCount * pageSize ≠ 0 := by
      simp only [pageSize]
      omega
    simp only [he, if_true, hne, if_false]
    split_ifs with hl
    · refine .ok (h.extend hfr fun other hot hf => ?_)
      have hb := hf.below
      simp only [pageSize] at hl hb
      omega
    · have hb : (place + r.pageCount) * pageSize ≤ r.maxPhysAddr + 1 := by
        simp only [pageSize] at hl ⊢
        omega
      refine .error ⟨place, rfl, by omega, h.fits_of_run hfr hdvd hst he hb, ?_⟩
      intro other hf
      by_contra hlt
      exact h.nofit other (by omega) hf
  simp only [he, if_false]
  refine .ok (h.extend hfr fun other hot hf => he ?_)
  have := hls other hf hot
  omega

lemma Scanned.bit {i b : ℕ} (hidx : i < pageBitmapSize) (hbit : b < 64)
    (h : Scanned m r (i * 64 + b) run) : Outcome (Scanned m r (i * 64 + b + 1)) (Found m r)
      (scanBit r (m.pageBitmap i) i run b) := by
  have hu : m.used (i * 64 + b) = (m.pageBitmap i).getLsbD b := by
    rw [Pmm.used, show (i * 64 + b) / 64 = i by omega,
      show (i * 64 + b) % 64 = b by omega]
  have hn : i * 64 + b < pageLimit := by
    rw [pageLimit]
    omega
  unfold scanBit
  generalize i * 64 + b = n at *
  by_cases hz : m.pageBitmap i &&& mask b = 0#64
  · have hf : m.used n = false := by
      rw [hu]
      exact (and_mask_eq_zero_iff _ hbit).1 hz
    by_cases hl : (run.extend n).length ≥ r.pageCount
    · simp only [hz, if_true, hl]
      exact h.tryRun hcount hpos hn hf hl
    · simp only [hz, if_true, hl, if_false]
      refine .ok (h.extend hf fun other hot hfi => hl ?_)
      have := h.extend_start
      have := h.start_le hfi hot
      omega
  simp only [hz, if_false]
  refine .ok (h.reset hcount ?_)
  rw [hu]
  cases hb : (m.pageBitmap i).getLsbD b with
  | true => rfl
  | false => exact absurd ((and_mask_eq_zero_iff _ hbit).2 hb) hz

omit hpos in
lemma Scanned.resetAll (h : Scanned m r n run) (k : ℕ)
    (hu : ∀ i, i < k + 1 → m.used (n + i) = true) :
    Scanned m r (n + (k + 1)) { run with length := 0 } := by
  induction k with
  | zero => exact h.reset hcount (hu 0 one_pos)
  | succ k ih =>
    have hp := ih fun i hi => hu i (by omega)
    have hne := hu (k + 1) (by omega)
    have hr := hp.reset hcount hne
    exact hr

lemma Scanned.row {index : ℕ} (hidx : index < pageBitmapSize) (h : Scanned m r (index * 64) run) :
    Outcome (Scanned m r ((index + 1) * 64)) (Found m r) (scanRow m r run index) := by
  unfold scanRow
  split_ifs with hf
  · have hu : ∀ i, i < 63 + 1 → m.used (index * 64 + i) = true := by
      intro i hi
      rw [Pmm.used, show (index * 64 + i) / 64 = index by omega,
        show (index * 64 + i) % 64 = i by omega, hf]
      have : ∀ i : Fin 64, pageBitmapFull.getLsbD i = true := by decide
      exact this ⟨i, hi⟩
    rw [succ_mul]
    exact .ok (h.resetAll hcount 63 hu)
  rw [succ_mul]
  refine foldlM_range_outcome (fun i => Scanned m r (index * 64 + i)) 64 h ?_
  intro bit run hb hinv
  rw [← add_assoc]
  exact Scanned.bit hcount hpos hidx hb hinv
end

theorem scan_outcome (m : Pmm) (rq : Request) (hcount : 0 < rq.pageCount)
    (hpos : 0 < rq.alignmentPages) : Outcome (Scanned m rq pageLimit) (Found m rq) (scan m rq) := by
  have hin : Scanned m rq (0 * 64) { start := 0, length := 0 } :=
    ⟨zero_le _, fun page _ h => absurd h (not_lt_zero _),
      fun h => absurd h (not_lt_zero _), fun h => absurd h (lt_irrefl 0), fun place h => by omega⟩
  have hst : ∀ index run, index < pageBitmapSize → Scanned m rq (index * 64) run →
      Outcome (Scanned m rq ((index + 1) * 64)) (Found m rq) (scanRow m rq run index) :=
    fun index run hidx hinv => hinv.row hcount hpos hidx
  rw [scan, pageLimit, mul_comm]
  generalize pageBitmapSize = rows at hst ⊢
  exact foldlM_range_outcome (fun i => Scanned m rq (i * 64)) rows hin hst

/-! ## The allocation -/

lemma alignmentPages_pos (alignment : UInt64) : 0 < alignmentPages alignment := by
  simp only [alignmentPages]
  generalize (if alignment.toNat < pageSize then pageSize else alignment.toNat) = bytes
  split_ifs with hz
  · exact one_pos
  · exact pos_of_ne_zero hz

/-- The alignment in bytes, rounded up to whole pages without any limit. -/
def roundedAlignment (alignment : ℕ) : ℕ := roundUp (max alignment pageSize) pageSize

lemma alignmentPages_of_lt {alignment : UInt64} (h : alignment.toNat + pageSize - 1 < 2 ^ 64) :
    alignmentPages alignment * pageSize = roundedAlignment alignment.toNat := by
  have hmax : (if alignment.toNat < pageSize then pageSize else alignment.toNat) =
      max alignment.toNat pageSize := by
    split_ifs <;> omega
  have hlt : max alignment.toNat pageSize + pageSize - 1 < 2 ^ 64 := by
    simp only [pageSize] at h ⊢
    omega
  have hpos : (max alignment.toNat pageSize + pageSize - 1) / pageSize ≠ 0 := by
    simp only [pageSize]
    omega
  simp only [alignmentPages, hmax, mod_eq_of_lt hlt, hpos, if_false]
  rfl

lemma alignmentPages_of_le {alignment : UInt64}
    (h : 2 ^ 64 ≤ alignment.toNat + pageSize - 1) : alignmentPages alignment = 1 := by
  have := alignment.toNat_lt
  have hge : ¬ alignment.toNat < pageSize := by
    simp only [pageSize] at h ⊢
    omega
  have hz : (alignment.toNat + pageSize - 1) % 2 ^ 64 / pageSize = 0 := by
    simp only [pageSize] at h ⊢
    omega
  simp only [alignmentPages, if_neg hge, if_pos hz]

/-- Pages `first … first + count - 1` become used, and no others. -/
def Marks (m m' : Pmm) (first count : ℕ) : Prop :=
  ∀ page, m'.used page = (m.used page || decide (first ≤ page ∧ page < first + count))

namespace Pmm
lemma setPageUsed_of_lt (m : Pmm) {p : ℕ} (h : p < pageLimit) :
    m.setPageUsed (p * pageSize) = some (m.markUsed p) := by
  rw [setPageUsed, Nat.mul_div_cancel _ (by decide), if_pos h]

/-- The pages of the run are marked one after the other; whatever `markUsed` of a
page of the bitmap preserves holds afterwards. -/
lemma setPagesUsed_spec (m : Pmm) {first c : ℕ} (h : first + c ≤ pageLimit)
    (P : Pmm → Prop) (hm : P m) (hP : ∀ m page, page < pageLimit → P m → P (m.markUsed page)) :
    ∃ m', m.setPagesUsed (first * pageSize) c = some m' ∧ Marks m m' first c ∧ P m' := by
  refine foldlM_range_some (fun k m' => Marks m m' first k ∧ P m') c ⟨fun page => ?_, hm⟩ ?_
  · simp
  rintro k m' hk ⟨hma, hP'⟩
  refine ⟨m'.markUsed (first + k), ?_, fun page => ?_, hP m' _ (by omega) hP'⟩
  · show m'.setPageUsed _ = _
    rw [← add_mul]
    exact m'.setPageUsed_of_lt (by omega)
  have hor : (first ≤ page ∧ page < first + (k + 1)) ↔
      (first ≤ page ∧ page < first + k) ∨ page = first + k := by omega
  rw [used_markUsed, hma page, Bool.or_assoc, ← Bool.decide_or]
  simp only [hor]
end Pmm

section
variable {m : Pmm} {pageCount alignment maxPhysAddr : UInt64}
lemma request_alignmentPages_pos :
    0 < (request pageCount alignment maxPhysAddr).alignmentPages := by
  rw [request]
  exact alignmentPages_pos alignment

theorem pmmAllocInternal_cases (m : Pmm) (alignment maxPhysAddr : UInt64)
    (hcount : 0 < pageCount.toNat) : (∃ place, place + pageCount.toNat ≤ pageLimit ∧
      Fits m (request pageCount alignment maxPhysAddr) place ∧
      (∀ other, Fits m (request pageCount alignment maxPhysAddr) other → place ≤ other) ∧
      m.pmmAllocInternal pageCount alignment maxPhysAddr =
        (m.setPagesUsed (place * pageSize) pageCount.toNat).map (place * pageSize, ·)) ∨
    ((∀ place, place + pageCount.toNat ≤ pageLimit →
        ¬ Fits m (request pageCount alignment maxPhysAddr) place) ∧
      m.pmmAllocInternal pageCount alignment maxPhysAddr = some (0, m)) := by
  have hne : pageCount ≠ 0 := by
    rintro rfl
    cases hcount
  have hsc := scan_outcome m (request pageCount alignment maxPhysAddr) hcount
    request_alignmentPages_pos
  rw [Pmm.pmmAllocInternal, if_neg hne]
  generalize scan m (request pageCount alignment maxPhysAddr) = result at hsc
  cases hsc with
  | error h =>
    obtain ⟨place, rfl, he, hf, hle⟩ := h
    exact .inl ⟨place, he, hf, hle, rfl⟩
  | ok h => exact .inr ⟨h.nofit, rfl⟩

/-! ## First fit -/

/-- `addr` is a multiple of `alignment`, its `pageCount` pages are free, and its last
byte is not above `maxPhysAddr`. -/
structure Suitable (m : Pmm) (pageCount alignment maxPhysAddr addr : ℕ) : Prop where
  aligned : alignment ∣ addr
  free : ∀ i, i < pageCount → m.Free ((addr + i * pageSize) / pageSize)
  below : addr + pageCount * pageSize - 1 ≤ maxPhysAddr

lemma suitable_iff (m : Pmm) (rq : Request) (hcount : 0 < rq.pageCount) (a : ℕ) :
    Suitable m rq.pageCount (rq.alignmentPages * pageSize) rq.maxPhysAddr a ↔
      ∃ place, a = place * pageSize ∧ place + rq.pageCount ≤ pageLimit ∧ Fits m rq place := by
  constructor
  · intro h
    obtain ⟨k, hk⟩ := h.aligned
    obtain ⟨place, hp⟩ := @exists_eq _ (rq.alignmentPages * k)
    have ha : a = place * pageSize := by rw [hk, hp, Nat.mul_right_comm]
    have hpa : ∀ i, (a + i * pageSize) / pageSize = place + i := by
      intro i
      rw [ha, ← Nat.add_mul, Nat.mul_div_cancel _ (by decide)]
    have hl := (h.free (rq.pageCount - 1) (by omega)).1
    rw [hpa] at hl
    refine ⟨place, ha, by omega, ⟨hp ▸ Nat.dvd_mul_right _ _, ?_, ?_⟩⟩
    · intro page h1 h2
      have := (h.free (page - place) (by omega)).2
      rwa [hpa, show place + (page - place) = page by omega] at this
    · have hb := h.below
      rw [ha] at hb
      simp only [pageSize] at hb ⊢
      omega
  rintro ⟨place, rfl, he, hf⟩
  refine ⟨Nat.mul_dvd_mul_right hf.aligned _, fun i hi => ?_, ?_⟩
  · rw [← Nat.add_mul, Nat.mul_div_cancel _ (by decide)]
    exact ⟨by omega, hf.free _ (by omega) (by omega)⟩
  have hb := hf.below
  simp only [pageSize] at hb ⊢
  omega

/-- The call returns the lowest suitable address and marks exactly its pages used,
and it returns 0 and leaves the bitmap alone exactly when no address is
suitable. -/
def FirstFit (m : Pmm) (pageCount alignment maxPhysAddr : UInt64) : Prop :=
  ∃ addr m', m.pmmAllocInternal pageCount alignment maxPhysAddr = some (addr, m') ∧
    (∀ least, IsLeast {a | Suitable m pageCount.toNat (roundedAlignment alignment.toNat)
        maxPhysAddr.toNat a} least →
      addr = least ∧ Marks m m' (least / pageSize) pageCount.toNat) ∧
    ((addr = 0 ∧ m'.pageBitmap = m.pageBitmap) ↔
      ∀ a, ¬ Suitable m pageCount.toNat (roundedAlignment alignment.toNat) maxPhysAddr.toNat a)

/-- The alignment that `pmm_alloc_internal` uses, in bytes. -/
def usedAlignment (alignment : UInt64) : ℕ := alignmentPages alignment * pageSize

lemma pmmAllocInternal_of_suitable (hcount : 0 < pageCount.toNat) {ad : ℕ}
    (h : Suitable m pageCount.toNat (usedAlignment alignment) maxPhysAddr.toNat ad) :
    ∃ l m', m.pmmAllocInternal pageCount alignment maxPhysAddr = some (l, m') ∧
      IsLeast {a | Suitable m pageCount.toNat (usedAlignment alignment) maxPhysAddr.toNat a} l ∧
      Marks m m' (l / pageSize) pageCount.toNat := by
  have hiff := suitable_iff m (request pageCount alignment maxPhysAddr) hcount
  obtain ⟨place, he, hf, hle, hr⟩ | ⟨hno, -⟩ :=
    pmmAllocInternal_cases m alignment maxPhysAddr hcount
  · obtain ⟨m', hm', hma, -⟩ :=
      m.setPagesUsed_spec he (fun _ => True) trivial (fun _ _ _ _ => trivial)
    refine ⟨place * pageSize, m', by rw [hr, hm']; rfl, ⟨?_, ?_⟩, ?_⟩
    · exact (hiff _).2 ⟨place, rfl, he, hf⟩
    · intro a ha
      obtain ⟨other, rfl, -, hot⟩ := (hiff a).1 ha
      exact Nat.mul_le_mul_right _ (hle other hot)
    · rwa [Nat.mul_div_cancel _ (by decide)]
  obtain ⟨place, -, he, hf⟩ := (hiff ad).1 h
  exact absurd hf (hno place he)

lemma pmmAllocInternal_of_not_suitable (hcount : 0 < pageCount.toNat)
    (h : ∀ addr, ¬ Suitable m pageCount.toNat (usedAlignment alignment) maxPhysAddr.toNat addr) :
    m.pmmAllocInternal pageCount alignment maxPhysAddr = some (0, m) := by
  obtain ⟨place, he, hf, -⟩ | ⟨-, hr⟩ := pmmAllocInternal_cases m alignment maxPhysAddr hcount
  · have hiff := suitable_iff m (request pageCount alignment maxPhysAddr) hcount
    exact absurd ((hiff _).2 ⟨place, rfl, he, hf⟩) (h _)
  · exact hr

/-- No suitable address is 0 when page 0 is used. -/
lemma Suitable.ne_zero {c al l a : ℕ} (hcount : 0 < c)
    (hu : m.used 0 = true) (h : Suitable m c al l a) : a ≠ 0 := by
  rintro rfl
  have := (h.free 0 hcount).2
  simp only [Nat.zero_mul, Nat.zero_add, Nat.zero_div, hu] at this
  exact absurd this (by decide)

lemma firstFit_of_lt (hu : m.used 0 = true) (hcount : 0 < pageCount.toNat)
    (h : alignment.toNat + pageSize - 1 < 2 ^ 64) : FirstFit m pageCount alignment maxPhysAddr := by
  have ha : usedAlignment alignment = roundedAlignment alignment.toNat := alignmentPages_of_lt h
  by_cases he : ∃ addr, Suitable m pageCount.toNat (usedAlignment alignment)
      maxPhysAddr.toNat addr
  · obtain ⟨addr, had⟩ := he
    obtain ⟨l, m', hr, hle, hma⟩ := pmmAllocInternal_of_suitable hcount had
    rw [ha] at hle
    refine ⟨l, m', hr, fun other hot => ?_, ?_⟩
    · obtain rfl := hle.unique hot
      exact ⟨rfl, hma⟩
    · refine ⟨fun hz => absurd hz.1 (hle.1.ne_zero hcount hu), fun hno => ?_⟩
      exact absurd hle.1 (hno l)
  have hno := not_exists.1 he
  have hr := pmmAllocInternal_of_not_suitable hcount hno
  rw [ha] at hno
  exact ⟨0, m, hr, fun l hle => absurd hle.1 (hno l), ⟨fun _ => hno, fun _ => ⟨rfl, rfl⟩⟩⟩

/-- The rounded alignment is past the address space, and only address 0 would do. -/
lemma not_suitable_of_le {c : ℕ} (hcount : 0 < c) (hu : m.used 0 = true)
    (h : 2 ^ 64 ≤ alignment.toNat + pageSize - 1) (l a : ℕ) :
    ¬ Suitable m c (roundedAlignment alignment.toNat) l a := by
  intro hs
  have : 2 ^ 64 ≤ roundedAlignment alignment.toNat := by
    have hdvd : pageSize ∣ roundedAlignment alignment.toNat := dvd_roundUp _ _
    have hle : max alignment.toNat pageSize ≤ roundedAlignment alignment.toNat :=
      le_roundUp (by decide)
    simp only [pageSize] at h hdvd hle
    omega
  have hp := (hs.free 0 hcount).1
  rw [pageLimit_eq] at hp
  simp only [pageSize] at hp
  have hle := le_of_dvd (pos_of_ne_zero (hs.ne_zero hcount hu)) hs.aligned
  omega

lemma firstFit_iff_of_le (hu : m.used 0 = true) (hcount : 0 < pageCount.toNat)
    (h : 2 ^ 64 ≤ alignment.toNat + pageSize - 1) : FirstFit m pageCount alignment maxPhysAddr ↔
      ∀ addr, ¬ Suitable m pageCount.toNat pageSize maxPhysAddr.toNat addr := by
  have ha : usedAlignment alignment = pageSize := by
    rw [usedAlignment, alignmentPages_of_le h, one_mul]
  have hno := not_suitable_of_le hcount hu h maxPhysAddr.toNat
  constructor
  · rintro ⟨addr, m', hr, -, hiff⟩ other hot
    rw [← ha] at hot
    obtain ⟨l, m'', hr', hle, -⟩ := pmmAllocInternal_of_suitable hcount hot
    have he := Option.some.inj (hr.symm.trans hr')
    have hz := (hiff.2 hno).1
    rw [(Prod.mk.inj he).1] at hz
    exact hle.1.ne_zero hcount hu hz
  intro hnot
  rw [← ha] at hnot
  exact ⟨0, m, pmmAllocInternal_of_not_suitable hcount hnot,
    fun l hle => absurd hle.1 (hno l), ⟨fun _ => hno, fun _ => ⟨rfl, rfl⟩⟩⟩

/-- `pmm_alloc_internal` is first fit for the alignment it was given exactly when the
rounding of the alignment stays below `2^64`, or no page aligned run of free pages
would do either. -/
theorem pmmAllocInternal_firstFit_iff (m : Pmm) (pageCount alignment maxPhysAddr : UInt64)
    (hused : m.used 0 = true) (hcount : 1 ≤ pageCount.toNat) :
    FirstFit m pageCount alignment maxPhysAddr ↔
      alignment.toNat + pageSize - 1 < 2 ^ 64 ∨
        ∀ addr, ¬ Suitable m pageCount.toNat pageSize maxPhysAddr.toNat addr := by
  rcases lt_or_ge (alignment.toNat + pageSize - 1) (2 ^ 64) with h | h
  · exact ⟨fun _ => .inl h, fun _ => firstFit_of_lt hused hcount h⟩
  rw [firstFit_iff_of_le hused hcount h]
  exact ⟨.inr, fun hor => hor.resolve_left (not_lt.2 h)⟩
end

/-- A bitmap with page 1 free and the others used. -/
def onePageFree : Pmm := Pmm.pageBitmapInitialize.markFree 1

lemma used_pageBitmapInitialize (p : ℕ) : Pmm.pageBitmapInitialize.used p = true := by
  have : ∀ i : Fin 64, pageBitmapFull.getLsbD i = true := by decide
  exact this ⟨p % 64, mod_lt _ (by decide)⟩

lemma used_onePageFree (p : ℕ) : onePageFree.used p = decide (p ≠ 1) := by
  rw [onePageFree, Pmm.used_markFree, used_pageBitmapInitialize, Bool.true_and]

theorem pmmAllocInternal_firstFit_iff_one_page :
    onePageFree.used 0 = true ∧ FirstFit onePageFree 1 0x1000 0xffffffff := by
  have hu : onePageFree.used 0 = true := by rw [used_onePageFree]; rfl
  exact ⟨hu, (pmmAllocInternal_firstFit_iff onePageFree 1 0x1000 0xffffffff hu
    (by decide)).2 (.inl (by decide))⟩

/-- Asked for one page at a multiple of `2^64 - 1` rounded to pages, the allocator
finds page 1. -/
theorem pmmAllocInternal_not_firstFit : onePageFree.used 0 = true ∧
      ¬ FirstFit onePageFree 1 0xffffffffffffffff 0xffffffffffffffff := by
  have hu : onePageFree.used 0 = true := by rw [used_onePageFree]; rfl
  refine ⟨hu, fun hf => ?_⟩
  have hp : Suitable onePageFree 1 pageSize 0xffffffffffffffff pageSize := by
    refine ⟨dvd_refl _, fun i hi => ?_, by decide⟩
    obtain rfl : i = 0 := by omega
    refine ⟨?_, ?_⟩
    · rw [pageLimit_eq]
      decide
    rw [used_onePageFree]
    decide
  exact (firstFit_iff_of_le hu (by decide) (by decide)).1 hf pageSize hp
end Menios.Mem
