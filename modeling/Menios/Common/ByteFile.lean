import Mathlib

/-!
# A file as a list of bytes

Reads and writes at a place of a list of bytes. A write behind the end fills the gap with zeros.

Results:

* `readAt_add`, `writeAt_append`: a transfer in two parts is one transfer.
* `slice_add`, `take_slice`, `drop_slice`: the same for parts of a buffer.
-/

namespace Menios.Common
open List

/-! ## Reads -/

/-- The bytes at `p`, at most `n`. -/
def readAt (c : List UInt8) (p n : ℕ) : List UInt8 := (c.drop p).take n

section
variable (c : List UInt8) (p : ℕ)
@[simp] lemma length_readAt (n : ℕ) : (readAt c p n).length = min n (c.length - p) := by
  simp [readAt]

theorem readAt_add (m n : ℕ) : readAt c p (m + n) = readAt c p m ++ readAt c (p + m) n := by
  rw [readAt, readAt, readAt, take_add, drop_drop]

lemma take_readAt {k n : ℕ} (h : k ≤ n) : (readAt c p n).take k = readAt c p k := by
  rw [readAt, take_take, Nat.min_eq_left h, readAt]

lemma drop_readAt (k n : ℕ) : (readAt c p n).drop k = readAt c (p + k) (n - k) := by
  rw [readAt, drop_take, drop_drop, readAt]

lemma readAt_eq_nil_iff {n : ℕ} (hn : 0 < n) : readAt c p n = [] ↔ c.length ≤ p := by
  rw [← length_eq_zero_iff, length_readAt]
  omega
end

/-! ## Writes -/

/-- The bytes `d` are written at `p`. -/
def writeAt (l : List UInt8) (p : ℕ) (d : List UInt8) : List UInt8 :=
  if d = [] then l
  else l.take p ++ replicate (p - l.length) 0 ++ d ++ l.drop (p + d.length)

section
variable (l : List UInt8) (p : ℕ)
@[simp] lemma writeAt_nil : writeAt l p [] = l := if_pos rfl

lemma getElem?_writeAt {d : List UInt8} (hd : d ≠ []) (i : ℕ) : (writeAt l p d)[i]? =
    if i < p then some (l.getD i 0) else if i < p + d.length then d[i - p]? else l[i]? := by
  have hgap : (l.take p ++ replicate (p - l.length) 0).length = p := by
    rw [length_append, length_take, length_replicate]
    omega
  rw [writeAt, if_neg hd]
  by_cases hb : i < p
  · rw [if_pos hb, append_assoc, getElem?_append_left (by omega)]
    by_cases hin : i < l.length
    · rw [getElem?_append_left (by rw [length_take]; omega),
        getElem?_take_of_lt hb, getElem?_eq_getElem hin, getD_eq_getElem _ _ hin]
    · rw [getElem?_append_right (by rw [length_take]; omega), length_take,
        getElem?_replicate_of_lt (by omega), getD_eq_default _ _ (by omega)]
  rw [if_neg hb]
  by_cases hin : i < p + d.length
  · rw [if_pos hin, getElem?_append_left (by rw [length_append]; omega),
      getElem?_append_right (by omega), hgap]
  rw [if_neg hin, getElem?_append_right (by rw [length_append]; omega),
    getElem?_drop, length_append, hgap]
  congr 1
  omega

/-- A write in two parts. -/
theorem writeAt_append (d e : List UInt8) :
    writeAt l p (d ++ e) = writeAt (writeAt l p d) (p + d.length) e := by
  by_cases hd : d = []
  · rw [hd, nil_append, writeAt_nil, length_nil, Nat.add_zero]
  by_cases he : e = []
  · rw [he, append_nil, writeAt_nil]
  refine ext_getElem? fun i => ?_
  rw [getElem?_writeAt l p (by simp [hd]), getElem?_writeAt _ _ he, getElem?_writeAt l p hd,
    length_append]
  have hgetD : (writeAt l p d).getD i 0 = ((writeAt l p d)[i]?).getD 0 := getD_eq_getElem?_getD
  rw [hgetD, getElem?_writeAt l p hd]
  by_cases hb : i < p
  · rw [if_pos hb, if_pos (by omega), if_pos hb, Option.getD_some]
  rw [if_neg hb, if_neg hb]
  by_cases hf : i < p + d.length
  · rw [if_pos (by omega), if_pos hf, if_pos hf, getElem?_append_left (by omega),
      getElem?_eq_getElem (by omega), Option.getD_some]
  rw [if_neg hf, if_neg hf]
  by_cases hse : i < p + d.length + e.length
  · rw [if_pos (by omega), if_pos hse, getElem?_append_right (by omega)]
    congr 1
    omega
  · rw [if_neg (by omega), if_neg hse]
end

/-! ## Parts of a buffer -/

/-- The `n` bytes of a buffer from `a` on. -/
def slice (buffer : ℕ → UInt8) (a n : ℕ) : List UInt8 := (range n).map fun k => buffer (a + k)

/-- The bytes `l` are copied to `a`. -/
def fill (buffer : ℕ → UInt8) (a : ℕ) (l : List UInt8) : ℕ → UInt8 :=
  fun i => if a ≤ i ∧ i < a + l.length then l.getD (i - a) 0 else buffer i

section
variable (b : ℕ → UInt8) (a : ℕ)
@[simp] lemma length_slice (n : ℕ) : (slice b a n).length = n := by simp [slice]

theorem slice_add (m n : ℕ) : slice b a (m + n) = slice b a m ++ slice b (a + m) n := by
  rw [slice, range_add, map_append, map_map, slice, slice]
  refine congrArg _ (map_congr_left fun k _ => ?_)
  rw [Function.comp_apply, Nat.add_assoc]

theorem take_slice {k n : ℕ} (h : k ≤ n) : (slice b a n).take k = slice b a k := by
  obtain ⟨m, rfl⟩ := Nat.exists_eq_add_of_le h
  rw [slice_add, take_append_of_le_length (by simp), take_of_length_le (by simp)]

theorem drop_slice {k n : ℕ} (h : k ≤ n) : (slice b a n).drop k = slice b (a + k) (n - k) := by
  obtain ⟨m, rfl⟩ := Nat.exists_eq_add_of_le h
  rw [slice_add, drop_append_of_le_length (by simp), drop_of_length_le (by simp),
    nil_append, Nat.add_sub_cancel_left]

lemma slice_fill (l : List UInt8) : slice (fill b a l) a l.length = l := by
  refine ext_getElem (by simp) fun i hi hi' => ?_
  simp only [slice, getElem_map, getElem_range]
  rw [fill, if_pos (by omega), Nat.add_sub_cancel_left, getD_eq_getElem _ _ hi']

lemma slice_fill_before (l : List UInt8) : slice (fill b a l) 0 a = slice b 0 a := by
  refine map_congr_left fun k hk => ?_
  have := mem_range.1 hk
  exact if_neg (by omega)
end
end Menios.Common
