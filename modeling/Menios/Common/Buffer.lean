import Mathlib

/-!
# Byte buffers

A mutable byte array is a function `ℕ → UInt8`. Its length is not part of the
value: each function that is given a buffer is also given the size it may use.
Memory that was never written holds arbitrary bytes.
-/

namespace Menios.Common
open List

/-- The contents of a byte array. -/
abbrev Buffer := ℕ → UInt8

namespace Buffer
variable (buf : Buffer)
/-- `buf[i] = b`. -/
def set (i : ℕ) (b : UInt8) : Buffer := Function.update buf i b

lemma set_apply (i j : ℕ) (b : UInt8) : buf.set i b j = if j = i then b else buf j := by
  simp only [set, Function.update_apply]

lemma set_set (i : ℕ) (b b' : UInt8) : (buf.set i b).set i b' = buf.set i b' := by
  funext k
  simp only [set_apply]
  split_ifs <;> rfl

lemma set_comm {i j : ℕ} (h : i ≠ j) (b b' : UInt8) :
    (buf.set i b).set j b' = (buf.set j b').set i b := by
  funext k
  simp only [set_apply]
  split_ifs <;> first | rfl | omega

/-- `memcpy(buf + start, bytes, n)` for the `n` bytes of a list. -/
def blit (start : ℕ) (bytes : List UInt8) : Buffer := fun k =>
  if start ≤ k ∧ k < start + bytes.length then bytes.getD (k - start) 0 else buf k

/-- `memset(buf + start, 0, n)`. -/
def zero (start n : ℕ) : Buffer := fun k => if start ≤ k ∧ k < start + n then 0 else buf k

/-- The `n` bytes from `start` on. -/
def slice (start n : ℕ) : List UInt8 := (List.range n).map fun i => buf (start + i)

/-- The first `n` bytes. -/
def toList (n : ℕ) : List UInt8 := (List.range n).map buf

/-- The C string that starts at `buf`, read no further than `n` bytes. -/
def cString (n : ℕ) : List UInt8 := (buf.toList n).takeWhile (· != 0)

/-- A buffer holds the string `s` when it holds its bytes and then a NUL. -/
lemma cString_eq_iff {buf : Buffer} {n : ℕ} {s : List UInt8} (hs : ∀ b ∈ s, b ≠ 0)
    (hn : s.length < n) :
    buf.cString n = s ↔ (∀ i (h : i < s.length), buf i = s[i]) ∧ buf s.length = 0 := by
  unfold cString toList
  induction s generalizing buf n with
  | nil =>
    obtain ⟨m, rfl⟩ : ∃ m, n = m + 1 := ⟨n - 1, by simp at hn; omega⟩
    simp [range_succ_eq_map, takeWhile_cons]
  | cons a s ih =>
    obtain ⟨m, rfl⟩ : ∃ m, n = m + 1 := ⟨n - 1, by simp at hn; omega⟩
    have ih' := @ih (fun i => buf (i + 1)) m (fun b hb => hs b (by simp [hb]))
      (by simp at hn; omega)
    have hmap : (List.range (m + 1)).map buf =
        buf 0 :: (List.range m).map fun i => buf (i + 1) := by
      rw [range_succ_eq_map, map_cons, map_map]; rfl
    rw [hmap]
    constructor
    · intro h
      by_cases h0 : buf 0 = 0
      · simp [h0] at h
      · rw [takeWhile_cons_of_pos (by simpa using h0), List.cons.injEq, ih'] at h
        refine ⟨fun i hi => ?_, h.2.2⟩
        cases i with
        | zero => exact h.1
        | succ i => exact h.2.1 i (by simpa using hi)
    rintro ⟨h1, h2⟩
    have h0 : buf 0 = a := h1 0 (by simp)
    have ha : a ≠ 0 := hs a (by simp)
    rw [h0, takeWhile_cons_of_pos (by simpa using ha),
      ih'.2 ⟨fun i hi => h1 (i + 1) (by simpa using hi), h2⟩]
end Buffer
end Menios.Common
