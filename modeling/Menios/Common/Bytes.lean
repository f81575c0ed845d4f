import Mathlib

/-!
# Numbers in memory order

The bytes of a number, least significant first, and the number that a list of bytes stands
for.

Results:

* `leNat_leBytes`: a number that fits is read back.
* `wordAt_append_zero`, `wordAt_append_succ`, `wordAt_flatMap`: an array of 64-bit words is
  read back word by word.
-/

namespace Menios.Common
open List

/-- The lowest `k` bytes of `x`. -/
def leBytes (k x : ℕ) : List UInt8 := (List.range k).map fun i => (x / 256 ^ i).toUInt8

/-- The number that the bytes stand for. -/
def leNat : List UInt8 → ℕ
  | [] => 0
  | b :: bytes => b.toNat + 256 * leNat bytes

@[simp] lemma length_leBytes (k x : ℕ) : (leBytes k x).length = k := by simp [leBytes]

lemma leBytes_succ (k x : ℕ) : leBytes (k + 1) x = x.toUInt8 :: leBytes k (x / 256) := by
  rw [leBytes, range_succ_eq_map, map_cons, map_map, leBytes]
  congr 1
  · simp
  refine map_congr_left fun i _ => ?_
  simp only [Function.comp_apply, pow_succ', Nat.div_div_eq_div_mul]

lemma leNat_lt (bt : List UInt8) : leNat bt < 256 ^ bt.length := by
  induction bt with
  | nil => exact Nat.one_pos
  | cons b bt ih =>
    have := b.toNat_lt
    rw [leNat, length_cons, pow_succ]
    omega

theorem leNat_leBytes (k x : ℕ) : leNat (leBytes k x) = x % 256 ^ k := by
  induction k generalizing x with
  | zero => simp [leBytes, leNat, Nat.mod_one]
  | succ k ih =>
    have hf : x.toUInt8.toNat = x % 256 := by simp [Nat.toUInt8]
    rw [leBytes_succ, leNat, ih, hf, pow_succ', Nat.mod_mul]

/-- The `i`-th 64-bit word of a buffer. -/
def wordAt (bytes : List UInt8) (i : ℕ) : UInt64 :=
  UInt64.ofNat (leNat ((bytes.drop (8 * i)).take 8))

/-- The bytes of a 64-bit word. -/
def wordBytes (value : UInt64) : List UInt8 := leBytes 8 value.toNat

@[simp] lemma length_wordBytes (w : UInt64) : (wordBytes w).length = 8 := length_leBytes 8 _

theorem wordAt_append_zero (w : UInt64) (r : List UInt8) : wordAt (wordBytes w ++ r) 0 = w := by
  have ht : (wordBytes w ++ r).take 8 = wordBytes w := by
    rw [take_append_of_le_length (by simp), take_of_length_le (by simp)]
  rw [wordAt, Nat.mul_zero, drop_zero, ht, wordBytes, leNat_leBytes]
  exact UInt64.toNat_inj.1 (by simp)

theorem wordAt_append_succ (w : UInt64) (r : List UInt8) (i : ℕ) :
    wordAt (wordBytes w ++ r) (i + 1) = wordAt r i := by
  have hdr : (wordBytes w ++ r).drop (8 * (i + 1)) = r.drop (8 * i) := by
    rw [drop_append, drop_of_length_le (by rw [length_wordBytes]; omega), length_wordBytes,
      nil_append, show 8 * (i + 1) - 8 = 8 * i by omega]
  rw [wordAt, hdr, wordAt]

theorem wordAt_flatMap {wr : List UInt64} {i : ℕ} {w : UInt64} (h : wr[i]? = some w)
    (r : List UInt8) : wordAt (wr.flatMap wordBytes ++ r) i = w := by
  induction wr generalizing i with
  | nil => simp at h
  | cons w' wr ih =>
    rw [flatMap_cons, append_assoc]
    cases i with
    | zero =>
      rw [wordAt_append_zero]
      simpa using h
    | succ i =>
      rw [wordAt_append_succ]
      exact ih (by simpa using h)
end Menios.Common
