import Mathlib

/-!
# Lengths of strings

`strlen`, `strnlen` and `strndup` (`src/libc/string.c`, lines 47-79 and 382-397). The bytes from
the pointer on are `s`; a loop counts in a `uint16_t` and has no result within its fuel if it
goes on. The allocation of `strndup` succeeds.

**Defect.** The counter wraps around at 65536. `strnlen` tests the byte before the limit, and
counts it once more when the limit is reached.

Results:

* `lengths_iff`: the strings and limits for which the three functions are right.
-/

namespace Menios.Libc
open List

/-- The bytes are those of a string of this length. -/
structure IsString (s : ℕ → UInt8) (length : ℕ) : Prop where
  nul : s length = 0
  chars : ∀ i < length, s i ≠ 0

/-- The loop of `strlen`. -/
def strlen (s : ℕ → UInt8) : ℕ → ℕ → Option ℕ
  | 0, _ => none
  | fuel + 1, len => if s len = 0 then some len else strlen s fuel ((len + 1) % 2 ^ 16)

/-- The loop of `strnlen`: its value, and the indices it reads. -/
def strnlen (s : ℕ → UInt8) (maxlen : ℕ) : ℕ → ℕ → Option (ℕ × List ℕ)
  | 0, _ => none
  | fuel + 1, len =>
    if s len = 0 then some (len, [len])
    else if len < maxlen then
      (strnlen s maxlen fuel ((len + 1) % 2 ^ 16)).map fun r => (r.1, len :: r.2)
    else some ((len + 1) % 2 ^ 16, [len])

/-- `strndup`: the bytes of the new block, and the indices that were read. -/
def strndup (s : ℕ → UInt8) (n fuel : ℕ) : Option (List UInt8 × List ℕ) :=
  (strnlen s n fuel 0).map fun r => ((range r.1).map s ++ [0], r.2 ++ range r.1)

variable {s : ℕ → UInt8} {length : ℕ} (h : IsString s length)
include h
lemma strlen_of_lt (hlt : length < 2 ^ 16) (d : ℕ) {l : ℕ} (hd : l + d = length) :
    strlen s (d + 1) l = some length := by
  induction d generalizing l with
  | zero => rw [strlen, show l = length from hd, if_pos h.nul]
  | succ d ih =>
    rw [strlen, if_neg (h.chars l (by omega)), Nat.mod_eq_of_lt (by omega)]
    exact ih (by omega)

/-- All the bytes that the counter can reach are characters. -/
lemma strlen_of_le (hle : 2 ^ 16 ≤ length) (f : ℕ) {l : ℕ} (hl : l < 2 ^ 16) :
    strlen s f l = none := by
  induction f generalizing l with
  | zero => rfl
  | succ f ih =>
    rw [strlen, if_neg (h.chars l (by omega))]
    exact ih (Nat.mod_lt _ (by decide))

section
variable {maxlen : ℕ}
lemma strnlen_of_lt (hlt : length < 2 ^ 16) (hmax : length < maxlen) (d : ℕ) {l : ℕ}
    (hd : l + d = length) : strnlen s maxlen (d + 1) l = some (length, range' l (d + 1)) := by
  induction d generalizing l with
  | zero =>
    obtain rfl : l = length := hd
    rw [strnlen, if_pos h.nul]
    rfl
  | succ d ih =>
    rw [strnlen, if_neg (h.chars l (by omega)), if_pos (by omega), Nat.mod_eq_of_lt (by omega),
      ih (by omega)]
    rfl

lemma strnlen_of_le (hle : 2 ^ 16 ≤ length) (hmax : 2 ^ 16 ≤ maxlen) (f : ℕ) {l : ℕ}
    (hl : l < 2 ^ 16) : strnlen s maxlen f l = none := by
  induction f generalizing l with
  | zero => rfl
  | succ f ih =>
    rw [strnlen, if_neg (h.chars l (by omega)), if_pos (by omega), ih (Nat.mod_lt _ (by decide))]
    rfl

/-- If the string is not shorter than the limit, the byte at the limit is read. -/
lemma max_mem_strnlen (hle : maxlen ≤ length) (hmax : maxlen < 2 ^ 16) {f l : ℕ}
    (hl : l ≤ maxlen) {r : ℕ × List ℕ} (hr : strnlen s maxlen f l = some r) : maxlen ∈ r.2 := by
  induction f generalizing l r with
  | zero => cases hr
  | succ f ih =>
    rcases hl.eq_or_lt with rfl | hlt
    · rw [strnlen, if_neg (lt_irrefl l)] at hr
      split_ifs at hr <;> cases hr <;> exact mem_cons_self
    rw [strnlen, if_neg (h.chars l (by omega)), if_pos hlt, Nat.mod_eq_of_lt (by omega)] at hr
    obtain ⟨r', hr', rfl⟩ := Option.map_eq_some_iff.1 hr
    exact mem_cons_of_mem _ (ih (by omega) hr')

/-- A call of `strnlen` that ends and reads only below the limit. -/
lemma lt_of_strnlen {f : ℕ} {r : ℕ × List ℕ} (hr : strnlen s maxlen f 0 = some r)
    (hre : ∀ i ∈ r.2, i < maxlen) : length < 2 ^ 16 ∧ length < maxlen := by
  by_cases hmax : maxlen < 2 ^ 16
  · by_cases hle : maxlen ≤ length
    · exact absurd (hre _ (max_mem_strnlen h hle hmax (Nat.zero_le _) hr)) (lt_irrefl _)
    · omega
  by_cases hl : 2 ^ 16 ≤ length
  · rw [strnlen_of_le h hl (by omega) f (by decide)] at hr
    cases hr
  · omega
end

/-- `strlen` is right below 65536 characters, and does not return otherwise. `strnlen` and
`strndup` are right, and read nothing at the limit, exactly if the string is also shorter than
the limit. -/
theorem lengths_iff (maxlen : ℕ) : ((∃ fuel, strlen s fuel 0 = some length) ↔ length < 2 ^ 16) ∧
    (2 ^ 16 ≤ length → ∀ fuel, strlen s fuel 0 = none) ∧
    ((∃ fuel reads, strnlen s maxlen fuel 0 = some (min length maxlen, reads) ∧
      ∀ i ∈ reads, i < maxlen) ↔ length < 2 ^ 16 ∧ length < maxlen) ∧
    ((∃ fuel reads, strndup s maxlen fuel = some ((range (min length maxlen)).map s ++ [0], reads) ∧
      ∀ i ∈ reads, i < maxlen) ↔ length < 2 ^ 16 ∧ length < maxlen) := by
  refine ⟨⟨fun ⟨fuel, hrun⟩ => ?_, fun hlt => ⟨_, strlen_of_lt h hlt length (Nat.zero_add _)⟩⟩,
    fun hle fuel => strlen_of_le h hle fuel (by decide), ⟨fun ⟨fuel, reads, hrun, hre⟩ =>
      lt_of_strnlen h hrun hre, fun ⟨hlt, hmax⟩ => ?_⟩, ⟨fun ⟨fuel, reads, hrun, hre⟩ => ?_,
      fun ⟨hlt, hmax⟩ => ?_⟩⟩
  · by_contra hle
    rw [strlen_of_le h (by omega) fuel (by decide)] at hrun
    cases hrun
  · refine ⟨length + 1, range' 0 (length + 1), ?_, fun i hi => ?_⟩
    · rw [min_eq_left hmax.le]
      exact strnlen_of_lt h hlt hmax length (Nat.zero_add _)
    · have := mem_range'_1.1 hi
      omega
  · obtain ⟨r, hr, he⟩ := Option.map_eq_some_iff.1 hrun
    obtain ⟨-, rfl⟩ := Prod.mk.inj he
    exact lt_of_strnlen h hr fun i hi => hre i (mem_append_left _ hi)
  refine ⟨length + 1, range' 0 (length + 1) ++ range length, ?_, fun i hi => ?_⟩
  · rw [strndup, strnlen_of_lt h hlt hmax length (Nat.zero_add _), min_eq_left hmax.le]
    rfl
  rcases mem_append.1 hi with hi | hi
  · have := mem_range'_1.1 hi
    omega
  · exact (mem_range.1 hi).trans hmax

omit h

/-- The string `"aaa"`. -/
def threeChars (i : ℕ) : UInt8 := if i < 3 then 97 else 0

lemma threeChars_isString : IsString threeChars 3 := ⟨rfl, by decide⟩

/-- The three calls on three characters, with a limit of five. -/
theorem lengths_of_three : (∃ fuel, strlen threeChars fuel 0 = some 3) ∧
    (∃ fuel reads, strnlen threeChars 5 fuel 0 = some (3, reads) ∧ ∀ i ∈ reads, i < 5) ∧
    ∃ fuel reads, strndup threeChars 5 fuel = some ([97, 97, 97, 0], reads) ∧
      ∀ i ∈ reads, i < 5 := by
  obtain ⟨hlen, -, hnlen, hndup⟩ := lengths_iff threeChars_isString 5
  exact ⟨hlen.2 (by decide), hnlen.2 (by decide), hndup.2 (by decide)⟩

/-- With a limit of one, two characters of a string are counted and read. -/
theorem strnlen_above_limit :
    IsString threeChars 3 ∧ strnlen threeChars 1 2 0 = some (2, [0, 1]) :=
  ⟨threeChars_isString, rfl⟩
end Menios.Libc
