import Mathlib

/-!
# Memory functions that use words

`memset`, `memcpy` and `memmove` of `src/libc/string.c` (lines 489-595) as they are built for user
space. A memory records the address and the width of each access. The pointers of a loop are the
first addresses plus an offset.

Results:

* `blockwise_rule`: what each byte and each word keeps holds after the three loops.
* `memory_functions_bytewise`: the functions do what they would do byte by byte, and touch no byte
  outside their ranges.
-/

namespace Menios.Libc
open List

/-- The bytes, and the address and width of each access. -/
structure Mem where
  byte : ℕ → UInt8
  reads : List (ℕ × ℕ)
  writes : List (ℕ × ℕ)

/-- One store of `width` bytes. -/
def Mem.store (width d : ℕ) (f : ℕ → UInt8) (m : Mem) : Mem where
  byte x := if d ≤ x ∧ x < d + width then f (x - d) else m.byte x
  reads := m.reads
  writes := (d, width) :: m.writes

/-- One load and one store of `width` bytes. -/
def Mem.copy (width d s : ℕ) (m : Mem) : Mem :=
  { m with reads := (s, width) :: m.reads }.store width d fun j => m.byte (s + j)

section
variable (one word : ℕ → Mem → Mem)
/-- The loop up to a multiple of the word size. -/
def alignLoop (dest : ℕ) : ℕ → ℕ → Mem → ℕ × ℕ × Mem
  | 0, i, m => (0, i, m)
  | count + 1, i, m =>
    if (dest + i) % 8 ≠ 0 then alignLoop dest count (i + 1) (one i m) else (count + 1, i, m)

/-- The loop over words. -/
def wordLoop (count i : ℕ) (m : Mem) : ℕ × ℕ × Mem :=
  if 8 ≤ count then wordLoop (count - 8) (i + 8) (word i m) else (count, i, m)
termination_by count

/-- The loop over the bytes that are left. -/
def byteLoop : ℕ → ℕ → Mem → Mem
  | 0, _, m => m
  | count + 1, i, m => byteLoop count (i + 1) (one i m)

/-- The body of `memset` and `memcpy`. `aligned`: words may be used from this offset on. -/
def blockwise (dest : ℕ) (aligned : ℕ → Bool) (count : ℕ) (m : Mem) : Mem :=
  if 8 ≤ count then
    let r := alignLoop one dest count 0 m
    let r := if aligned r.2.1 then wordLoop word r.1 r.2.1 r.2.2 else r
    byteLoop one r.1 r.2.1 r.2.2
  else byteLoop one count 0 m
end

/-- The word in `memset` that has the byte eight times (lines 495-499). -/
def pattern (byte : ℕ) : ℕ := (range 8).foldl (fun p _ => p <<< 8 % 2 ^ 64 ||| byte) 0

/-- `memset`. -/
def memset (dest : ℕ) (value : ℤ) (count : ℕ) : Mem → Mem :=
  blockwise (fun i => .store 1 (dest + i) fun _ => .ofInt value)
    (fun i => .store 8 (dest + i) fun j => .ofNat (pattern (UInt8.ofInt value).toNat >>> (8 * j))) dest
    (fun _ => true) count

/-- `memcpy`. -/
def memcpy (dest src count : ℕ) : Mem → Mem :=
  blockwise (fun i => .copy 1 (dest + i) (src + i)) (fun i => .copy 8 (dest + i) (src + i)) dest
    (fun i => (src + i) % 8 = 0) count

/-- The loop of `memmove` from the end. -/
def backLoop (dest src : ℕ) : ℕ → Mem → Mem
  | 0, m => m
  | count + 1, m => backLoop dest src count (m.copy 1 (dest + count) (src + count))

/-- `memmove`. -/
def memmove (dest src count : ℕ) (m : Mem) : Mem :=
  if dest = src ∨ count = 0 then m
  else if dest < src then memcpy dest src count m
  else backLoop dest src count m

/-- The bytes from `lo` to `hi` have become `g`, and each access was within the ranges. -/
structure Moved (m : Mem) (dest src count : ℕ) (g : ℕ → UInt8) (lo hi : ℕ) (m' : Mem) : Prop where
  byte : ∀ x, m'.byte x = if dest + lo ≤ x ∧ x < dest + hi then g (x - dest) else m.byte x
  reads : ∀ a ∈ m'.reads, a ∈ m.reads ∨ src ≤ a.1 ∧ a.1 + a.2 ≤ src + count
  writes : ∀ a ∈ m'.writes, a ∈ m.writes ∨ dest ≤ a.1 ∧ a.1 + a.2 ≤ dest + count

/-- `P` after the first bytes is carried on by each byte and each word. -/
lemma blockwise_rule {one word : ℕ → Mem → Mem} {t : ℕ} (P : ℕ → Mem → Prop)
    (hone : ∀ k m, k + 1 ≤ t → P k m → P (k + 1) (one k m))
    (hwr : ∀ k m, k + 8 ≤ t → P k m → P (k + 8) (word k m)) {m : Mem} (h : P 0 m) (de : ℕ)
    (a : ℕ → Bool) : P t (blockwise one word de a t m) := by
  have hb : ∀ count i m, i + count = t → P i m → P t (byteLoop one count i m) := by
    intro count
    induction count with
    | zero => exact fun i m hi h => by rwa [show t = i from hi.symm]
    | succ count ih => exact fun i m hi h => ih _ _ (by omega) (hone i m (by omega) h)
  have hal : ∀ count i m, i + count = t → P i m →
      let r := alignLoop one de count i m
      r.2.1 + r.1 = t ∧ P r.2.1 r.2.2 := by
    intro count
    induction count with
    | zero => exact fun i m hi h => ⟨hi, h⟩
    | succ count ih =>
      intro i m hi h
      rw [alignLoop]
      split_ifs
      · exact ih _ _ (by omega) (hone i m (by omega) h)
      · exact ⟨hi, h⟩
  have hwo : ∀ count i m, i + count = t → P i m →
      let r := wordLoop word count i m
      r.2.1 + r.1 = t ∧ P r.2.1 r.2.2 := by
    intro count
    induction count using Nat.strong_induction_on with
    | _ count ih =>
      intro i m hi h
      rw [wordLoop]
      split_ifs
      · exact ih _ (by omega) _ _ (by omega) (hwr i m (by omega) h)
      · exact ⟨hi, h⟩
  obtain ⟨ha, hP⟩ := hal t 0 m (Nat.zero_add _) h
  rw [blockwise]
  split_ifs
  · dsimp only
    split_ifs
    · obtain ⟨hw, hQ⟩ := hwo _ _ _ ha hP
      exact hb _ _ _ hw hQ
    · exact hb _ _ _ ha hP
  · exact hb _ _ _ (Nat.zero_add _) h

section
variable {m m' : Mem} {ds s c lo hi l' hi' d w : ℕ} {g : ℕ → UInt8}
lemma Moved.refl (lo : ℕ) : Moved m ds s c g lo lo m :=
  ⟨fun x => (if_neg (by omega)).symm, fun _ => .inl, fun _ => .inl⟩

lemma Moved.store (h : Moved m ds s c g lo hi m') (hd : d + w ≤ c)
    (hr : ∀ i, l' ≤ i ∧ i < hi' ↔ (d ≤ i ∧ i < d + w) ∨ (lo ≤ i ∧ i < hi))
    {f : ℕ → UInt8} (hf : ∀ j < w, f j = g (d + j)) :
    Moved m ds s c g l' hi' (m'.store w (ds + d) f) := by
  refine ⟨fun x => ?_, h.reads, fun a ha => ?_⟩
  · have := hr (x - ds)
    rw [Mem.store]
    dsimp only
    by_cases hnew : ds + d ≤ x ∧ x < ds + d + w
    · rw [if_pos hnew, if_pos (by omega), hf _ (by omega)]
      congr 1
      omega
    · rw [if_neg hnew, h.byte]
      by_cases hold : ds + lo ≤ x ∧ x < ds + hi
      · rw [if_pos hold, if_pos (by omega)]
      · rw [if_neg hold, if_neg (by omega)]
  rcases mem_cons.1 ha with rfl | ha
  · exact .inr ⟨Nat.le_add_right _ _, by dsimp only; omega⟩
  · exact h.writes a ha

/-- A copy whose source was not overwritten. -/
lemma Moved.copy (h : Moved m ds s c (fun j => m.byte (s + j)) lo hi m') (hd : d + w ≤ c)
    (hr : ∀ i, l' ≤ i ∧ i < hi' ↔ (d ≤ i ∧ i < d + w) ∨ (lo ≤ i ∧ i < hi))
    (hf : ∀ j < w, ¬ (ds + lo ≤ s + d + j ∧ s + d + j < ds + hi)) :
    Moved m ds s c (fun j => m.byte (s + j)) l' hi' (m'.copy w (ds + d) (s + d)) := by
  have hre : Moved m ds s c (fun j => m.byte (s + j)) lo hi
      { m' with reads := (s + d, w) :: m'.reads } := by
    refine { h with reads := fun a ha => ?_ }
    rcases mem_cons.1 ha with rfl | ha
    · exact .inr ⟨Nat.le_add_right _ _, by dsimp only; omega⟩
    · exact h.reads a ha
  refine hre.store hd hr fun j hj => ?_
  rw [h.byte, if_neg (hf j hj), Nat.add_assoc]
end

/-- `memcpy` is right if no byte of the source is overwritten before it is read. -/
lemma moved_memcpy {de sr cn : ℕ} (hf : de ≤ sr ∨ sr + cn ≤ de) (m : Mem) :
    Moved m de sr cn (fun j => m.byte (sr + j)) 0 cn (memcpy de sr cn m) := by
  refine blockwise_rule (Moved m de sr cn (fun j => m.byte (sr + j)) 0) (fun k m' hk h => ?_)
    (fun k m' hk h => ?_) (.refl 0) de _
  all_goals exact h.copy hk (fun i => by omega) fun j hj => by omega

lemma moved_backLoop {de sr t : ℕ} (hlt : sr < de) {m : Mem} (cn : ℕ) {m' : Mem}
    (hle : cn ≤ t) (h : Moved m de sr t (fun j => m.byte (sr + j)) cn t m') :
    Moved m de sr t (fun j => m.byte (sr + j)) 0 t (backLoop de sr cn m') := by
  induction cn generalizing m' with
  | zero => exact h
  | succ cn ih => exact ih (by omega) (h.copy hle (fun i => by omega) fun j hj => by omega)

/-- Each byte of the word is the byte. -/
lemma ofNat_pattern (bt : UInt8) {j : ℕ} (hj : j < 8) :
    UInt8.ofNat (pattern bt.toNat >>> (8 * j)) = bt := by
  have h : ∀ (b : Fin 256) (j : Fin 8), pattern b >>> (8 * j.val) % 2 ^ 8 = b := by decide +kernel
  rw [← UInt8.toNat_inj, UInt8.toNat_ofNat']
  exact h ⟨bt.toNat, bt.toNat_lt⟩ ⟨j, hj⟩

/-- The bytes of the destination become the value, or the bytes the source had. -/
theorem memory_functions_bytewise (m : Mem) (dest src count : ℕ) (value : ℤ) :
    Moved m dest dest count (fun _ => UInt8.ofInt value) 0 count (memset dest value count m) ∧
    (dest + count ≤ src ∨ src + count ≤ dest →
      Moved m dest src count (fun j => m.byte (src + j)) 0 count (memcpy dest src count m)) ∧
    Moved m dest src count (fun j => m.byte (src + j)) 0 count (memmove dest src count m) := by
  refine ⟨?_, fun ha => moved_memcpy (by omega) m, ?_⟩
  · refine blockwise_rule (Moved m dest dest count (fun _ => UInt8.ofInt value) 0)
      (fun k m' hk h => ?_) (fun k m' hk h => ?_) (.refl 0) dest _
    · exact h.store hk (fun i => by omega) fun j hj => rfl
    · exact h.store hk (fun i => by omega) fun j hj => ofNat_pattern _ hj
  rw [memmove]
  split_ifs with hsa hlt
  · rcases hsa with rfl | rfl
    · refine ⟨fun x => ?_, fun _ => .inl, fun _ => .inl⟩
      split_ifs with hx
      · rw [Nat.add_sub_cancel' (by omega)]
      · rfl
    · exact .refl 0
  · exact moved_memcpy (.inl hlt.le) m
  · exact moved_backLoop (by omega) count le_rfl (.refl count)
end Menios.Libc
