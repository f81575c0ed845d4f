import Menios.Common.Loop

/-!
# Sorting and searching

`swap_elements`, `qsort` and `bsearch` of `user/libc/stdlib.c` (lines 1874-1930), over the bytes of
a memory. The array starts at `base` and has `nmemb` elements of `size` bytes.

Results:

* `elem_swapElements`: two elements are exchanged.
* `qsort_spec`: the elements are permuted and in order, and nothing else has changed.
* `bsearchLoop_spec`: an element that is equal to the key is found, in logarithmic time.
-/

namespace Menios.Libc
open List Function Common

/-- `swap_elements`. -/
def swapElements (size a b : ℕ) (m : ℕ → UInt8) : ℕ → UInt8 :=
  (range size).foldl (fun m i => update (update m (a + i) (m (b + i))) (b + i) (m (a + i))) m

variable {size : ℕ}
/-- The contents of an element. -/
def elem (size base : ℕ) (m : ℕ → UInt8) (i : ℕ) : Fin size → UInt8 := fun k => m (base + i * size + k)

section
variable {α : Type*} (compar : α → α → ℤ)
/-- The inner loop of `qsort`; its variable is `i + 1 + k`. -/
def minIndex (e : ℕ → α) (nmemb i : ℕ) : ℕ :=
  (range (nmemb - (i + 1))).foldl
    (fun min k => if compar (e (i + 1 + k)) (e min) < 0 then i + 1 + k else min) i

/-- The comparator is a total preorder. -/
structure IsPreorder : Prop where
  flip : ∀ x y, compar x y < 0 ↔ 0 < compar y x
  trans : ∀ {x y z}, compar x y ≤ 0 → compar y z ≤ 0 → compar x z ≤ 0
end

variable (compar : (Fin size → UInt8) → (Fin size → UInt8) → ℤ) (base nmemb : ℕ)
/-- The body of the outer loop of `qsort`. -/
def qsortStep (m : ℕ → UInt8) (i : ℕ) : ℕ → UInt8 :=
  let min := minIndex compar (elem size base m) nmemb i
  if min ≠ i then swapElements size (base + i * size) (base + min * size) m else m

/-- `qsort`. -/
def qsort (m : ℕ → UInt8) : ℕ → UInt8 :=
  if size = 0 then m else (range nmemb).foldl (qsortStep compar base nmemb) m

/-- The loop of `bsearch`, where `cmp i` is the comparison of the key with element `i`: what is
found, and the number of comparisons. -/
def bsearchLoop (cmp : ℕ → ℤ) : ℕ → ℕ → ℕ → Option (Option ℕ × ℕ)
  | 0, _, _ => none
  | fuel + 1, low, high =>
    if low < high then
      let mid := low + (high - low) / 2
      if cmp mid < 0 then (bsearchLoop cmp fuel low mid).map (Prod.map id Nat.succ)
      else if 0 < cmp mid then (bsearchLoop cmp fuel (mid + 1) high).map (Prod.map id Nat.succ)
      else some (some mid, 1)
    else some (none, 0)

/-- `bsearch`. Each turn makes the interval smaller. -/
def bsearch (key : Fin size → UInt8) (m : ℕ → UInt8) : Option (Option ℕ × ℕ) :=
  if size = 0 then some (none, 0)
  else bsearchLoop (fun i => compar key (elem size base m i)) (nmemb + 2) 0 nmemb

variable {compar base nmemb}
/-! ## The exchange of two elements -/

lemma swapElements_apply {a b : ℕ} (hab : a + size ≤ b ∨ b + size ≤ a) (m : ℕ → UInt8) (x : ℕ) :
    swapElements size a b m x = if a ≤ x ∧ x < a + size then m (b + (x - a))
      else if b ≤ x ∧ x < b + size then m (a + (x - b)) else m x := by
  -- after `n` turns the first `n` bytes are exchanged
  refine foldl_range (fun n (m' : ℕ → UInt8) => ∀ x, m' x = if a ≤ x ∧ x < a + n then m (b + (x - a))
    else if b ≤ x ∧ x < b + n then m (a + (x - b)) else m x) size (fun x => ?_)
    (fun n m' hn h x => ?_) x
  · rw [if_neg (by omega), if_neg (by omega)]
  simp only [update_apply, h]
  split_ifs <;> first | omega | (congr 1; omega) | rfl

lemma le_mul_of_lt {i j : ℕ} (h : i < j) (size : ℕ) : i * size + size ≤ j * size := by
  rw [← Nat.succ_mul]
  exact Nat.mul_le_mul_right size h

lemma elem_swapElements (size base : ℕ) {i j : ℕ} (hij : i ≠ j) (m : ℕ → UInt8) (k : ℕ) :
    elem size base (swapElements size (base + i * size) (base + j * size) m) k =
      elem size base m (Equiv.swap i j k) := by
  have ha : ∀ {a b : ℕ}, a ≠ b → a * size + size ≤ b * size ∨ b * size + size ≤ a * size :=
    fun hab => (Nat.lt_or_gt_of_ne hab).imp (le_mul_of_lt · size) (le_mul_of_lt · size)
  funext x
  have := x.isLt
  have := ha hij
  rw [elem, swapElements_apply (by omega)]
  by_cases hi : k = i
  · subst hi
    rw [if_pos (by omega), Equiv.swap_apply_left, elem]
    congr 1
    omega
  have := ha hi
  rw [if_neg (by omega)]
  by_cases hj : k = j
  · subst hj
    rw [if_pos (by omega), Equiv.swap_apply_right, elem]
    congr 1
    omega
  have := ha hj
  rw [if_neg (by omega), Equiv.swap_apply_of_ne_of_ne hi hj, elem]

/-! ## The sorted array -/

lemma minIndex_spec {α : Type*} {compar : α → α → ℤ} (hc : IsPreorder compar) (e : ℕ → α) {i : ℕ}
    (hi : i < nmemb) : i ≤ minIndex compar e nmemb i ∧ minIndex compar e nmemb i < nmemb ∧
      ∀ j, i ≤ j → j < nmemb → compar (e (minIndex compar e nmemb i)) (e j) ≤ 0 := by
  have hse : ∀ x, compar x x ≤ 0 := fun x => by
    have := hc.flip x x
    omega
  -- the minimum of the elements from `i` up to `i + n`
  obtain ⟨h1, h2, h3⟩ := foldl_range (fun n m => i ≤ m ∧ m ≤ i + n ∧
      ∀ j, i ≤ j → j ≤ i + n → compar (e m) (e j) ≤ 0) (nmemb - (i + 1))
    (f := fun m k => if compar (e (i + 1 + k)) (e m) < 0 then i + 1 + k else m) (s := i)
    ⟨le_rfl, le_rfl, fun j h1 h2 => by rw [le_antisymm h2 h1]; exact hse _⟩
    fun n m hn ⟨h1, h2, h3⟩ => by
      split_ifs with hlt
      · refine ⟨by omega, by omega, fun j hij hj => ?_⟩
        rcases Nat.lt_or_ge (i + n) j with hgt | hle
        · obtain rfl : j = i + 1 + n := by omega
          exact hse _
        · exact hc.trans hlt.le (h3 j hij hle)
      refine ⟨h1, by omega, fun j hij hj => ?_⟩
      rcases Nat.lt_or_ge (i + n) j with hgt | hle
      · obtain rfl : j = i + 1 + n := by omega
        have := hc.flip (e (i + 1 + n)) (e m)
        have := hc.flip (e m) (e (i + 1 + n))
        omega
      · exact h3 j hij hle
  exact ⟨h1, by rw [minIndex]; omega, fun j hij hj => h3 j hij (by omega)⟩

variable (compar base nmemb) in
/-- After `i` turns: the elements are permuted, the first `i` are in order and not larger than
those behind, and the bytes outside the array are as before. (`outside` is about
writes only.) -/
structure Sorting (m : ℕ → UInt8) (i : ℕ) (m' : ℕ → UInt8) : Prop where
  perm : ∃ σ : Equiv.Perm ℕ, (∀ j, nmemb ≤ j → σ j = j) ∧
    ∀ j, elem size base m' j = elem size base m (σ j)
  sorted : ∀ a b, a < i → a ≤ b → b < nmemb →
    compar (elem size base m' a) (elem size base m' b) ≤ 0
  outside : ∀ x, x < base ∨ base + nmemb * size ≤ x → m' x = m x

lemma Sorting.step (hc : IsPreorder compar) {m m' : ℕ → UInt8} {i : ℕ} (hi : i < nmemb)
    (h : Sorting compar base nmemb m i m') :
    Sorting compar base nmemb m (i + 1) (qsortStep compar base nmemb m' i) := by
  obtain ⟨h1, h2, h3⟩ := minIndex_spec hc (elem size base m') hi
  obtain ⟨σ, hf, hσ⟩ := h.perm
  rw [qsortStep]
  generalize minIndex compar (elem size base m') nmemb i = min at h1 h2 h3
  split_ifs with hne
  · have he := elem_swapElements size base (Ne.symm hne) m'
    have hin : ∀ b, i ≤ b → b < nmemb → i ≤ Equiv.swap i min b ∧ Equiv.swap i min b < nmemb := by
      intro b hib hb
      rw [Equiv.swap_apply_def]
      split_ifs <;> omega
    refine ⟨⟨(Equiv.swap i min).trans σ, fun j hj => ?_, fun j => ?_⟩, fun a b ha hab hb => ?_,
      fun x hx => ?_⟩
    · rw [Equiv.trans_apply, Equiv.swap_apply_of_ne_of_ne (by omega) (by omega), hf j hj]
    · rw [he, hσ, Equiv.trans_apply]
    · rw [he, he]
      rcases Nat.lt_succ_iff_lt_or_eq.1 ha with ha | rfl
      · rw [Equiv.swap_apply_of_ne_of_ne (by omega) (by omega)]
        by_cases hib : i ≤ b
        · exact h.sorted a _ ha (by have := hin b hib hb; omega) (hin b hib hb).2
        · rw [Equiv.swap_apply_of_ne_of_ne (by omega) (by omega)]
          exact h.sorted a b ha hab hb
      · rw [Equiv.swap_apply_left]
        exact h3 _ (hin b hab hb).1 (hin b hab hb).2
    · have := le_mul_of_lt hi size
      have := le_mul_of_lt h2 size
      have := le_mul_of_lt (show i < min by omega) size
      rw [swapElements_apply (by omega), if_neg (by omega), if_neg (by omega), h.outside x hx]
  obtain rfl := not_ne_iff.1 hne
  refine { h with sorted := fun a b ha hab hb => ?_ }
  rcases Nat.lt_succ_iff_lt_or_eq.1 ha with ha | rfl
  · exact h.sorted a b ha hab hb
  · exact h3 b hab hb

lemma qsort_spec (hc : IsPreorder compar) (hsize : 0 < size) (m : ℕ → UInt8) :
    Sorting compar base nmemb m nmemb (qsort compar base nmemb m) := by
  rw [qsort, if_neg hsize.ne']
  refine foldl_range (Sorting compar base nmemb m) nmemb ?_ fun i m' hi h => h.step hc hi
  exact ⟨⟨.refl ℕ, by simp, fun _ => rfl⟩, by simp, fun _ _ => rfl⟩

/-! ## The search -/

/-- An interval of less than `2^k` elements takes at most `k` comparisons. -/
lemma bsearchLoop_spec {c : ℕ → ℤ} (hm : ∀ i j, i ≤ j → j < nmemb →
      (c i < 0 → c j < 0) ∧ (0 < c j → 0 < c i)) (k : ℕ)
    {f low hg : ℕ} (hf : k < f) (hh : hg ≤ nmemb) (hk : hg - low < 2 ^ k) :
    ∃ r n, bsearchLoop c f low hg = some (r, n) ∧ n ≤ k ∧ (∀ i, r = some i → i < nmemb ∧ c i = 0) ∧
      (r = none → ∀ i, low ≤ i → i < hg → c i ≠ 0) := by
  obtain ⟨f, rfl⟩ := Nat.exists_eq_succ_of_ne_zero (Nat.ne_zero_of_lt hf)
  induction k generalizing f low hg with
  | zero =>
    rw [bsearchLoop, if_neg (by omega)]
    exact ⟨none, 0, rfl, le_rfl, nofun, fun _ i h1 h2 => by omega⟩
  | succ k ih =>
    rw [Nat.pow_succ] at hk
    obtain ⟨f, rfl⟩ := Nat.exists_eq_succ_of_ne_zero (show f ≠ 0 by omega)
    rw [bsearchLoop]
    split_ifs with hl
    · dsimp only
      generalize hmid : low + (hg - low) / 2 = mid
      split_ifs with hlt hgt
      · obtain ⟨r, n, hr, hn, hso, hno⟩ := ih (show mid ≤ nmemb by omega)
          (show mid - low < 2 ^ k by omega) f (by omega)
        refine ⟨r, n + 1, by rw [hr]; rfl, by omega, hso, fun h i h1 h2 => ?_⟩
        by_cases hi : i < mid
        · exact hno h i h1 hi
        · exact ((hm mid i (by omega) (by omega)).1 hlt).ne
      · obtain ⟨r, n, hr, hn, hso, hno⟩ := ih hh (show hg - (mid + 1) < 2 ^ k by omega) f (by omega)
        refine ⟨r, n + 1, by rw [hr]; rfl, by omega, hso, fun h i h1 h2 => ?_⟩
        by_cases hi : mid < i
        · exact hno h i hi h2
        · exact ((hm i mid (by omega) (by omega)).2 hgt).ne'
      · exact ⟨some mid, 1, rfl, by omega, fun i hi => by cases hi; omega, nofun⟩
    · exact ⟨none, 0, rfl, by omega, nofun, fun _ i h1 h2 => by omega⟩

/-- `qsort` permutes the elements so that they are in order, and changes no other byte. In an array
that is in order `bsearch` finds an element equal to the key if there is one. -/
theorem qsort_sorts_bsearch_finds (hc : IsPreorder compar) (hsize : 0 < size) (m : ℕ → UInt8) :
    Sorting compar base nmemb m nmemb (qsort compar base nmemb m) ∧
    ((∀ a b, a ≤ b → b < nmemb → compar (elem size base m a) (elem size base m b) ≤ 0) → ∀ key,
      ∃ r n, bsearch compar base nmemb key m = some (r, n) ∧ n ≤ Nat.log 2 nmemb + 1 ∧
        (∀ i, r = some i → i < nmemb ∧ compar key (elem size base m i) = 0) ∧
        (r = none → ∀ i < nmemb, compar key (elem size base m i) ≠ 0)) := by
  refine ⟨qsort_spec hc hsize m, fun hm key => ?_⟩
  rw [bsearch, if_neg hsize.ne']
  generalize elem size base m = e at hm ⊢
  have hmo : ∀ i j, i ≤ j → j < nmemb → (compar key (e i) < 0 → compar key (e j) < 0) ∧
      (0 < compar key (e j) → 0 < compar key (e i)) := by
    intro i j hij hj
    have := hc.flip (e j) key
    have := hc.flip key (e j)
    have := hc.flip key (e i)
    have := @hc.trans (e i) (e j) key (hm i j hij hj)
    have := @hc.trans key (e i) (e j)
    have := hm i j hij hj
    constructor <;> intro <;> omega
  have := Nat.log_le_self 2 nmemb
  obtain ⟨r, n, hr, hn, hso, hno⟩ := bsearchLoop_spec hmo (Nat.log 2 nmemb + 1)
    (show _ < nmemb + 2 by omega) le_rfl (show nmemb - 0 < _ from Nat.lt_pow_succ_log_self (by decide) _)
  exact ⟨r, n, hr, hn, hso, fun h i hi => hno h i (Nat.zero_le i) hi⟩

/-- The order of single bytes. -/
def byteOrder (x y : Fin 1 → UInt8) : ℤ := (x 0).toNat - (y 0).toNat

theorem qsort_sorts_bytes : Sorting byteOrder 0 2 (fun i => if i = 0 then 5 else 3) 2
    (qsort byteOrder 0 2 fun i => if i = 0 then 5 else 3) :=
  (qsort_sorts_bsearch_finds ⟨fun x y => by simp only [byteOrder]; omega,
    fun h1 h2 => by simp only [byteOrder] at *; omega⟩ (by decide) _).1
end Menios.Libc
