import Mathlib

/-!
# Tilings by buddies

A range `[0, size)` is cut into blocks. A block of order `k` has `2 ^ k` bytes and starts at a
multiple of its size. Its buddy is the block of the same order at `o ^^^ 2 ^ k`.

Results:

* `buddy_cases`: the buddy lies right behind the block or right before it.
* `Tiling.buddy_starts`: whatever the tiling, a block starts where the buddy of a block would, and
  it is not larger.
* `Tiling.split`, `Tiling.merge`: a block is cut in two; two buddies become one block.
-/

namespace Menios.Common
open Nat Option
variable {o k : ℕ}
/-- The offset of the buddy of a block lies behind it or before it. -/
theorem buddy_cases (h : 2 ^ k ∣ o) : (2 ^ (k + 1) ∣ o ∧ o ^^^ 2 ^ k = o + 2 ^ k) ∨
      (2 ^ k ≤ o ∧ 2 ^ (k + 1) ∣ o - 2 ^ k ∧ o ^^^ 2 ^ k = o - 2 ^ k) := by
  obtain ⟨m, rfl⟩ := h
  have hx : 2 ^ k * m ^^^ 2 ^ k = 2 ^ k * (m ^^^ 1) := by
    have hsh := shiftLeft_xor_distrib (a := m) (b := 1) (i := k)
    rw [shiftLeft_eq, shiftLeft_eq, shiftLeft_eq, Nat.one_mul] at hsh
    rw [Nat.mul_comm _ m, Nat.mul_comm _ (m ^^^ 1), hsh]
  rw [hx, Nat.pow_succ]
  rcases even_or_odd m with hm | hm
  · refine .inl ⟨Nat.mul_dvd_mul_left _ hm.two_dvd, ?_⟩
    rw [xor_one_of_even hm, Nat.mul_add, Nat.mul_one]
  obtain ⟨j, rfl⟩ := hm
  refine .inr ⟨Nat.le_mul_of_pos_right _ (by omega), ⟨j, ?_⟩, ?_⟩
  · rw [Nat.mul_add, Nat.mul_one, Nat.add_sub_cancel, Nat.mul_assoc]
  · rw [xor_one_of_odd ⟨j, rfl⟩, Nat.mul_sub, Nat.mul_one]

lemma buddy_ne (h : 2 ^ k ∣ o) : o ^^^ 2 ^ k ≠ o := by
  rcases buddy_cases h with ⟨-, he⟩ | ⟨hle, -, he⟩ <;> omega

lemma buddy_of_dvd (h : 2 ^ (k + 1) ∣ o) : o ^^^ 2 ^ k = o + 2 ^ k := by
  have hp := Nat.two_pow_pos k
  rcases buddy_cases ((Nat.pow_dvd_pow 2 (le_succ k)).trans h) with ⟨-, he⟩ | ⟨hle, hdvd, -⟩
  · exact he
  have hh : 2 ^ (k + 1) ∣ 2 ^ k := by
    have := Nat.dvd_sub h hdvd
    rwa [show o - (o - 2 ^ k) = 2 ^ k by omega] at this
  have := le_of_dvd hp hh
  rw [Nat.pow_succ] at this
  omega

lemma buddy_buddy (o k : ℕ) : (o ^^^ 2 ^ k) ^^^ 2 ^ k = o := by
  rw [Nat.xor_assoc, Nat.xor_self, xor_zero]

lemma dvd_buddy (h : 2 ^ k ∣ o) : 2 ^ k ∣ o ^^^ 2 ^ k := by
  rcases buddy_cases h with ⟨-, he⟩ | ⟨-, -, he⟩
  · rw [he]
    exact Nat.dvd_add h (Nat.dvd_refl _)
  rw [he]
  exact Nat.dvd_sub h (Nat.dvd_refl _)

lemma buddy_min (h : 2 ^ k ∣ o) : 2 ^ (k + 1) ∣ min o (o ^^^ 2 ^ k) ∧
      (o = min o (o ^^^ 2 ^ k) ∧ o ^^^ 2 ^ k = min o (o ^^^ 2 ^ k) + 2 ^ k ∨
        o ^^^ 2 ^ k = min o (o ^^^ 2 ^ k) ∧ o = min o (o ^^^ 2 ^ k) + 2 ^ k) := by
  rcases buddy_cases h with ⟨hdvd, he⟩ | ⟨hle, hdvd, he⟩
  · rw [he, Nat.min_eq_left (Nat.le_add_right o _)]
    exact ⟨hdvd, .inl ⟨rfl, rfl⟩⟩
  rw [he, Nat.min_eq_right (sub_le o _)]
  exact ⟨hdvd, .inr ⟨rfl, (Nat.sub_add_cancel hle).symm⟩⟩

/-- A multiple of `n` in a block of `n` bytes that starts at a multiple of `n`. -/
lemma eq_of_dvd_of_lt {n o x : ℕ} (ho : n ∣ o) (hx : n ∣ x) (hle : o ≤ x) (hlt : x < o + n) :
    x = o := by
  obtain ⟨d, hd⟩ := Nat.dvd_sub hx ho
  cases d with
  | zero => omega
  | succ d =>
    rw [mul_succ] at hd
    omega

/-- The blocks that tile `[0, size)`: where blocks start, and their orders. -/
structure Tiling (size : ℕ) where
  order : ℕ → Option ℕ
  aligned : ∀ {o k}, order o = some k → 2 ^ k ∣ o
  inside : ∀ {o k}, order o = some k → o + 2 ^ k ≤ size
  apart : ∀ {o k o' k'}, order o = some k → order o' = some k' → o < o' → o + 2 ^ k ≤ o'
  covered : ∀ {x}, x < size → ∃ o k, order o = some k ∧ o ≤ x ∧ x < o + 2 ^ k

namespace Tiling
variable {size o o' k k' : ℕ} (T : Tiling size)
lemma order_eq_none {x : ℕ} (h : T.order o = some k) (hlt : o < x) (hx : x < o + 2 ^ k) :
    T.order x = none := by
  by_contra hne
  obtain ⟨k', hk'⟩ := Option.ne_none_iff_exists'.1 hne
  have := T.apart h hk' hlt
  omega

/-- A block starts where the buddy of a block would, and it is not larger. -/
theorem buddy_starts (h : T.order o = some k) (hsz : o ^^^ 2 ^ k < size) :
    ∃ j, j ≤ k ∧ T.order (o ^^^ 2 ^ k) = some j := by
  obtain ⟨b, hb⟩ : ∃ b, o ^^^ 2 ^ k = b := ⟨_, rfl⟩
  have hbu := buddy_cases (T.aligned h)
  have hdvd := dvd_buddy (T.aligned h)
  rw [hb] at hbu hdvd hsz ⊢
  obtain ⟨o', j, hj, hle, hlt⟩ := T.covered hsz
  by_cases hjk : j ≤ k
  · have he := eq_of_dvd_of_lt (T.aligned hj) ((Nat.pow_dvd_pow 2 hjk).trans hdvd) hle hlt
    exact ⟨j, hjk, he ▸ hj⟩
  -- a larger block would hold the block itself
  exfalso
  have hbig : 2 ^ (k + 1) ∣ 2 ^ j := Nat.pow_dvd_pow 2 (by omega)
  have hst : 2 ^ (k + 1) ∣ o' := hbig.trans (T.aligned hj)
  have hsp : 2 ^ (k + 1) ∣ o' + 2 ^ j := Nat.dvd_add hst hbig
  obtain ⟨hl, hh⟩ : o' ≤ o ∧ o < o' + 2 ^ j := by
    rcases hbu with ⟨hc, he⟩ | ⟨hle', hc, he⟩
    · refine ⟨?_, by omega⟩
      by_contra hno
      have := eq_of_dvd_of_lt hc hst (by omega) (by rw [Nat.pow_succ]; omega)
      omega
    refine ⟨by omega, ?_⟩
    by_contra hno
    have := eq_of_dvd_of_lt hc hsp (by omega) (by rw [Nat.pow_succ]; omega)
    omega
  rcases Nat.lt_or_ge o' o with hl' | hge
  · have := T.apart hj h hl'
    omega
  obtain rfl : o = o' := by omega
  rw [h] at hj
  cases hj
  omega

/-- One block. -/
def single (K : ℕ) : Tiling (2 ^ K) where
  order o := if o = 0 then some K else none
  aligned {o k} h := by
    split_ifs at h with ho
    rw [ho]
    exact Nat.dvd_zero _
  inside {o k} h := by
    split_ifs at h with ho
    rw [ho, some.inj h, Nat.zero_add]
  apart {o k o' k'} h h' hlt := by
    split_ifs at h h' with ho ho'
    omega
  covered {x} hx := ⟨0, K, if_pos rfl, Nat.zero_le x, by omega⟩

/-- A block is cut in two. -/
def split (h : T.order o = some (k + 1)) : Tiling size where
  order x := if x = o + 2 ^ k then some k else if x = o then some k else T.order x
  aligned {x j} hx := by
    have hdvd : 2 ^ k ∣ o := (Nat.pow_dvd_pow 2 (le_succ k)).trans (T.aligned h)
    split_ifs at hx with hright hleft
    · rw [hright, ← some.inj hx]
      exact Nat.dvd_add hdvd (Nat.dvd_refl _)
    · rw [hleft, ← some.inj hx]
      exact hdvd
    · exact T.aligned hx
  inside {x j} hx := by
    have hin := T.inside h
    rw [Nat.pow_succ] at hin
    split_ifs at hx with hright hleft
    · rw [hright, ← some.inj hx]
      omega
    · rw [hleft, ← some.inj hx]
      omega
    · exact T.inside hx
  apart {x j x' j'} hx hx' hlt := by
    have hpow := Nat.two_pow_pos k
    have hdouble := two_pow_succ k
    have hnone := T.order_eq_none h (x := o + 2 ^ k) (by omega) (by omega)
    split_ifs at hx hx' with h1 h2 h3 h4 h5 h6
    · omega
    · omega
    · have := T.apart h hx' (by
        by_contra hno
        omega)
      rw [← some.inj hx]
      omega
    · rw [← some.inj hx]
      omega
    · omega
    · have := T.apart h hx' (by omega)
      rw [← some.inj hx]
      omega
    · have := T.apart hx h (by
        by_contra hno
        have := T.order_eq_none h (x := x) (by omega) (by omega)
        rw [this] at hx
        cases hx)
      omega
    · have := T.apart hx h (by omega)
      omega
    · exact T.apart hx hx' hlt
  covered {x} hx := by
    have hpow := Nat.two_pow_pos k
    have hdouble := two_pow_succ k
    obtain ⟨b, j, hb, hle, hlt⟩ := T.covered hx
    by_cases hbo : b = o
    · subst hbo
      rw [h] at hb
      cases hb
      by_cases hhalf : x < b + 2 ^ k
      · exact ⟨b, k, by rw [if_neg (by omega), if_pos rfl], hle, hhalf⟩
      · exact ⟨b + 2 ^ k, k, if_pos rfl, by omega, by omega⟩
    have hnone := T.order_eq_none h (x := o + 2 ^ k) (by omega) (by omega)
    refine ⟨b, j, ?_, hle, hlt⟩
    rw [if_neg (fun heq => by rw [heq, hnone] at hb; cases hb), if_neg hbo, hb]

/-- Two buddies become one block. -/
def merge (h : T.order o = some k) (h' : T.order (o + 2 ^ k) = some k) (hdvd : 2 ^ (k + 1) ∣ o) :
    Tiling size where
  order x := if x = o + 2 ^ k then none else if x = o then some (k + 1) else T.order x
  aligned {x j} hx := by
    split_ifs at hx with hright hleft
    · rw [hleft, ← some.inj hx]
      exact hdvd
    · exact T.aligned hx
  inside {x j} hx := by
    have hin := T.inside h'
    split_ifs at hx with hright hleft
    · rw [hleft, ← some.inj hx, Nat.pow_succ]
      omega
    · exact T.inside hx
  apart {x j x' j'} hx hx' hlt := by
    have hdouble := two_pow_succ k
    split_ifs at hx hx' with h1 h2 h3 h4 h5
    · omega
    · have hfirst := T.apart h hx' (by omega)
      have := T.apart h' hx' (by omega)
      rw [← some.inj hx]
      omega
    · have := T.apart hx h (by omega)
      omega
    · exact T.apart hx hx' hlt
  covered {x} hx := by
    have hdouble := two_pow_succ k
    have hpow := Nat.two_pow_pos k
    obtain ⟨b, j, hb, hle, hlt⟩ := T.covered hx
    by_cases hbr : b = o + 2 ^ k
    · subst hbr
      rw [h'] at hb
      cases hb
      exact ⟨o, k + 1, by rw [if_neg (by omega), if_pos rfl], by omega, by omega⟩
    by_cases hbo : b = o
    · subst hbo
      rw [h] at hb
      cases hb
      exact ⟨b, k + 1, by rw [if_neg (by omega), if_pos rfl], hle, by omega⟩
    · exact ⟨b, j, by rw [if_neg hbr, if_neg hbo, hb], hle, hlt⟩
end Tiling
end Menios.Common
