import Mathlib

/-!
# Loops over a range

A C `for` loop over `0 … n - 1` is a `foldlM` over `List.range n`: in `Except` when
the body may return from the function, in `Option` when it may have no result.
The rules below carry an invariant through such a loop.
-/

namespace Menios.Common
open List
variable {σ ε : Type*}
/-- The outcome of a loop: the loop went on to a state with `Inv`, or its body left
the function with a value in `Exit`. -/
inductive Outcome (Inv : σ → Prop) (Exit : ε → Prop) : Except ε σ → Prop
  | ok {s : σ} (h : Inv s) : Outcome Inv Exit (.ok s)
  | error {e : ε} (h : Exit e) : Outcome Inv Exit (.error e)

lemma foldl_range {f : σ → ℕ → σ} (Inv : ℕ → σ → Prop) {s : σ} (n : ℕ) (h : Inv 0 s)
    (hst : ∀ i s, i < n → Inv i s → Inv (i + 1) (f s i)) : Inv n ((range n).foldl f s) := by
  induction n with
  | zero => exact h
  | succ n ih =>
    rw [range_succ, foldl_append]
    exact hst n _ (Nat.lt_succ_self n) (ih fun i s hi => hst i s (Nat.lt_succ_of_lt hi))

lemma foldlM_range_outcome {f : σ → ℕ → Except ε σ} (Inv : ℕ → σ → Prop) {Exit : ε → Prop}
    {s : σ} (n : ℕ) (hin : Inv 0 s)
    (hst : ∀ i s, i < n → Inv i s → Outcome (Inv (i + 1)) Exit (f s i)) :
    Outcome (Inv n) Exit ((range n).foldlM f s) := by
  induction n with
  | zero => exact .ok hin
  | succ n ih =>
    have hp := ih fun i s hi => hst i s (Nat.lt_succ_of_lt hi)
    rw [range_succ, foldlM_append]
    generalize (range n).foldlM f s = result at hp
    cases hp with
    | error h => exact .error h
    | @ok s' h =>
      have := hst n s' (Nat.lt_succ_self n) h
      show Outcome _ _ ([n].foldlM f s')
      simpa [foldlM] using this

lemma foldlM_range_some {f : σ → ℕ → Option σ} (Inv : ℕ → σ → Prop) {s : σ} (n : ℕ)
    (hin : Inv 0 s) (hst : ∀ i s, i < n → Inv i s → ∃ s', f s i = some s' ∧ Inv (i + 1) s') :
    ∃ s', (range n).foldlM f s = some s' ∧ Inv n s' := by
  induction n with
  | zero => exact ⟨s, rfl, hin⟩
  | succ n ih =>
    obtain ⟨s', hs', hinv⟩ := ih fun i s hi => hst i s (Nat.lt_succ_of_lt hi)
    obtain ⟨s'', hs'', hi'⟩ := hst n s' (Nat.lt_succ_self n) hinv
    refine ⟨s'', ?_, hi'⟩
    rw [range_succ, foldlM_append, hs']
    show [n].foldlM f s' = some s''
    simp [hs'']

lemma foldlM_some {α : Type*} {f : σ → α → Option σ} (Inv : σ → Prop) {s : σ} (l : List α)
    (hin : Inv s) (hst : ∀ a s, Inv s → ∃ s', f s a = some s' ∧ Inv s') :
    ∃ s', l.foldlM f s = some s' ∧ Inv s' := by
  induction l generalizing s with
  | nil => exact ⟨s, rfl, hin⟩
  | cons a l ih =>
    obtain ⟨s', hs', hinv⟩ := hst a s hin
    obtain ⟨s'', hs'', hi'⟩ := ih hinv
    refine ⟨s'', ?_, hi'⟩
    rw [foldlM_cons, hs']
    exact hs''

lemma foldlM_inv {α : Type*} {f : σ → α → Option σ} (Inv : σ → Prop) {s s' : σ} {l : List α}
    (hin : Inv s) (hst : ∀ a s s', Inv s → f s a = some s' → Inv s')
    (h : l.foldlM f s = some s') : Inv s' := by
  induction l generalizing s with
  | nil => exact Option.some.inj h ▸ hin
  | cons a l ih =>
    rw [foldlM_cons] at h
    obtain ⟨s1, hs1, hr⟩ := Option.bind_eq_some_iff.1 h
    exact ih (hst a s s1 hin hs1) hr
end Menios.Common
