import Mathlib

/-!
# Byte strings and their pieces

A C string is modelled as the list of its bytes before the terminating NUL.
`pieces p s` are the maximal runs of bytes of `s` that do not satisfy the
separator test `p`; the loops of a tokenizer peel them off from the left
(`pieces_eq_cons`).
-/

namespace Menios.Common
open List

/-- A C string, without its terminating NUL. -/
abbrev CString := List UInt8

section
variable {α : Type*} (p : α → Bool)
/-- The non-empty pieces of a list cut at every element that satisfies `p`. -/
def pieces (s : List α) : List (List α) := (s.splitOnP p).filter fun piece => !piece.isEmpty

@[simp] lemma pieces_nil : pieces p [] = [] := by simp [pieces]

lemma pieces_cons_sep {a : α} (ha : p a = true) (s : List α) : pieces p (a :: s) = pieces p s := by
  simp [pieces, splitOnP_cons_eq_if_modifyHead, ha]

lemma pieces_dropWhile (s : List α) : pieces p (s.dropWhile p) = pieces p s := by
  induction s with
  | nil => rfl
  | cons a s ih =>
    by_cases ha : p a = true
    · rw [dropWhile_cons_of_pos ha, ih, pieces_cons_sep p ha]
    · rw [dropWhile_cons_of_neg ha]

lemma pieces_append_sep (s t : List α) {a : α} (ha : p a = true) :
    pieces p (s ++ a :: t) = pieces p s ++ pieces p t := by
  simp only [pieces]
  rw [splitOnP_append_cons _ _ ha, filter_append]

lemma pieces_of_forall {s : List α} (hs : ∀ a ∈ s, p a = false) (h0 : s ≠ []) :
    pieces p s = [s] := by
  have h1 : s.splitOnP p = [s] := splitOnP_eq_singleton hs
  simp [pieces, h1, h0]

/-- One turn of a tokenizer: skip the piece at the front and the separators
after it. -/
theorem pieces_eq_cons (s : List α) :
    pieces p s = (if s.takeWhile (!p ·) = [] then [] else [s.takeWhile (!p ·)]) ++
      pieces p ((s.dropWhile (!p ·)).dropWhile p) := by
  rw [pieces_dropWhile]
  have hs : ∀ a ∈ s.takeWhile (!p ·), p a = false := fun a ha => by
    have := mem_takeWhile_imp ha
    simpa using this
  have hone : pieces p (s.takeWhile (!p ·)) =
      if s.takeWhile (!p ·) = [] then [] else [s.takeWhile (!p ·)] := by
    split_ifs with h0
    · rw [h0, pieces_nil]
    · exact pieces_of_forall p hs h0
  conv_lhs => rw [← takeWhile_append_dropWhile (p := (!p ·)) (l := s)]
  cases hd : s.dropWhile (!p ·) with
  | nil => rw [append_nil, pieces_nil, append_nil, hone]
  | cons a t =>
    have ha : p a = true := by
      have := List.head?_dropWhile_not (!p ·) s
      rw [hd] at this
      simpa using this
    rw [pieces_append_sep p _ _ ha, hone, pieces_cons_sep p ha]

lemma mem_pieces : ∀ {s pi : List α}, pi ∈ pieces p s → pi ≠ [] ∧ ∀ a ∈ pi, p a = false := by
  intro s
  induction hn : s.length using Nat.strong_induction_on generalizing s with
  | _ n ih =>
    intro pi h
    cases s with
    | nil => simp at h
    | cons a s =>
      by_cases ha : p a = true
      · rw [pieces_cons_sep p ha] at h
        exact ih s.length (by simp at hn; omega) rfl h
      rw [pieces_eq_cons, takeWhile_cons_of_pos (by simpa using ha)] at h
      simp only [reduceCtorEq, if_false, singleton_append, mem_cons] at h
      rcases h with rfl | h
      · refine ⟨by simp, fun b hb => ?_⟩
        rcases mem_cons.1 hb with rfl | hb
        · simpa using ha
        · simpa using mem_takeWhile_imp hb
      refine ih _ ?_ rfl h
      rw [dropWhile_cons_of_pos (by simpa using ha)]
      have := length_dropWhile_le p (s.dropWhile (!p ·))
      have := length_dropWhile_le (!p ·) s
      simp at hn
      omega
end
end Menios.Common
