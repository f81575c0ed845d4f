import Mathlib

/-!
# Linked chains and who owns them

A table `link` says for every cell whether it is free, ends a chain, or leads
to another cell. `IsChain link l` says that the cells of `l` are linked one to
the next and end properly. `Owned link cell own` says that the chains `own i`
are pairwise disjoint and that every other cell is free: nothing is shared and
nothing is leaked.

Results:

* `IsChain.nodup`, `IsChain.unique`: a chain visits no cell twice, and its first
  cell determines it.
* `Owned.not_mem_of_free`: a free cell has no owner.
-/

namespace Menios.Common
open List

/-- What a table says about a cell. -/
inductive Link (α : Type*) where
  | free
  | last
  | next (a : α)
  | broken
  deriving DecidableEq

section
variable {α : Type*}
/-- The cells of `l` are linked one to the next, and the last one ends the chain. -/
inductive IsChain (link : α → Link α) : List α → Prop where
  | last {a : α} : link a = .last → IsChain link [a]
  | cons {a b : α} {l : List α} : link a = .next b → IsChain link (b :: l) →
      IsChain link (a :: b :: l)

namespace IsChain
variable {ln l' : α → Link α} {l l1 l2 : List α} {a b : α}
section
variable (h : IsChain ln l)
include h
lemma ne_nil : l ≠ [] := by cases h <;> simp

lemma link_ne_free (ha : a ∈ l) : ln a ≠ .free := by
  induction h with
  | last h0 =>
    rw [mem_singleton.1 ha, h0]
    simp
  | cons h0 _ ih =>
    rcases mem_cons.1 ha with rfl | ha
    · rw [h0]; simp
    · exact ih ha

lemma link_ne_broken (ha : a ∈ l) : ln a ≠ .broken := by
  induction h with
  | last h0 =>
    rw [mem_singleton.1 ha, h0]
    simp
  | cons h0 _ ih =>
    rcases mem_cons.1 ha with rfl | ha
    · rw [h0]; simp
    · exact ih ha

lemma link_getLastD (d : α) : ln (l.getLastD d) = .last := by
  induction h generalizing d with
  | last h => exact h
  | cons _ _ ih => exact ih d

lemma congr (he : ∀ a ∈ l, l' a = ln a) : IsChain l' l := by
  induction h with
  | last h0 => exact .last (by rw [he _ (by simp), h0])
  | cons h0 _ ih =>
    exact .cons (by rw [he _ (by simp), h0]) (ih fun a ha => he a (mem_cons_of_mem _ ha))
end

/-- The first cell determines the chain. -/
theorem unique (h1 : IsChain ln (a :: l1)) (h2 : IsChain ln (a :: l2)) : l1 = l2 := by
  induction l1 generalizing a l2 with
  | nil =>
    cases h1 with
    | last h0 =>
      cases h2 with
      | last _ => rfl
      | cons h0' _ => rw [h0] at h0'; simp at h0'
  | cons b l1 ih =>
    cases h1 with
    | cons h0 h1 =>
      cases h2 with
      | last h0' => rw [h0] at h0'; simp at h0'
      | cons h0' h2 =>
        rw [h0, Link.next.injEq] at h0'
        subst h0'
        rw [ih h1 h2]

lemma suffix : ∀ {l1 : List α}, IsChain ln (l1 ++ a :: l2) → IsChain ln (a :: l2) := by
  intro l1
  induction l1 with
  | nil => exact id
  | cons b l1 ih =>
    intro h
    apply ih
    cases l1 with
    | nil => cases h with | cons _ h => exact h
    | cons c l1 => cases h with | cons _ h => exact h

/-- A chain visits no cell twice. -/
theorem nodup (h : IsChain ln l) : l.Nodup := by
  induction h with
  | last _ => simp
  | @cons a b l h0 h ih =>
    refine nodup_cons.2 ⟨fun hmem => ?_, ih⟩
    -- a second visit would start the same chain again, further right
    obtain ⟨l1, l2, hl⟩ := append_of_mem hmem
    have h2 : IsChain ln (a :: l2) := by
      rw [hl] at h
      exact h.suffix
    have hlen := congrArg List.length ((IsChain.cons h0 h).unique h2)
    rw [hl] at hlen
    simp at hlen
    omega

lemma link_of_append (h : IsChain ln (l1 ++ a :: b :: l2)) : ln a = .next b := by
  have h := h.suffix
  cases h with
  | cons h0 _ => exact h0

/-- Replace what follows the cell `a` of a chain. -/
lemma splice : ∀ {l1 : List α}, IsChain ln (l1 ++ a :: l2) → (∀ c ∈ l1, l' c = ln c) →
    ∀ {l : List α}, IsChain l' (a :: l) → IsChain l' (l1 ++ a :: l) := by
  intro l1
  induction l1 with
  | nil => intro _ _ l h; exact h
  | cons b l1 ih =>
    intro h he l hl
    have hb := he b (by simp)
    cases l1 with
    | nil =>
      cases h with
      | cons h0 _ => exact .cons (by rw [hb, h0]) hl
    | cons c l1 =>
      cases h with
      | cons h0 h =>
        exact .cons (by rw [hb, h0]) (ih h (fun x hx => he x (mem_cons_of_mem _ hx)) hl)

lemma append (h : IsChain ln (l1 ++ [a])) (he : ∀ c ∈ l1, l' c = ln c)
    (ha : l' a = .next b) (hb : IsChain l' (b :: l2)) : IsChain l' (l1 ++ a :: b :: l2) :=
  h.splice he (.cons ha hb)

lemma concat [DecidableEq α] (h : l = [] ∨ IsChain ln l) (hb : l' b = .last)
    (hl : ∀ c ∈ l, l' c = if l.getLast? = some c then .next b else ln c) :
    IsChain l' (l ++ [b]) := by
  rcases h with rfl | h
  · exact .last hb
  have hnd := h.nodup
  rcases eq_nil_or_concat l with rfl | ⟨l1, a, rfl⟩
  · exact absurd rfl h.ne_nil
  rw [concat_eq_append] at *
  have hne : ∀ c ∈ l1, c ≠ a := by
    intro c hc hca
    have := (nodup_append.1 hnd).2.2
    exact this c hc a (by simp) hca
  rw [append_assoc]
  refine h.append (fun c hc => ?_) ?_ (.last hb)
  · rw [hl c (by simp [hc]), if_neg (by simpa using (hne c hc).symm)]
  · rw [hl a (by simp), if_pos (by simp)]

lemma truncate (h : IsChain ln (l1 ++ a :: l2)) (he : ∀ c ∈ l1, l' c = ln c)
    (ha : l' a = .last) : IsChain l' (l1 ++ [a]) :=
  h.splice he (.last ha)
end IsChain

/-! ## Owners -/
variable {ι : Type*} {link : α → Link α} {cell : α → Prop} {own : ι → List α}
/-- Every owner has a chain or nothing, no cell has two owners, and a cell
without an owner is free. -/
structure Owned (link : α → Link α) (cell : α → Prop) (own : ι → List α) : Prop where
  chain : ∀ i, own i = [] ∨ IsChain link (own i)
  disjoint : ∀ i j, i ≠ j → ∀ a ∈ own i, a ∉ own j
  free : ∀ a, cell a → (∀ i, a ∉ own i) → link a = .free

namespace Owned
lemma isChain (h : Owned link cell own) {i : ι} {a : α} (ha : a ∈ own i) :
    IsChain link (own i) := by
  rcases h.chain i with h0 | h0
  · rw [h0] at ha; simp at ha
  · exact h0

theorem not_mem_of_free (h : Owned link cell own) {a : α} (ha : link a = .free) (i : ι) :
    a ∉ own i :=
  fun hmem => (h.isChain hmem).link_ne_free hmem ha
end Owned
end
end Menios.Common
