import Mathlib

/-!
# Trees of tables in a memory

A memory holds tables of entries, and an entry may refer to a table one level
below: `next level entry` is its address. A path of indices leads from a root
through such entries. The lemmas say what a change of one entry or of one table
does to the tables at the ends of paths.
-/

namespace Menios.Common.Radix
open Function
variable {α ι ε : Type*} (next : ℕ → ε → Option α)
/-- The table that `path` leads to from table `t` at level `level`. -/
def descend (mem : α → ι → ε) : ℕ → α → List ι → Option α
  | _, t, [] => some t
  | level, t, i :: path => (next level (mem t i)).bind fun t' => descend mem (level + 1) t' path

variable {next}
lemma descend_append (mem : α → ι → ε) (l : ℕ) (t : α) (p r : List ι) :
    descend next mem l t (p ++ r) =
      (descend next mem l t p).bind fun t' => descend next mem (l + p.length) t' r := by
  induction p generalizing l t with
  | nil => rfl
  | cons i p ih =>
    simp only [List.cons_append, descend, List.length_cons, Option.bind_assoc]
    congr 1
    funext t'
    rw [ih, Nat.add_assoc, Nat.add_comm 1]

lemma descend_congr {mem m' : α → ι → ε} {l : ℕ} {t : α} {p : List ι}
    (h : ∀ before i after, p = before ++ i :: after → ∀ t', descend next mem l t before = some t' →
        next (l + before.length) (m' t' i) = next (l + before.length) (mem t' i)) :
    descend next m' l t p = descend next mem l t p := by
  induction p generalizing l t with
  | nil => rfl
  | cons i p ih =>
    have hne : next l (m' t i) = next l (mem t i) := h [] i p rfl t rfl
    simp only [descend, hne]
    cases hn : next l (mem t i) with
    | none => rfl
    | some t' =>
      refine ih fun before j after hp t'' he => ?_
      have := h (i :: before) j after (by rw [hp, List.cons_append]) t''
        (by simp only [descend, hn, Option.bind_some, he])
      rwa [List.length_cons, Nat.add_comm before.length 1, ← Nat.add_assoc] at this

section
variable [DecidableEq α] [DecidableEq ι] (mem : α → ι → ε)
/-- The memory with entry `i` of table `t` replaced. -/
def setEntry (t : α) (i : ι) (e : ε) : α → ι → ε := update mem t (update (mem t) i e)

lemma setEntry_apply (t t' : α) (i i' : ι) (e : ε) :
    setEntry mem t i e t' i' = if t' = t ∧ i' = i then e else mem t' i' := by
  by_cases ht : t' = t
  · subst ht
    by_cases hi : i' = i
    · simp [setEntry, hi]
    · simp [setEntry, hi]
  · simp [setEntry, ht]

lemma setEntry_same (t : α) (i : ι) (e : ε) : setEntry mem t i e t i = e := by simp [setEntry]

lemma setEntry_of_ne {t t' : α} (h : t' ≠ t) (i : ι) (e : ε) : setEntry mem t i e t' = mem t' := by
  simp [setEntry, h]

variable {mem : α → ι → ε}
lemma descend_setEntry_of_next {t : α} {i : ι} {e : ε}
    (h : ∀ l, next l e = next l (mem t i)) (l : ℕ) (r : α) (p : List ι) :
    descend next (setEntry mem t i e) l r p = descend next mem l r p := by
  refine descend_congr fun before j after _ t' _ => ?_
  rw [setEntry_apply]
  split_ifs with he
  · rw [h, he.1, he.2]
  · rfl

lemma descend_setEntry_of_not_through {t : α} {i : ι} {e : ε} {l : ℕ} {r : α} {p : List ι}
    (h : ∀ before after, p = before ++ i :: after → descend next mem l r before ≠ some t) :
    descend next (setEntry mem t i e) l r p = descend next mem l r p := by
  refine descend_congr fun before j after hp t' he => ?_
  rw [setEntry_apply, if_neg]
  rintro ⟨rfl, rfl⟩
  exact h before after hp he

omit [DecidableEq ι] in
lemma descend_update_of_not_visited {t : α} {tb : ι → ε} {l : ℕ}
    {r : α} {p : List ι} (h : ∀ before i after, p = before ++ i :: after →
      descend next mem l r before ≠ some t) : descend next (update mem t tb) l r p =
      descend next mem l r p := by
  refine descend_congr fun before j after hp t' he => ?_
  have hne : t' ≠ t := fun heq => h before j after hp (heq ▸ he)
  rw [update_of_ne hne]
end

/-- The end of a path that goes through the root's entry `i` only depends on that
entry's table. -/
lemma descend_cons_congr {mem : α → ι → ε} {l : ℕ} {t t' : α} {i : ι} (p : List ι)
    (h : next l (mem t i) = next l (mem t' i)) :
    descend next mem l t (i :: p) = descend next mem l t' (i :: p) := by
  simp only [descend, h]

/-- Paths of at most `depth` indices lead to distinct tables. -/
def Distinct (next : ℕ → ε → Option α) (mem : α → ι → ε) (root : α) (depth : ℕ) : Prop :=
  ∀ path path' t, path.length ≤ depth → path'.length ≤ depth →
    descend next mem 0 root path = some t → descend next mem 0 root path' = some t → path = path'
end Menios.Common.Radix
