import Mathlib

/-!
# Doubly linked lists

Lists that are threaded through the two fields `next` and `prev` of their nodes, with a head that
is kept elsewhere and ends that are NULL. Several lists may share the fields.

Results:

* `Threads.congr`: a list depends on the links of its own nodes only.
* `Threads.pushFront`, `pushFront_of_not_mem`: a node is put before the head; the links of the
  nodes that are not on the list stay.
* `Threads.remove`, `remove_of_not_mem`: a node is taken out.
-/

namespace Menios.Common
open List Function Option

/-- The two fields of the nodes. -/
structure Links (α : Type*) where
  next : α → Option α
  prev : α → Option α

namespace Links
variable {α : Type*} {L L' : Links α} {before head : Option α} {l l1 l2 : List α} {x y : α}
/-! ## Lists -/

/-- The links lead from `head` through the nodes of `l` and back to `before`. -/
def Threads (L : Links α) : Option α → Option α → List α → Prop
  | _, head, [] => head = none
  | before, head, x :: l => head = some x ∧ L.prev x = before ∧ L.Threads (some x) (L.next x) l

lemma Threads.head_eq_none_iff (h : L.Threads before head l) : head = none ↔ l = [] := by
  cases l with
  | nil => exact iff_of_true h rfl
  | cons x l =>
    rw [h.1]
    simp

/-- A list depends on the links of its nodes only. -/
theorem Threads.congr (h : L.Threads before head l)
    (hl : ∀ y ∈ l, L'.next y = L.next y ∧ L'.prev y = L.prev y) : L'.Threads before head l := by
  induction l generalizing before head with
  | nil => exact h
  | cons x l ih =>
    obtain ⟨hne, hp⟩ := hl x (by simp)
    refine ⟨h.1, hp.trans h.2.1, ?_⟩
    rw [hne]
    exact ih h.2.2 fun y hy => hl y (mem_cons_of_mem x hy)

lemma Threads.prev_mem (h : L.Threads before head (l1 ++ x :: l2)) (hl1 : l1 ≠ []) :
    ∃ y ∈ l1, L.prev x = some y := by
  induction l1 generalizing before head with
  | nil => exact absurd rfl hl1
  | cons y l1 ih =>
    cases l1 with
    | nil => exact ⟨y, by simp, h.2.2.2.1⟩
    | cons z l1 =>
      obtain ⟨w, hw, hp⟩ := ih h.2.2 (by simp)
      exact ⟨w, mem_cons_of_mem y hw, hp⟩

lemma Threads.next_mem (h : L.Threads before head (l1 ++ x :: l2)) :
    ∀ y, L.next x = some y → y ∈ l2 := by
  induction l1 generalizing before head with
  | nil =>
    intro y hy
    have hr := h.2.2
    rw [hy] at hr
    cases l2 with
    | nil => cases hr
    | cons z l2 => exact (some.inj hr.1) ▸ mem_cons_self
  | cons z l1 ih => exact ih h.2.2

/-! ## Writes -/
variable [DecidableEq α]
/-- The field `next` of `x` is written. -/
def setNext (L : Links α) (x : α) (v : Option α) : Links α := { L with next := update L.next x v }

/-- The field `prev` of the node that `x` points to is written, if `x` is not NULL. -/
def setPrev (L : Links α) (x : Option α) (v : Option α) : Links α :=
  match x with
  | none => L
  | some x => { L with prev := update L.prev x v }

/-- Both fields of `x` are set to NULL. -/
def clear (L : Links α) (x : α) : Links α := (L.setNext x none).setPrev (some x) none

/-- `x` is put before `head`. -/
def pushFront (L : Links α) (head : Option α) (x : α) : Links α :=
  ((L.setPrev (some x) none).setNext x head).setPrev head (some x)

/-- `x` is taken out of the list from `head` on. Gives the new head. -/
def remove (L : Links α) (head : Option α) (x : α) : Option α × Links α :=
  match L.prev x with
  | some p => (head, ((L.setNext p (L.next x)).setPrev (L.next x) (some p)).clear x)
  | none => (if head = some x then L.next x else head, (L.setPrev (L.next x) none).clear x)

@[simp] lemma next_setNext (v : Option α) :
    (L.setNext x v).next y = if y = x then v else L.next y := update_apply ..

@[simp] lemma prev_setNext (v : Option α) : (L.setNext x v).prev y = L.prev y := rfl

@[simp] lemma next_setPrev (p v : Option α) : (L.setPrev p v).next y = L.next y := by
  cases p <;> rfl

@[simp] lemma prev_setPrev (p v : Option α) :
    (L.setPrev p v).prev y = if p = some y then v else L.prev y := by
  cases p with
  | none => rfl
  | some z =>
    show update L.prev z v y = _
    rw [update_apply]
    simp only [Option.some_inj, eq_comm]

lemma next_clear (x y : α) : (L.clear x).next y = if y = x then none else L.next y := by
  simp [clear]

lemma prev_clear (x y : α) : (L.clear x).prev y = if y = x then none else L.prev y := by
  simp [clear, eq_comm]

lemma Threads.rebase (h : L.Threads before head l) (hnd : l.Nodup) (v : Option α) :
    (L.setPrev head v).Threads v head l := by
  cases l with
  | nil => exact h
  | cons x l =>
    obtain ⟨rfl, -, hr⟩ := h
    refine ⟨rfl, by simp, ?_⟩
    rw [next_setPrev]
    refine hr.congr fun y hy => ⟨next_setPrev .., ?_⟩
    rw [prev_setPrev, if_neg]
    rintro he
    exact (nodup_cons.1 hnd).1 (some.inj he ▸ hy)

/-! ## A node is put in -/
variable (h : L.Threads none head l)
include h
theorem Threads.pushFront (hnd : l.Nodup) (hx : x ∉ l) :
    (L.pushFront head x).Threads none (some x) (x :: l) := by
  have hne : head ≠ some x := by
    rintro rfl
    cases l with
    | nil => cases h
    | cons y l => exact hx (by simp [some.inj h.1])
  refine ⟨rfl, ?_, ?_⟩
  · simp [Links.pushFront, hne]
  have hnx : (L.pushFront head x).next x = head := by simp [Links.pushFront]
  rw [hnx]
  have hold : ((L.setPrev (some x) none).setNext x head).Threads none head l :=
    h.congr fun y hy => by
      have hy' : y ≠ x := fun he => hx (he ▸ hy)
      simp [hy', Ne.symm hy']
  exact hold.rebase hnd (some x)

/-- Nodes that are not on the list. -/
theorem pushFront_of_not_mem (hy : y ∉ x :: l) :
    (L.pushFront head x).next y = L.next y ∧ (L.pushFront head x).prev y = L.prev y := by
  obtain ⟨hne, hy⟩ := not_or.1 (mem_cons.not.1 hy)
  have hh : head ≠ some y := by
    rintro rfl
    cases l with
    | nil => cases h
    | cons z l => exact hy (by simp [some.inj h.1])
  simp [Links.pushFront, hne, Ne.symm hne, hh]

/-! ## A node is taken out -/
omit h in
/-- What is left when the nodes before `x` lead to the node after `x` and back. -/
lemma Threads.bypass (h : L.Threads before head (l1 ++ x :: l2)) (hnd : (l1 ++ x :: l2).Nodup)
    (hne : ∀ y ∈ l1 ++ l2, L'.next y = if L.prev x = some y then L.next x else L.next y)
    (hp : ∀ y ∈ l1 ++ l2, L'.prev y = if L.next x = some y then L.prev x else L.prev y)
    (hb : ∀ y ∈ l1 ++ x :: l2, before ≠ some y) :
    L'.Threads before (if l1 = [] then L.next x else head) (l1 ++ l2) := by
  induction l1 generalizing before head with
  | nil =>
    obtain ⟨-, hbx, hr⟩ := h
    obtain ⟨hx, hnd⟩ := nodup_cons.1 hnd
    rw [if_pos rfl, nil_append]
    refine ((hr.rebase hnd before).congr fun y hy => ⟨?_, ?_⟩)
    · rw [hne y hy, next_setPrev, if_neg (hbx ▸ hb y (mem_cons_of_mem x hy))]
    · rw [hp y hy, prev_setPrev, hbx]
  | cons y l1 ih =>
    obtain ⟨rfl, hby, hr⟩ := h
    rw [cons_append] at hnd hne hp hb
    obtain ⟨hy, hnd⟩ := nodup_cons.1 hnd
    have hxl : y ∉ l1 ++ l2 := fun hmem => hy (by
      rw [mem_append] at hmem ⊢
      exact hmem.imp id (mem_cons_of_mem x))
    rw [if_neg (cons_ne_nil y l1), cons_append]
    refine ⟨rfl, ?_, ?_⟩
    · rw [hp y (by simp), if_neg, hby]
      exact fun he => hxl (mem_append_right l1 (hr.next_mem y he))
    have hst := ih hr hnd
      (fun z hz => hne z (mem_cons_of_mem y hz))
      (fun z hz => hp z (mem_cons_of_mem y hz))
      (fun z hz he => hy (some.inj he ▸ hz))
    have hl : L'.next y = if l1 = [] then L.next x else L.next y := by
      rw [hne y (by simp)]
      by_cases hl1 : l1 = []
      · subst hl1
        rw [if_pos hr.2.1, if_pos rfl]
      obtain ⟨z, hz, hpx⟩ := hr.prev_mem hl1
      rw [if_neg hl1, if_neg]
      rw [hpx]
      exact fun he => hxl (some.inj he ▸ mem_append_left l2 hz)
    rw [hl]
    exact hst

omit h in
lemma remove_apply (hy : y ≠ x) :
    (L.remove head x).2.next y = (if L.prev x = some y then L.next x else L.next y) ∧
      (L.remove head x).2.prev y = if L.next x = some y then L.prev x else L.prev y := by
  unfold remove
  cases hp : L.prev x with
  | none => simp [next_clear, prev_clear, hy]
  | some p => simp [next_clear, prev_clear, hy, eq_comm]

theorem Threads.remove (hnd : l.Nodup) (hx : x ∈ l) :
    (L.remove head x).2.Threads none (L.remove head x).1 (l.erase x) := by
  obtain ⟨l1, l2, rfl⟩ := append_of_mem hx
  have hx1 : x ∉ l1 := fun hmem => (nodup_append.1 hnd).2.2 x hmem x mem_cons_self rfl
  have hx2 : x ∉ l2 := (nodup_cons.1 (nodup_append.1 hnd).2.1).1
  have hne : ∀ y ∈ l1 ++ l2, y ≠ x := by
    rintro y hy rfl
    exact (mem_append.1 hy).elim hx1 hx2
  rw [erase_append_right _ hx1, erase_cons_head]
  have hh : (L.remove head x).1 = if l1 = [] then L.next x else head := by
    cases l1 with
    | nil => simp [Links.remove, h.2.1, h.1]
    | cons z l1 =>
      obtain ⟨w, -, hw⟩ := h.prev_mem (cons_ne_nil z l1)
      simp [Links.remove, hw]
  rw [hh]
  exact h.bypass hnd (fun y hy => (remove_apply (hne y hy)).1)
    (fun y hy => (remove_apply (hne y hy)).2) (fun _ _ => (Option.some_ne_none _).symm)

/-- Nodes that are not on the list. -/
theorem remove_of_not_mem (hx : x ∈ l) (hy : y ∉ l) :
    (L.remove head x).2.next y = L.next y ∧ (L.remove head x).2.prev y = L.prev y := by
  obtain ⟨l1, l2, rfl⟩ := append_of_mem hx
  have hne : y ≠ x := by
    rintro rfl
    exact hy hx
  rw [(remove_apply hne).1, (remove_apply hne).2, if_neg, if_neg]
  · exact ⟨rfl, rfl⟩
  · exact fun he => hy (by simp [h.next_mem y he])
  intro he
  cases l1 with
  | nil => rw [h.2.1] at he; cases he
  | cons z l1 =>
    obtain ⟨w, hw, hp⟩ := h.prev_mem (cons_ne_nil z l1)
    rw [hp] at he
    exact hy (mem_append_left _ (some.inj he ▸ hw))
end Links
end Menios.Common
