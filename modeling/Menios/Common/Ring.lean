import Mathlib

/-!
# Ring buffers

A ring of `size` cells holds a queue of `count` elements from the cell `head` on. The lemmas
say what writing the cell behind the queue and leaving the cell at its front do to it.
-/

namespace Menios.Common.Ring
open List
variable {α : Type*} {size head t count : ℕ}
/-- The elements of the queue, the oldest first. -/
def contents (size : ℕ) (buffer : ℕ → α) (head count : ℕ) : List α :=
  (List.range count).map fun i => buffer ((head + i) % size)

lemma contents_succ (b : ℕ → α) (hh : head < size) : contents size b head (count + 1) =
      b head :: contents size b ((head + 1) % size) count := by
  rw [contents, range_succ_eq_map, map_cons, map_map, Nat.add_zero, Nat.mod_eq_of_lt hh, contents]
  refine congrArg (b head :: ·) (map_congr_left fun i _ => ?_)
  show b ((head + (i + 1)) % size) = b (((head + 1) % size + i) % size)
  rw [Nat.mod_add_mod, Nat.add_assoc, Nat.add_comm 1 i]

lemma cell_injective {i j : ℕ} (hi : i < size) (hj : j < size)
    (h : (head + i) % size = (head + j) % size) : i = j := by
  have hmod : i % size = j % size := Nat.ModEq.add_left_cancel' head h
  rwa [Nat.mod_eq_of_lt hi, Nat.mod_eq_of_lt hj] at hmod

lemma contents_push (b : ℕ → α) (a : α) (hc : count < size) (ht : (head + count) % size = t) :
    contents size (Function.update b t a) head (count + 1) = contents size b head count ++ [a] := by
  rw [contents, range_succ, map_append, contents]
  congr 1
  · refine map_congr_left fun i hi => ?_
    have hlt : i < count := mem_range.1 hi
    rw [Function.update_of_ne]
    intro he
    have := cell_injective (Nat.lt_trans hlt hc) hc (he.trans ht.symm)
    omega
  · rw [map_singleton, ht, Function.update_self]
end Menios.Common.Ring
