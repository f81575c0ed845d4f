import Mathlib

/-!
# Traces of a memory

A trace of reads and writes over arbitrary keys and values, and when a plain
memory could have produced it: every read returns the value most recently
written to its key, or the initial value.

Results: `accepts_append` splits a trace, `accepts_read` and `accepts_write`
are its single events.
-/

namespace Menios.Common
/-- One access: what a read of `k` returned, or what was written to `k`. -/
inductive MemEvent (κ β : Type*) where
  | read (k : κ) (v : β)
  | write (k : κ) (v : β)
  deriving DecidableEq

namespace MemEvent
variable {κ β : Type*} [DecidableEq κ] (m : κ → β)
/-- The memory after one access. -/
def apply : MemEvent κ β → κ → β
  | read _ _ => m
  | write k v => Function.update m k v

/-- The memory after a trace: the value most recently written to each key. -/
def after (es : List (MemEvent κ β)) : κ → β := es.foldl apply m

/-- Every read of the trace returns the value most recently written before it. -/
def Accepts (es : List (MemEvent κ β)) : Prop :=
  ∀ pre k v post, es = pre ++ read k v :: post → v = after m pre k

@[simp] lemma after_nil : after m [] = m := rfl

@[simp] lemma after_cons (e : MemEvent κ β) (es : List (MemEvent κ β)) :
    after m (e :: es) = after (apply m e) es := rfl

lemma after_append (a b : List (MemEvent κ β)) :
    after m (a ++ b) = after (after m a) b := List.foldl_append ..

@[simp] lemma apply_read (k : κ) (v : β) : apply m (read k v) = m := rfl

@[simp] lemma apply_write (k : κ) (v : β) :
    apply m (write k v) = Function.update m k v := rfl

lemma accepts_nil : Accepts m [] := by
  intro pre k v p h
  simp at h

theorem accepts_append {m : κ → β} {a b : List (MemEvent κ β)} (ha : Accepts m a)
    (hb : Accepts (after m a) b) : Accepts m (a ++ b) := by
  intro pre k v p h
  obtain ⟨s, rfl, hs⟩ | ⟨s, rfl, hs⟩ := List.append_eq_append_iff.1 h
  · rw [after_append]
    exact hb s k v p hs
  cases s with
  | nil =>
    rw [List.append_nil] at hb
    exact hb [] k v p (by simpa using hs.symm)
  | cons e s =>
    rw [List.cons_append, List.cons.injEq] at hs
    exact ha pre k v s (by rw [hs.1])

theorem accepts_read {m : κ → β} {k : κ} {v : β} (h : v = m k) : Accepts m [read k v] := by
  rintro (_ | ⟨_, pre⟩) k' v' p hs
  · simp at hs
    obtain ⟨⟨rfl, rfl⟩, _⟩ := hs
    exact h
  · simp at hs

theorem accepts_write (k : κ) (v : β) : Accepts m [write k v] := by
  rintro (_ | ⟨_, pre⟩) k' v' p hs <;> simp at hs
end MemEvent
end Menios.Common
