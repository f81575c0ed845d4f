import Menios.Common.Loop
import Menios.Proc.Scheduler

/-!
# Waking and signals, for every relation at once

What the functions of `src/kernel/proc/proc.c` that wake, stop, continue, bury and signal processes
do is a sequence of a few writes. A relation that each of these writes respects holds between
the states before and after the functions.
-/

namespace Menios.Proc.Scheduler
open Common Option
variable {n : ℕ}
/-- The relation `R` is respected by the single writes; `ok` says who may be stopped or buried. -/
structure Flow (ok : Scheduler n → Process n → Prop) (R : Scheduler n → Scheduler n → Prop) :
    Prop where
  refl : ∀ s, R s s
  trans : ∀ {s s' s''}, R s s' → R s' s'' → R s s''
  keeps : ∀ {s s' p}, R s s' → ok s p → ok s' p
  modify : ∀ s p (f : ProcInfo n → ProcInfo n), (∀ i, (f i).parent = i.parent) →
    (∀ i, (f i).children = i.children) → R s (s.modify p f)
  force : ∀ s b, R s { s with force := b }
  setState : ∀ {s p} st, ok s p → st = .stopped ∨ st = .zombie → R s (s.setState p st)
  markReady : ∀ {s s' p}, s.markReady p = some s' → R s s'
  unlink : ∀ {s s' p}, s.unlink p = some s' → R s s'

namespace Flow
variable {ok : Scheduler n → Process n → Prop} {R : Scheduler n → Scheduler n → Prop} (h : Flow ok R)
  {s s' : Scheduler n} {p : Process n} {sg : ℕ}
include h
lemma wakeParent (hs : s.wakeParent p = some s') : R s s' := by
  rw [Scheduler.wakeParent] at hs
  split at hs
  · exact some.inj hs ▸ h.refl s
  next x _ =>
  split_ifs at hs
  · exact h.trans (h.modify s x .endWait (fun _ => rfl) fun _ => rfl) (h.markReady hs)
  · exact some.inj hs ▸ h.refl s

lemma markStopped (hp : ok s p) (hs : s.markStopped p sg = some s') : R s s' := by
  rw [Scheduler.markStopped] at hs
  split_ifs at hs
  · exact some.inj hs ▸ h.refl s
  split at hs
  · cases hs
  next s1 hu =>
  obtain ⟨s2, hwa, rfl⟩ := map_eq_some_iff.1 hs
  have h1 := h.trans (h.modify s p (.stoppedBy sg) (fun _ => rfl) fun _ => rfl) (h.unlink hu)
  have h2 := h.trans h1 (h.setState .stopped (h.keeps h1 hp) (.inl rfl))
  have h3 := h.trans h2 (h.modify _ p .endSlice (fun _ => rfl) fun _ => rfl)
  exact h.trans (h.trans h3 (h.wakeParent hwa)) (h.force s2 true)

lemma markContinued (hs : s.markContinued p = some s') : R s s' := by
  simp only [Scheduler.markContinued] at hs
  have h1 := h.modify s p .continued (fun _ => rfl) fun _ => rfl
  split_ifs at hs
  · exact some.inj hs ▸ h.refl s
  · obtain ⟨s2, hr, hwa⟩ := Option.bind_eq_some_iff.1 hs
    exact h.trans (h.trans h1 (h.markReady hr)) (h.wakeParent hwa)
  · exact h.trans h1 (h.wakeParent hs)

lemma bury (hp : ok s p) {st : ℤ} (hs : s.bury p st = some s') : R s s' := by
  obtain ⟨s2, hwa, rfl⟩ := map_eq_some_iff.1 hs
  have h1 := h.setState .zombie hp (.inr rfl)
  have h2 := h.trans h1 (h.modify _ p (.exited st) (fun _ => rfl) fun _ => rfl)
  exact h.trans (h.trans h2 (h.wakeParent hwa)) (h.force s2 true)

lemma signalWake (hs : s.signalWake p = some s') : R s s' := by
  rw [Scheduler.signalWake] at hs
  split_ifs at hs
  · exact h.markReady hs
  · exact some.inj hs ▸ h.refl s

lemma signalPost (hs : s.signalPost p sg = some s') : R s s' := by
  simp only [Scheduler.signalPost] at hs
  have h1 : R s (s.signalEnqueue p sg) := h.modify s p _ (fun _ => rfl) fun _ => rfl
  split_ifs at hs
  · exact h.trans h1 (h.signalWake hs)
  · exact some.inj hs ▸ h1

lemma signalSend (hs : s.signalSend p sg = some s') : R s s' := by
  simp only [Scheduler.signalSend] at hs
  have h1 := h.modify s p .endSignalWait (fun _ => rfl) fun _ => rfl
  split_ifs at hs
  · exact some.inj hs ▸ h.refl s
  · exact h.signalPost hs
  · exact h.trans h1 (h.signalWake hs)
  · have h2 := h.trans h1 (h.modify _ p (.addPending (sigbit sg)) (fun _ => rfl) fun _ => rfl)
    exact h.trans h2 (h.signalWake hs)
  · exact h.signalPost hs

lemma deliver (hp : ok s p) (hc : ok s s.current) {c : Bool} {si : List ℕ}
    {d : Delivery} (hs : deliver c p si s = some (d, s')) : R s s' := by
  induction si generalizing s with
  | nil => exact (Prod.mk.inj (some.inj hs)).2 ▸ h.refl s
  | cons sg si ih =>
    rw [Scheduler.deliver] at hs
    split_ifs at hs
    · exact ih hp hc hs
    have h1 := h.modify s p (.clearPending (sigbit sg)) (fun _ => rfl) fun _ => rfl
    have hp1 := h.keeps h1 hp
    simp only at hs
    split at hs
    · exact h.trans h1 (ih hp1 (h.keeps h1 hc) hs)
    · obtain ⟨s2, hr, he⟩ := map_eq_some_iff.1 hs
      exact (Prod.mk.inj he).2 ▸ h.trans h1 (h.markStopped hp1 hr)
    · obtain ⟨s2, hr, he⟩ := map_eq_some_iff.1 hs
      exact (Prod.mk.inj he).2 ▸ h.trans h1 (h.markContinued hr)
    · obtain ⟨s2, hr, he⟩ := map_eq_some_iff.1 hs
      exact (Prod.mk.inj he).2 ▸ h.trans h1 (h.bury (h.keeps h1 hc) hr)
    · exact (Prod.mk.inj (some.inj hs)).2 ▸ h1

lemma handlePending (hp : ok s p) (hc : ok s s.current) {c : Bool} {d : Delivery}
    (hs : s.handlePending p c = some (d, s')) : R s s' := by
  rw [Scheduler.handlePending] at hs
  split_ifs at hs
  · exact (Prod.mk.inj (some.inj hs)).2 ▸ h.refl s
  · exact (Prod.mk.inj (some.inj hs)).2 ▸ h.refl s
  · exact h.deliver hp hc hs

lemma checkItimers {nw : UInt64} (hs : s.checkItimers nw = some s') : R s s' := by
  refine foldlM_inv (R s) (h.refl s) (fun slot s1 s2 h1 hs1 => h.trans h1 ?_) hs
  rw [checkItimer] at hs1
  split at hs1
  · exact some.inj hs1 ▸ h.refl s1
  next p _ =>
  split_ifs at hs1
  · exact some.inj hs1 ▸ h.refl s1
  obtain ⟨s3, hse, rfl⟩ := map_eq_some_iff.1 hs1
  refine h.trans (h.signalSend hse) (h.modify s3 p _ ?_ ?_)
  · exact fun _ => rfl
  · exact fun _ => rfl

lemma account (d : UInt64) : R s (s.account d) := by
  rw [Scheduler.account]
  split_ifs
  · refine h.modify s s.current _ ?_ ?_
    · exact fun _ => rfl
    · exact fun _ => rfl
  · exact h.refl s
end Flow
end Menios.Proc.Scheduler
