import Menios.Proc.Links

/-!
# The scheduler makes nobody wait

No function of `src/kernel/proc/proc.c` that the model has writes the state WAITING: a
process that waits has begun to do so itself, in `kmutex_lock`, `kcondvar_wait` or a
system call. This holds whatever the queues look like.
-/

namespace Menios.Proc
open Common Option

namespace Scheduler
variable {n : ℕ} {s s' : Scheduler n} {p : Process n}
/-- Every process that waits did so before. -/
def NoWait (old new : Process n → ProcState) : Prop := ∀ p, new p = .waiting → old p = .waiting

namespace NoWait
variable {o m nw : Process n → ProcState}
lemma refl (o : Process n → ProcState) : NoWait o o := fun _ h => h

lemma of_same (h : Unqueued s s') : NoWait s.state s'.state := fun _ hx => h.state ▸ hx

lemma trans (h : NoWait o m) (h' : NoWait m nw) : NoWait o nw := fun p hp => h p (h' p hp)

lemma update (o : Process n → ProcState) (p : Process n) (st : ProcState) (hst : st ≠ .waiting) :
    NoWait o (Function.update o p st) := by
  intro x hx
  by_cases he : x = p
  · subst he
    rw [Function.update_self] at hx
    exact absurd hx hst
  · rwa [Function.update_of_ne he] at hx

lemma markReady (h : s.markReady p = some s') : NoWait s.state s'.state := by
  rw [Scheduler.markReady] at h
  split_ifs at h
  · exact some.inj h ▸ refl _
  obtain ⟨s1, hs1, rfl⟩ := map_eq_some_iff.1 h
  obtain ⟨q, -, rfl⟩ := map_eq_some_iff.1 hs1
  exact update s.state p .ready (by decide)

lemma unlink (h : s.unlink p = some s') : NoWait s.state s'.state := by
  rw [Scheduler.unlink] at h
  split_ifs at h
  · obtain ⟨q, -, rfl⟩ := map_eq_some_iff.1 h
    exact refl _
  · obtain ⟨q, -, rfl⟩ := map_eq_some_iff.1 h
    exact refl _
  · exact some.inj h ▸ refl _

lemma flow : Flow (fun _ _ => True) fun s s' : Scheduler n => NoWait s.state s'.state where
  refl s := refl s.state
  trans := trans
  keeps _ _ := trivial
  modify s _ _ _ _ := refl s.state
  force s _ := refl s.state
  setState st _ hst := update _ _ st (by rcases hst with rfl | rfl <;> decide)
  markReady := markReady
  unlink := unlink

variable {no : UInt64} {f : ℕ}
lemma wakeSleepers (h : wakeSleepers no f s = some s') : NoWait s.state s'.state :=
  wakeSleepers_inv (I := fun s1 => NoWait s.state s1.state)
    (fun h1 _ _ => h1.trans (update _ _ .ready (by decide))) (refl _) h

variable {c : ℕ → Bool}
lemma selectNext (h : selectNext c f s = some s') : NoWait s.state s'.state := by
  refine (selectNext_inv (I := fun s1 => NoWait s.state s1.state) (fun s1 p h1 => ?_)
    (fun h1 hp hpe => ?_) (refl _) h).1
  · exact h1.trans (of_same (.cleanupProcess s1 p))
  have hp := of_same (popFrom_same hp).1
  have hsi := flow.handlePending trivial trivial hpe
  exact (h1.trans hp).trans hsi

variable {t : Bool}
lemma switchAway (h : s.switchAway t = some s') : NoWait s.state s'.state := by
  simp only [Scheduler.switchAway] at h
  split_ifs at h
  · obtain ⟨q, -, rfl⟩ := map_eq_some_iff.1 h
    exact update s.state _ .sleeping (by decide)
  · exact some.inj h ▸ of_same (.cleanupProcess s s.current)
  · exact some.inj h ▸ update s.state _ .ready (by decide)
  · exact some.inj h ▸ refl _
  · exact some.inj h ▸ refl _

lemma switchTo (h : s.switchTo t c = some s') : NoWait s.state s'.state := by
  rw [Scheduler.switchTo] at h
  split at h
  · cases h
  next s1 ha =>
  obtain ⟨s2, hse, rfl⟩ := map_eq_some_iff.1 h
  have hr := update s2.state s2.current .running (by decide)
  exact (switchAway ha).trans ((selectNext hse).trans hr)

lemma switchEvents {c : Bool} (h : s.switchEvents no c = some s') : NoWait s.state s'.state := by
  rw [Scheduler.switchEvents] at h
  split at h
  · cases h
  next d s1 hp =>
  split at h
  · cases h
  next s2 hwa =>
  exact (flow.handlePending trivial trivial hp).trans ((wakeSleepers hwa).trans (flow.checkItimers h))

lemma reschedule {fr : Bool} (h : s.reschedule fr t c = some s') : NoWait s.state s'.state := by
  rw [Scheduler.reschedule] at h
  split_ifs at h
  · exact some.inj h ▸ refl _
  · exact switchTo h

lemma procSwitch (h : s.procSwitch no c = some s') : NoWait s.state s'.state := by
  simp only [Scheduler.procSwitch] at h
  split at h
  · cases h
  next s1 he =>
  exact (switchEvents he :).trans ((flow.account (s := s1.clearActions) _).trans (reschedule h))

lemma step {op : Op n} (h : s.step op = some s') : NoWait s.state s'.state := by
  cases op with
  | execute p => exact some.inj h ▸ update s.state p .ready (by decide)
  | markReady p => exact markReady h
  | markStopped p signo => exact flow.markStopped trivial h
  | markContinued p => exact flow.markContinued h
  | requestYield => exact some.inj h ▸ refl _
  | requestSleep no d =>
    cases h
    rw [requestSleep]
    split_ifs
    · exact refl _
    · exact refl _
  | requestBlock => exact some.inj h ▸ refl _
  | signalSend p signo => exact flow.signalSend h
  | exit cd => exact flow.bury trivial h
  | procSwitch no c => exact procSwitch h
  | configure info procs => exact some.inj h ▸ refl _
end NoWait

lemma markReady_unchanged (h : s.markReady p = some s') :
    s'.current = s.current ∧ s'.procs = s.procs := by
  rw [markReady] at h
  split_ifs at h
  · exact some.inj h ▸ ⟨rfl, rfl⟩
  obtain ⟨s1, hs1, rfl⟩ := map_eq_some_iff.1 h
  obtain ⟨q, -, rfl⟩ := map_eq_some_iff.1 hs1
  exact ⟨rfl, rfl⟩
end Scheduler
end Menios.Proc
