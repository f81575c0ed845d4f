import Menios.Proc.Mutex

/-!
# Mutexes exclude

At most one process is between a successful acquisition of a mutex and the statement of
`kmutex_unlock` that gives it up, and `mutex->owner` is that process, whatever the
schedule is. Switches and wake-ups may happen between any two statements, also while a
spin lock is held.

The argument: the owner is read and written only by the process that holds the spin lock
of the mutex, so what a process has read there is still true when it writes (`Holds`).

Results:

* `Exclusive.exec`: what one statement preserves.
* `mutex_excludes`: exclusion in every state of every run.
-/

namespace Menios.Proc
open Option

namespace Machine
variable {n : ℕ} {k k' : Machine n} {p : Process n}
/-- What a process knows in front of its next statement: inside of the section of a spin
lock it holds the lock, and what it has read of the owner is still true. -/
def Holds (k : Machine n) (p : Process n) : Place n → Prop
  | .lockOwn m _ => (k.mutexes m).spin = some p ∧ (k.mutexes m).owner = none
  | .tryOwn m => (k.mutexes m).spin = some p ∧ (k.mutexes m).owner = none
  | .lockDone m _ => (k.mutexes m).spin = some p ∧ (k.mutexes m).owner = some p
  | .tryDone m acquired =>
    (k.mutexes m).spin = some p ∧ (acquired = true → (k.mutexes m).owner = some p)
  | .unlockOwn m _ => (k.mutexes m).spin = some p ∧ (k.mutexes m).owner = some p
  | .lockTest m _ => (k.mutexes m).spin = some p
  | .lockFail m _ => (k.mutexes m).spin = some p
  | .lockState m _ => (k.mutexes m).spin = some p
  | .lockEnqueue m _ => (k.mutexes m).spin = some p
  | .lockRelease m _ => (k.mutexes m).spin = some p
  | .tryTest m => (k.mutexes m).spin = some p
  | .unlockTest m _ => (k.mutexes m).spin = some p
  | .unlockFail m _ => (k.mutexes m).spin = some p
  | .unlockDequeue m _ => (k.mutexes m).spin = some p
  | .unlockRelease m _ _ => (k.mutexes m).spin = some p
  | _ => True

variable {pl : Place n}
lemma Holds.of_same (h : k.Holds p pl) (hsa : ∀ m, (k.mutexes m).spin = some p →
      (k'.mutexes m).spin = some p ∧ (k'.mutexes m).owner = (k.mutexes m).owner) :
    k'.Holds p pl := by
  cases pl with
  | lockOwn m | tryOwn m | lockDone m | tryDone m | unlockOwn m =>
    obtain ⟨hspin, how⟩ := hsa m h.1
    exact ⟨hspin, how ▸ h.2⟩
  | lockTest m | lockFail m | lockState m | lockEnqueue m | lockRelease m | tryTest m
  | unlockTest m | unlockFail m | unlockDequeue m | unlockRelease m => exact (hsa m h).1
  | _ => trivial

/-- The invariant. -/
structure Exclusive (k : Machine n) : Prop where
  places : ∀ p, k.Holds p (k.place p)
  owner : ∀ p m, k.holding p m = true → (k.mutexes m).owner = some p

/-- Process `p` takes a step in which it changes only mutexes whose spin lock no other
process holds. -/
lemma Exclusive.update (h : k.Exclusive) (hp : ∀ q, q ≠ p → k'.place q = k.place q)
    (hmu : ∀ m q, q ≠ p → (k.mutexes m).spin = some q →
      (k'.mutexes m).spin = some q ∧ (k'.mutexes m).owner = (k.mutexes m).owner)
    (hse : k'.Holds p (k'.place p))
    (how : ∀ q m, k'.holding q m = true → (k'.mutexes m).owner = some q) : k'.Exclusive where
  places q := by
    by_cases hq : q = p
    · subst hq
      exact hse
    rw [hp q hq]
    exact (h.places q).of_same fun m hspin => hmu m q hq hspin
  owner := how

lemma Exclusive.keep (h : k.Exclusive) (hp : ∀ q, q ≠ p → k'.place q = k.place q)
    (hmu : k'.mutexes = k.mutexes) (hh : k'.holding = k.holding)
    (hse : k'.Holds p (k'.place p)) : k'.Exclusive := by
  refine h.update hp (fun m q _ hspin => ?_) hse ?_
  · rw [hmu]
    exact ⟨hspin, rfl⟩
  rw [hmu, hh]
  exact h.owner

lemma place_goto_of_ne {q : Process n} (hq : q ≠ p) : (k.goto p pl).place q = k.place q :=
  Function.update_of_ne hq _ _

lemma holds_goto (h : k.Holds p pl) : (k.goto p pl).Holds p ((k.goto p pl).place p) := by
  have hp : (k.goto p pl).place p = pl := Function.update_self _ _ _
  rw [hp]
  exact h.of_same fun m hspin => ⟨hspin, rfl⟩

/-! ## The parts of the statements -/
section
variable {m : ℕ} {pl : Place n} (h : k.Exclusive)
include h
lemma Exclusive.goto (hse : k.Holds p pl) : (k.goto p pl).Exclusive :=
  h.keep (fun _ => place_goto_of_ne) rfl rfl (holds_goto hse)

lemma Exclusive.goto_of_same (hk : k'.mutexes = k.mutexes)
    (hp : k'.place = k.place) (hh : k'.holding = k.holding)
    (hse : k.Holds p pl) : (k'.goto p pl).Exclusive := by
  have hk' : k'.Exclusive := by
    refine h.keep (p := p) (fun q _ => by rw [hp]) hk hh ?_
    rw [hp]
    exact (h.places p).of_same fun m hspin => by
      rw [hk]
      exact ⟨hspin, rfl⟩
  exact hk'.goto (hse.of_same fun m hspin => by
    rw [hk]
    exact ⟨hspin, rfl⟩)

/-- The mutex `m`, whose spin lock no other process holds, is changed. -/
lemma Exclusive.setMutex {mt : Kmutex n}
    (hspin : (k.mutexes m).spin = none ∨ (k.mutexes m).spin = some p)
    (hse : ((k.setMutex m mt).goto p pl).Holds p pl)
    (how : ∀ q, k.holding q m = true → mt.owner = some q) :
    ((k.setMutex m mt).goto p pl).Exclusive := by
  refine h.update (p := p) (fun _ => place_goto_of_ne) (fun m' q hq hs' => ?_) ?_ fun q m' hh => ?_
  · have hm : m' ≠ m := by
      rintro rfl
      rcases hspin with hspin | hspin
      · exact absurd (hs'.symm.trans hspin) (by simp)
      · exact hq (some.inj (hs'.symm.trans hspin))
    have hsa : ((k.setMutex m mt).goto p pl).mutexes m' = k.mutexes m' :=
      Function.update_of_ne hm _ _
    rw [hsa]
    exact ⟨hs', rfl⟩
  · exact holds_goto (hse.of_same fun _ hs => ⟨hs, rfl⟩)
  by_cases hm : m' = m
  · subst hm
    have hsa : ((k.setMutex m' mt).goto p pl).mutexes m' = mt := Function.update_self _ _ _
    rw [hsa]
    exact how q hh
  have hsa : ((k.setMutex m mt).goto p pl).mutexes m' = k.mutexes m' := Function.update_of_ne hm _ _
  rw [hsa]
  exact h.owner q m' hh

lemma Exclusive.mutexSpin (hse : ∀ k' : Machine n, (k'.mutexes m).spin = some p → k'.Holds p pl) :
    (k.mutexSpin m p pl).Exclusive := by
  rw [Machine.mutexSpin]
  split_ifs with hspin
  · refine h.setMutex (.inl hspin) (hse _ ?_) fun q => h.owner q m
    simp [Machine.goto, Machine.setMutex]
  · exact h

section
variable (hspin : (k.mutexes m).spin = some p)
include hspin
lemma Exclusive.mutexRelease
    (hse : ∀ k' : Machine n, k'.Holds p pl) : (k.mutexRelease m p pl).Exclusive :=
  h.setMutex (.inr hspin) (hse _) fun q => h.owner q m

lemma Exclusive.own (hf : (k.mutexes m).owner = none)
    (hse : ∀ k' : Machine n, (k'.mutexes m).spin = some p → (k'.mutexes m).owner = some p →
      k'.Holds p pl) : ((k.setOwner m (some p)).goto p pl).Exclusive := by
  refine h.setMutex (.inr hspin) (hse _ ?_ ?_) fun q hh => ?_
  · simp [Machine.goto, Machine.setMutex, hspin]
  · simp [Machine.goto, Machine.setMutex]
  · exact absurd ((h.owner q m hh).symm.trans hf) (by simp)

omit hspin in
lemma Exclusive.acquired (how : (k.mutexes m).owner = some p) :
    (k.setHolding p m true).Exclusive where
  places q := (h.places q).of_same fun _ hspin => ⟨hspin, rfl⟩
  owner q m' hh := by
    by_cases hsa : q = p ∧ m' = m
    · obtain ⟨rfl, rfl⟩ := hsa
      exact how
    refine h.owner q m' ?_
    by_cases hq : q = p
    · subst hq
      have hm : m' ≠ m := fun he => hsa ⟨rfl, he⟩
      simpa [setHolding, hm] using hh
    · simpa [setHolding, hq] using hh

lemma Exclusive.disown (how : (k.mutexes m).owner = some p)
    (hse : ∀ k' : Machine n, (k'.mutexes m).spin = some p → k'.Holds p pl) :
    (((k.setHolding p m false).setOwner m none).goto p pl).Exclusive := by
  have hk : (k.setHolding p m false).Exclusive := by
    refine ⟨fun q => (h.places q).of_same fun _ hs => ⟨hs, rfl⟩, fun q m' hh => ?_⟩
    refine h.owner q m' ?_
    by_cases hq : q = p
    · subst hq
      by_cases hm : m' = m
      · simp [setHolding, hm] at hh
      · simpa [setHolding, hm] using hh
    · simpa [setHolding, hq] using hh
  refine hk.setMutex (.inr hspin) (hse _ ?_) fun q hh => ?_
  · simpa [Machine.goto, Machine.setMutex, setHolding] using hspin
  -- only the owner held it
  have hq := (hk.owner q m hh).symm.trans how
  cases hq
  simp [setHolding] at hh
end

lemma Exclusive.condvarSpin (c : ℕ) (hse : ∀ k' : Machine n, k'.Holds p pl) :
    (k.condvarSpin c p pl).Exclusive := by
  rw [Machine.condvarSpin]
  split_ifs
  · exact h.goto_of_same rfl rfl rfl (hse k)
  · exact h

lemma Exclusive.loop (hse : ∀ k' : Machine n, k'.Holds p pl) : (k.loop p pl).Exclusive := by
  rw [Machine.loop]
  split_ifs
  · exact h
  · exact h.goto (hse k)
end

/-! ## Statements and runs -/

/-- Each statement keeps the invariant. -/
theorem Exclusive.exec (h : k.Exclusive) {a : Bool} (hk : k.exec a = some k') : k'.Exclusive := by
  have hse := h.places k.sched.current
  rw [Machine.exec] at hk
  generalize k.place k.sched.current = pl at hk hse
  cases pl with
  | outside =>
    cases hk
    exact h
  | lockSpin m r | trySpin m | unlockSpin m r =>
    cases hk
    exact h.mutexSpin fun _ hspin => hspin
  | lockTest m r =>
    simp only [execAt] at hk
    split_ifs at hk with hf hown hno <;> cases hk
    · exact h.goto ⟨hse, hf⟩
    · exact h.goto hse
    · exact h.goto hse
    · exact h.goto hse
  | tryTest m =>
    simp only [execAt] at hk
    split_ifs at hk with hf <;> cases hk
    · exact h.goto ⟨hse, hf⟩
    · exact h.goto ⟨hse, by simp⟩
  | unlockTest m r =>
    simp only [execAt] at hk
    split_ifs at hk with hown <;> cases hk
    · exact h.goto ⟨hse, hown⟩
    · exact h.goto hse
  | lockOwn m r =>
    cases hk
    exact h.own hse.1 hse.2 fun _ hspin hown => ⟨hspin, hown⟩
  | tryOwn m =>
    cases hk
    exact h.own hse.1 hse.2 fun _ hspin hown => ⟨hspin, fun _ => hown⟩
  | lockDone m r =>
    cases hk
    exact (h.acquired hse.2).mutexRelease hse.1 fun _ => trivial
  | tryDone m acquired =>
    cases hk
    cases acquired with
    | false => exact h.mutexRelease hse.1 fun _ => trivial
    | true => exact (h.acquired (hse.2 rfl)).mutexRelease hse.1 fun _ => trivial
  | unlockOwn m r =>
    cases hk
    exact h.disown hse.1 hse.2 fun _ hspin => hspin
  | lockFail m r | unlockFail m r =>
    cases hk
    exact h.mutexRelease hse fun _ => by cases r <;> trivial
  | lockState m r =>
    cases hk
    exact h.goto_of_same rfl rfl rfl hse
  | lockEnqueue m r | unlockDequeue m r =>
    cases hk
    refine h.setMutex (.inr hse) ?_ fun q => h.owner q m
    simpa [Holds, Machine.goto, Machine.setMutex] using hse
  | lockRelease m r =>
    cases hk
    exact h.mutexRelease hse fun _ => trivial
  | unlockRelease m r next =>
    cases next with
    | none =>
      cases hk
      exact h.mutexRelease hse fun _ => by cases r <;> trivial
    | some q =>
      cases hk
      exact h.mutexRelease hse fun _ => trivial
  | unlockReady m r next | waitState c m | waitEnqueue c m | waitRelease c m
  | waitRunning c m | lockYield m r | lockEnable m r | waitYield c m | waitEnable c m
  | retryYield c m | retryEnable c m | signalDequeue c | broadcastDequeue c
  | broadcastReady c next =>
    cases hk
    exact h.goto_of_same rfl rfl rfl trivial
  | lockLoop m r | waitLoop c m | retryLoop c m =>
    cases hk
    exact h.loop fun _ => trivial
  | waitSpin c m | signalSpin c | broadcastSpin c =>
    cases hk
    exact h.condvarSpin c fun _ => trivial
  | unlockMark m r next =>
    obtain ⟨s, -, rfl⟩ := map_eq_some_iff.1 hk
    exact h.goto_of_same rfl rfl rfl (by cases r <;> trivial)
  | broadcastMark c next =>
    obtain ⟨s, -, rfl⟩ := map_eq_some_iff.1 hk
    exact h.goto_of_same rfl rfl rfl trivial
  | waitAlloc c m =>
    simp only [execAt] at hk
    split_ifs at hk <;> cases hk
    · exact h.goto trivial
    · exact h.goto trivial
  | signalRelease c next | broadcastRelease c next =>
    cases next <;> cases hk <;>
      exact h.goto_of_same rfl rfl rfl trivial
  | signalMark c next =>
    simp only [execAt] at hk
    split_ifs at hk with hse
    · cases hk
      exact h.goto_of_same rfl rfl rfl trivial
    obtain ⟨s, -, rfl⟩ := map_eq_some_iff.1 hk
    exact h.goto_of_same rfl rfl rfl trivial

lemma Exclusive.step (h : k.Exclusive) {e : Event n} (hk : k.step e = some k') : k'.Exclusive := by
  cases e with
  | call c =>
    cases hk
    exact h.goto (by cases c <;> trivial)
  | exec allocated => exact h.exec hk
  | setInterrupts o =>
    cases hk
    exact ⟨fun q => (h.places q).of_same fun _ hspin => ⟨hspin, rfl⟩, h.owner⟩
  | sched op =>
    obtain ⟨s, -, rfl⟩ := map_eq_some_iff.1 hk
    exact ⟨fun q => (h.places q).of_same fun _ hspin => ⟨hspin, rfl⟩, h.owner⟩

lemma Reached.exclusive {o : Machine n → Event n → Prop} (h : Reached o k) : k.Exclusive := by
  induction h with
  | start h =>
    refine ⟨fun p => ?_, fun p m hh => ?_⟩
    · rw [h.place p]
      trivial
    rw [h.holding p m] at hh
    cases hh
  | step _ _ hk ih => exact ih.step hk

/-- **Mutexes exclude.** In every state of every run the owner of a mutex is the only
process between a successful acquisition and the matching `kmutex_unlock`. -/
theorem mutex_excludes (h : Reached Allowed k) (m : ℕ) :
    (∀ p, k.holding p m = true → (k.mutexes m).owner = some p) ∧
      ∀ p q, k.holding p m = true → k.holding q m = true → p = q := by
  refine ⟨fun p => h.exclusive.owner p m, fun p q hp hq => ?_⟩
  exact some.inj ((h.exclusive.owner p m hp).symm.trans (h.exclusive.owner q m hq))

/-- The kernel process locks mutex 0, and process 1 wants it too. -/
theorem mutex_excludes_locked :
    ∃ k : Machine 1, Reached Allowed k ∧ k.holding 0 0 = true ∧ k.sched.state 1 = .waiting ∧
      (k.mutexes 0).owner = some 0 ∧ ∀ q, k.holding q 0 = true → q = 0 := by
  have hrun : (run Allowed ([.call (.lock 0)] ++ List.replicate 4 (.exec true) ++
      [.sched (.execute 1), .sched (.procSwitch 1 fun _ => true), .call (.lock 0)] ++
      List.replicate 6 (.exec true)) idle).map (fun k => (k.holding 0 0, k.sched.state 1)) =
        some (true, .waiting) := by
    decide +kernel
  obtain ⟨k, hk, hfacts⟩ := map_eq_some_iff.1 hrun
  obtain ⟨hholding, hwaiting⟩ := Prod.mk.inj hfacts
  have h : Reached Allowed k := (Reached.start initial_idle).run hk
  obtain ⟨howner, hunique⟩ := mutex_excludes h 0
  exact ⟨k, h, hholding, hwaiting, howner 0 hholding, fun q hq => hunique q 0 hq hholding⟩
end Machine
end Menios.Proc
