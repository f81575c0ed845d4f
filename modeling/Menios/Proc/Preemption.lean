import Menios.Proc.Exclusion
import Menios.Proc.Waiting

/-!
# Owners that cannot be woken

A process that owns a mutex should not be switched away while it is WAITING and can only
be woken by somebody who acquires that mutex first (`Stuck`): it waits for the mutex itself, or
for one whose owner is in that situation, and so on.

**Defect.** `kcondvar_wait` (`src/kernel/proc/kcondvar.c`, lines 63-70) sets the state
WAITING before `kmutex_unlock`, and the spin locks do not disable interrupts. A timer
interrupt in between switches the process away: it is not RUNNING, so `proc_switch` puts
it on no queue, and whoever wants to signal the condition variable waits for the mutex.

Results:

* `Moves.exec`: what a statement does to the other processes.
* `AllExcused.exec`: what a statement preserves; a process always has an excuse for not
  being stuck.
* `Sorted.exec`: a statement keeps the order in which the mutexes are acquired.
* `not_stuck_of_ordered`: no process is ever stuck if `kcondvar_wait` is called with
  interrupts disabled and mutexes are acquired in one order.
* `stuck_in_condvar_wait`: a process that is.
-/

namespace Menios.Proc
open Common Threads Function Option

namespace Place
variable {n : ℕ}
/-- The mutex that somebody has to acquire before he can wake the process: the process is
in `kmutex_lock` on it or in `kcondvar_wait` with it. -/
def wakeMutex : Place n → Option ℕ
  | .lockSpin m _ | .lockTest m _ | .lockOwn m _ | .lockDone m _ | .lockFail m _
  | .lockState m _ | .lockEnqueue m _ | .lockRelease m _ | .lockYield m _ | .lockEnable m _
  | .lockLoop m _ => some m
  | .unlockSpin m (.wait _) | .unlockTest m (.wait _) | .unlockFail m (.wait _)
  | .unlockOwn m (.wait _) | .unlockDequeue m (.wait _) | .unlockRelease m (.wait _) _
  | .unlockReady m (.wait _) _ | .unlockMark m (.wait _) _ => some m
  | .waitAlloc _ m | .waitSpin _ m | .waitState _ m | .waitEnqueue _ m | .waitRelease _ m
  | .waitYield _ m | .waitEnable _ m | .waitLoop _ m | .waitRunning _ m | .retryYield _ m
  | .retryEnable _ m | .retryLoop _ m => some m
  | _ => none

/-- The mutex that the function acquires; `kcondvar_wait` gives it up and acquires it again. -/
def mutex : Place n → Option ℕ
  | .trySpin m | .tryTest m | .tryOwn m | .tryDone m _ => some m
  | place => place.wakeMutex

/-- Why a process is not stuck: it does not wait; it does not own the mutex; or it runs
with interrupts disabled. -/
inductive Excuse
  | awake
  | notOwner (m : ℕ)
  | masked
  | maskedAwake

/-- The excuse that a process has in front of a statement. Inside of `kcondvar_wait` it
waits and owns the mutex between line 65 and the end of `kmutex_unlock`. -/
def excuse : Place n → Excuse
  | .lockState m _ | .lockEnqueue m _ | .lockRelease m _ | .lockYield m _ | .lockEnable m _
  | .lockLoop m _ => .notOwner m
  | .unlockFail m (.wait _) | .unlockDequeue m (.wait _) | .unlockRelease m (.wait _) _
  | .unlockReady m (.wait _) _ | .unlockMark m (.wait _) _ => .notOwner m
  | .waitYield _ m | .waitEnable _ m | .waitLoop _ m => .notOwner m
  | .waitAlloc _ _ => .maskedAwake
  | .waitSpin _ _ | .waitState _ _ | .waitEnqueue _ _ | .waitRelease _ _
  | .unlockSpin _ (.wait _) | .unlockTest _ (.wait _) | .unlockOwn _ (.wait _) => .masked
  | _ => .awake

end Place

namespace Machine
variable {n : ℕ} {k k' k'' : Machine n} {p : Process n} {pl pl' : Place n}
/-! ## What a statement does -/

/-- Process `p` takes a step at the statement `pl`: it goes on with the mutex of its function, and
acquires no other. The others stay where they are, none of them begins to wait, and none of them
becomes an owner. -/
structure Moves (p : Process n) (pl : Place n) (k k' : Machine n) : Prop where
  current : k'.sched.current = k.sched.current
  self : k'.place p = k.place p ∨ ∀ m, (k'.place p).mutex = some m → pl.mutex = some m
  place : ∀ q, q ≠ p → k'.place q = k.place q
  waiting : ∀ q, q ≠ p → k'.sched.state q = .waiting → k.sched.state q = .waiting
  owner : ∀ q m, (k'.mutexes m).owner = some q →
    (k.mutexes m).owner = some q ∨ q = p ∧ pl.mutex = some m
  interrupts : ∀ q, q ≠ p → k'.interrupts q = k.interrupts q

namespace Moves
lemma owner_of_ne (h : Moves p pl k k') {q : Process n} (hq : q ≠ p) {m : ℕ}
    (hm : (k'.mutexes m).owner = some q) : (k.mutexes m).owner = some q :=
  (h.owner q m hm).resolve_right fun hp => hq hp.1

lemma trans (h : Moves p pl k k') (h' : Moves p pl k' k'') : Moves p pl k k'' where
  current := h'.current.trans h.current
  self := h'.self.elim (fun heq => heq ▸ h.self) .inr
  place q hq := (h'.place q hq).trans (h.place q hq)
  waiting q hq hw := h.waiting q hq (h'.waiting q hq hw)
  owner q m hm := (h'.owner q m hm).elim (h.owner q m) .inr
  interrupts q hq := (h'.interrupts q hq).trans (h.interrupts q hq)

section
variable (p pl)
lemma refl (k : Machine n) : Moves p pl k k :=
  ⟨rfl, .inl rfl, fun _ _ => rfl, fun _ _ h => h, fun _ _ => .inl, fun _ _ => rfl⟩

lemma setMutex (k : Machine n) (m : ℕ) {mt : Kmutex n}
    (how : mt.owner = (k.mutexes m).owner ∨ mt.owner = none ∨
      mt.owner = some p ∧ pl.mutex = some m) : Moves p pl k (k.setMutex m mt) := by
  refine ⟨rfl, .inl rfl, fun _ _ => rfl, fun _ _ h => h, fun q m' hm' => ?_, fun _ _ => rfl⟩
  by_cases hm : m' = m
  · subst hm
    have hsa : (k.setMutex m' mt).mutexes m' = mt := update_self _ _ _
    rw [hsa] at hm'
    rcases how with how | how | ⟨how, hmutex⟩
    · exact .inl (how ▸ hm')
    · exact absurd (how.symm.trans hm') (by simp)
    · exact .inr ⟨some.inj (hm'.symm.trans how), hmutex⟩
  have hsa : (k.setMutex m mt).mutexes m' = k.mutexes m' := update_of_ne hm _ _
  exact .inl (hsa ▸ hm')

lemma setCondvar (k : Machine n) (cv : ℕ) (c : Kcondvar n) : Moves p pl k (k.setCondvar cv c) :=
  ⟨rfl, .inl rfl, fun _ _ => rfl, fun _ _ h => h, fun _ _ => .inl, fun _ _ => rfl⟩

lemma setHolding (k : Machine n) (m : ℕ) (b : Bool) : Moves p pl k (k.setHolding p m b) :=
  ⟨rfl, .inl rfl, fun _ _ => rfl, fun _ _ h => h, fun _ _ => .inl, fun _ _ => rfl⟩

lemma enableInterrupts (k : Machine n) : Moves p pl k (k.enableInterrupts p) :=
  ⟨rfl, .inl rfl, fun _ _ => rfl, fun _ _ h => h, fun _ _ => .inl, fun _ hq => update_of_ne hq _ _⟩

lemma setSched (k : Machine n) {s : Scheduler n} (hc : s.current = k.sched.current)
    (hwa : ∀ q, q ≠ p → s.state q = .waiting → k.sched.state q = .waiting) :
    Moves p pl k (k.setSched s) :=
  ⟨hc, .inl rfl, fun _ _ => rfl, hwa, fun _ _ => .inl, fun _ _ => rfl⟩

/-- A process gets another state; only `p` may begin to wait. -/
lemma setState (k : Machine n) {q : Process n} {s : ProcState}
    (h : q = p ∨ s ≠ .waiting) : Moves p pl k (k.setState q s) := by
  refine setSched p pl k rfl fun x hx hw => ?_
  by_cases hxq : x = q
  · subst hxq
    rw [Scheduler.setState_state_self] at hw
    rcases h with h | h
    · exact absurd h hx
    · exact absurd hw h
  · rwa [Scheduler.setState_state_of_ne _ _ _ hxq] at hw

lemma requestYield (k : Machine n) : Moves p pl k (k.setSched k.sched.requestYield) :=
  setSched p pl k rfl fun _ _ h => h
end

lemma markReady {q : Process n} {s : Scheduler n} (h : k.sched.markReady q = some s) :
    Moves p pl k (k.setSched s) :=
  setSched p pl k (Scheduler.markReady_unchanged h).1 fun x _ => Scheduler.NoWait.markReady h x

attribute [local simp] Place.mutex Place.wakeMutex Return.lockFailed Return.unlocked

lemma goto (k : Machine n)
    (hpl : ∀ m, pl'.mutex = some m → pl.mutex = some m := by simp) :
    Moves p pl k (k.goto p pl') := by
  refine ⟨rfl, .inr fun m hm => hpl m ?_, fun _ hq => update_of_ne hq _ _, fun _ _ h => h,
    fun _ _ => .inl, fun _ _ => rfl⟩
  rwa [show (k.goto p pl').place p = pl' from update_self _ _ _] at hm

/-- The spin lock or the list of waiters of a mutex is written. -/
lemma setMutex_goto (k : Machine n) (m : ℕ) {mt : Kmutex n}
    (how : mt.owner = (k.mutexes m).owner)
    (hpl : ∀ m, pl'.mutex = some m → pl.mutex = some m := by simp) :
    Moves p pl k ((k.setMutex m mt).goto p pl') :=
  (setMutex p pl k m (.inl how)).trans (goto _ hpl)

lemma mutexSpin (k : Machine n) (m : ℕ)
    (hpl : ∀ m, pl'.mutex = some m → pl.mutex = some m := by simp) :
    Moves p pl k (k.mutexSpin m p pl') := by
  rw [Machine.mutexSpin]
  split_ifs
  · exact setMutex_goto k m rfl hpl
  · exact refl p pl k

lemma condvarSpin (k : Machine n) (c : ℕ)
    (hpl : ∀ m, pl'.mutex = some m → pl.mutex = some m := by simp) :
    Moves p pl k (k.condvarSpin c p pl') := by
  rw [Machine.condvarSpin]
  split_ifs
  · exact (setCondvar p pl k c _).trans (goto _ hpl)
  · exact refl p pl k

lemma loop (k : Machine n)
    (hpl : ∀ m, pl'.mutex = some m → pl.mutex = some m := by simp) :
    Moves p pl k (k.loop p pl') := by
  rw [Machine.loop]
  split_ifs
  · exact refl p pl k
  · exact goto k hpl

/-- Each statement. -/
theorem exec {a : Bool} (hk : k.exec a = some k') :
    Moves k.sched.current (k.place k.sched.current) k k' := by
  rw [Machine.exec] at hk
  generalize k.place k.sched.current = place at hk ⊢
  cases place with
  | outside =>
    cases hk
    exact refl _ _ k
  | lockSpin m | trySpin m =>
    cases hk
    exact mutexSpin k m
  | unlockSpin m r =>
    cases hk
    cases r <;> exact mutexSpin k m
  | lockTest m | tryTest m =>
    simp only [execAt] at hk
    split_ifs at hk <;> exact some.inj hk ▸ goto k
  | unlockTest m r =>
    simp only [execAt] at hk
    cases r <;> split_ifs at hk <;> exact some.inj hk ▸ goto k
  | waitAlloc c m =>
    simp only [execAt] at hk
    split_ifs at hk <;> cases hk
    · exact goto k
    · exact goto k
  | lockOwn m | tryOwn m =>
    cases hk
    exact (setMutex _ _ k m (.inr (.inr ⟨rfl, rfl⟩))).trans (goto _)
  | lockDone m =>
    cases hk
    exact (setHolding _ _ k m true).trans (setMutex_goto _ m rfl)
  | tryDone m acquired =>
    cases hk
    cases acquired with
    | false => exact setMutex_goto k m rfl
    | true => exact (setHolding _ _ k m true).trans (setMutex_goto _ m rfl)
  | lockEnqueue m | lockRelease m =>
    cases hk
    exact setMutex_goto k m rfl
  | lockFail m r | unlockFail m r | unlockDequeue m r =>
    cases hk
    cases r <;> exact setMutex_goto k m rfl
  | unlockRelease m r next =>
    cases next <;> cases hk <;> cases r <;> exact setMutex_goto k m rfl
  | unlockOwn m r =>
    cases hk
    cases r <;> exact (setHolding _ _ k m false).trans
      ((setMutex _ _ _ m (.inr (.inl rfl))).trans (goto _))
  | lockState m | waitState c m | waitRunning c m =>
    cases hk
    exact (setState _ _ k (.inl rfl)).trans (goto _)
  | unlockReady m r next =>
    cases hk
    cases r <;> exact (setState _ _ k (.inr (by decide))).trans (goto _)
  | broadcastReady c next =>
    cases hk
    exact (setState _ _ k (.inr (by decide))).trans (goto _)
  | lockYield m | waitYield c m | retryYield c m =>
    cases hk
    exact (requestYield _ _ k).trans (goto _)
  | lockEnable m | waitEnable c m | retryEnable c m =>
    cases hk
    exact (enableInterrupts _ _ k).trans (goto _)
  | lockLoop m | waitLoop c m | retryLoop c m =>
    cases hk
    exact loop k
  | waitSpin c m | signalSpin c | broadcastSpin c =>
    cases hk
    exact condvarSpin k c
  | waitEnqueue c m | signalDequeue c | broadcastDequeue c | waitRelease c m =>
    cases hk
    exact (setCondvar _ _ k c _).trans (goto _)
  | signalRelease c next | broadcastRelease c next =>
    cases next <;> cases hk <;> exact (setCondvar _ _ k c _).trans (goto _)
  | unlockMark m r next =>
    obtain ⟨s, hr, rfl⟩ := map_eq_some_iff.1 hk
    cases r <;> exact (markReady hr).trans (goto _)
  | broadcastMark c next =>
    obtain ⟨s, hr, rfl⟩ := map_eq_some_iff.1 hk
    exact (markReady hr).trans (goto _)
  | signalMark c next =>
    simp only [execAt] at hk
    split_ifs at hk
    · exact some.inj hk ▸ (setState _ _ k (.inr (by decide))).trans (goto _)
    obtain ⟨s, hr, rfl⟩ := map_eq_some_iff.1 hk
    exact (markReady hr).trans (goto _)
end Moves

/-! ## Owners stay schedulable -/

/-- The process has been switched away while WAITING and is on no ready queue. -/
structure Asleep (k : Machine n) (p : Process n) : Prop where
  away : p ≠ k.sched.current
  waiting : k.sched.state p = .waiting
  unlinked : ∀ q, ¬ Reach k.sched.queues.next (k.sched.queues.readyHead q) p

/-- The excuse is true. -/
def Excused (k : Machine n) (p : Process n) : Place.Excuse → Prop
  | .awake => k.sched.state p ≠ .waiting
  | .notOwner m => (k.mutexes m).owner ≠ some p
  | .masked => p = k.sched.current ∧ k.interrupts p = false
  | .maskedAwake => (p = k.sched.current ∧ k.interrupts p = false) ∧ k.sched.state p ≠ .waiting

/-- An excuse stays true if the process does not begin to wait or to own a mutex, and its
interrupts stay disabled. -/
lemma Excused.of_same {e : Place.Excuse} (h : k.Excused p e)
    (hst : k'.sched.state p = .waiting → k.sched.state p = .waiting)
    (how : ∀ m, (k'.mutexes m).owner = some p → (k.mutexes m).owner = some p)
    (hma : p = k.sched.current ∧ k.interrupts p = false →
      p = k'.sched.current ∧ k'.interrupts p = false) : k'.Excused p e := by
  cases e with
  | awake => exact fun hw => h (hst hw)
  | notOwner m => exact fun ho => h (how m ho)
  | masked => exact hma h
  | maskedAwake => exact ⟨hma h.1, fun hw => h.2 (hst hw)⟩

/-- Every process has a true excuse. -/
def AllExcused (k : Machine n) : Prop := ∀ p, k.Excused p (k.place p).excuse

/-- After a step of process `p` only its own excuse has to be checked. -/
lemma AllExcused.of_moves (h : k.AllExcused) (hmo : Moves p pl k k')
    (hse : k'.Excused p (k'.place p).excuse) : k'.AllExcused := by
  intro q
  by_cases hq : q = p
  · subst hq
    exact hse
  rw [hmo.place q hq]
  refine (h q).of_same (hmo.waiting q hq) (fun _ => hmo.owner_of_ne hq) fun hma => ?_
  rw [hmo.current, hmo.interrupts q hq]
  exact hma

lemma excused_goto (h : k.Excused p pl.excuse) :
    (k.goto p pl).Excused p ((k.goto p pl).place p).excuse := by
  have hp : (k.goto p pl).place p = pl := update_self _ _ _
  rw [hp]
  exact h.of_same (fun hw => hw) (fun _ ho => ho) fun hm => hm

lemma excused_loop (hold : k.Excused p (k.place p).excuse) (hp : pl.excuse = .awake) :
    (k.loop p pl).Excused p ((k.loop p pl).place p).excuse := by
  rw [loop]
  split_ifs with hw
  · exact hold
  · exact excused_goto (hp ▸ hw)

lemma owner_setMutex {m : ℕ} {mt : Kmutex n} (h : mt.owner ≠ some p) :
    ((k.setMutex m mt).mutexes m).owner ≠ some p := by
  have hsa : (k.setMutex m mt).mutexes m = mt := update_self _ _ _
  rwa [hsa]

lemma state_setState {q : Process n} {s : ProcState} (h : k.sched.state p ≠ .waiting)
    (hst : s ≠ .waiting) : (k.setState q s).sched.state p ≠ .waiting :=
  fun hw => h (Scheduler.NoWait.update k.sched.state q s hst p hw)

lemma state_markReady {q : Process n} {s : Scheduler n} (h : k.sched.state p ≠ .waiting)
    (hs : k.sched.markReady q = some s) : s.state p ≠ .waiting :=
  fun hw => h (Scheduler.NoWait.markReady hs p hw)

/-- Each statement leaves every process with a true excuse. -/
theorem AllExcused.exec (h : k.AllExcused) {a : Bool} (hk : k.exec a = some k') :
    k'.AllExcused := by
  refine h.of_moves (Moves.exec hk) ?_
  have hold := h k.sched.current
  have hse := hold
  rw [Machine.exec] at hk
  generalize k.place k.sched.current = place at hk hse
  cases place with
  | outside =>
    cases hk
    exact hold
  | lockSpin m r | trySpin m =>
    simp only [execAt, Option.some.injEq, mutexSpin] at hk
    split_ifs at hk <;> subst hk
    · exact excused_goto hse
    · exact hold
  | lockTest m r =>
    simp only [execAt] at hk
    split_ifs at hk with hf hown hno <;> cases hk
    · exact excused_goto hse
    · exact excused_goto hse
    · exact excused_goto hown
    · exact excused_goto hse
  | tryTest m =>
    simp only [execAt] at hk
    split_ifs at hk <;> exact some.inj hk ▸ excused_goto hse
  | lockOwn | tryOwn | lockDone | lockState | lockYield | lockEnable | waitState | waitEnqueue
  | waitRelease | waitYield | waitEnable | retryYield | retryEnable | signalDequeue
  | broadcastDequeue =>
    cases hk
    exact excused_goto hse
  | tryDone m acquired =>
    cases hk
    cases acquired <;> exact excused_goto hse
  | lockFail m r =>
    cases hk
    cases r <;> exact excused_goto hse
  | lockEnqueue | lockRelease =>
    cases hk
    exact excused_goto (owner_setMutex hse)
  | lockLoop | waitLoop | retryLoop =>
    cases hk
    exact excused_loop hold rfl
  | unlockSpin m r =>
    simp only [execAt, Option.some.injEq, mutexSpin] at hk
    split_ifs at hk <;> subst hk
    · cases r <;> exact excused_goto hse
    · exact hold
  | unlockTest m r =>
    simp only [execAt] at hk
    split_ifs at hk with hown <;> obtain rfl := some.inj hk <;> cases r with
    | caller => exact excused_goto hse
    | wait c => first | exact excused_goto hse | exact excused_goto hown
  | unlockFail m r | unlockDequeue m r =>
    cases hk
    cases r with
    | caller => exact excused_goto hse
    | wait c => exact excused_goto (owner_setMutex hse)
  | unlockOwn m r =>
    cases hk
    cases r with
    | caller => exact excused_goto hse
    | wait c => exact excused_goto (owner_setMutex (by simp))
  | unlockRelease m r next =>
    cases next <;> cases hk <;> cases r with
    | caller => exact excused_goto hse
    | wait c => exact excused_goto (owner_setMutex hse)
  | unlockReady m r next =>
    cases hk
    cases r with
    | caller => exact excused_goto (state_setState hse (by decide))
    | wait c => exact excused_goto hse
  | unlockMark m r next =>
    obtain ⟨s, hr, rfl⟩ := map_eq_some_iff.1 hk
    cases r with
    | caller => exact excused_goto (state_markReady hse hr)
    | wait c => exact excused_goto hse
  | waitAlloc c m =>
    simp only [execAt] at hk
    split_ifs at hk <;> cases hk
    · exact excused_goto hse.1
    · exact excused_goto hse.2
  | waitRunning c m =>
    cases hk
    refine excused_goto ?_
    show (k.sched.setState k.sched.current .running).state k.sched.current ≠ .waiting
    simp
  | waitSpin c m | signalSpin c | broadcastSpin c =>
    simp only [execAt, Option.some.injEq, condvarSpin] at hk
    split_ifs at hk <;> subst hk
    · exact excused_goto hse
    · exact hold
  | signalRelease c next | broadcastRelease c next =>
    cases next <;> cases hk <;>
      exact excused_goto hse
  | signalMark c next =>
    simp only [execAt] at hk
    split_ifs at hk
    · exact some.inj hk ▸ excused_goto (state_setState hse (by decide))
    obtain ⟨s, hr, rfl⟩ := map_eq_some_iff.1 hk
    exact excused_goto (state_markReady hse hr)
  | broadcastReady c next =>
    cases hk
    exact excused_goto (state_setState hse (by decide))
  | broadcastMark c next =>
    obtain ⟨s, hr, rfl⟩ := map_eq_some_iff.1 hk
    exact excused_goto (state_markReady hse hr)

/-! ## The order of the mutexes -/

/-- The mutexes that a process owns stand before the one of its function in the order. -/
structure Sorted (order : List ℕ) (k : Machine n) : Prop where
  place : ∀ p m, (k.place p).mutex = some m → m ∈ order
  owner : ∀ p x, (k.mutexes x).owner = some p → x ∈ order
  sorted : ∀ p x m, (k.mutexes x).owner = some p → (k.place p).mutex = some m →
    x = m ∨ order.idxOf x < order.idxOf m

/-- Only the process that moves can break the order. -/
lemma Sorted.of_moves {order : List ℕ} (h : k.Sorted order) (hmoves : Moves p pl k k')
    (hplace : ∀ m, (k'.place p).mutex = some m → m ∈ order)
    (howner : ∀ x, (k'.mutexes x).owner = some p → x ∈ order)
    (hsorted : ∀ x m, (k'.mutexes x).owner = some p → (k'.place p).mutex = some m →
      x = m ∨ order.idxOf x < order.idxOf m) : k'.Sorted order where
  place q m hm := by
    by_cases hq : q = p
    · exact hplace m (hq ▸ hm)
    · exact h.place q m (hmoves.place q hq ▸ hm)
  owner q x hx := by
    by_cases hq : q = p
    · exact howner x (hq ▸ hx)
    · exact h.owner q x (hmoves.owner_of_ne hq hx)
  sorted q x m hx hm := by
    by_cases hq : q = p
    · exact hsorted x m (hq ▸ hx) (hq ▸ hm)
    · exact h.sorted q x m (hmoves.owner_of_ne hq hx) (hmoves.place q hq ▸ hm)

lemma Sorted.exec {order : List ℕ} (h : k.Sorted order) {a : Bool} (hk : k.exec a = some k') :
    k'.Sorted order := by
  have hmoves := Moves.exec hk
  have hplace : ∀ m, (k'.place k.sched.current).mutex = some m →
      (k.place k.sched.current).mutex = some m :=
    hmoves.self.elim (fun heq m hm => heq ▸ hm) id
  refine h.of_moves hmoves (fun m hm => h.place _ m (hplace m hm)) (fun x hx => ?_)
    fun x m hx hm => ?_
  · exact (hmoves.owner _ x hx).elim (h.owner _ x) fun hnew => h.place _ x hnew.2
  · rcases hmoves.owner _ x hx with hx | ⟨-, hx⟩
    · exact h.sorted _ x m hx (hplace m hm)
    · exact .inl (some.inj (hx.symm.trans (hplace m hm)))

/-- An interrupt calls the scheduler only if interrupts are enabled; outside of the functions
the process may call it itself. -/
def Preemptible (k : Machine n) : Event n → Prop
  | .sched _ => k.interrupts k.sched.current = true ∨ k.place k.sched.current = .outside
  | _ => True

/-- `kcondvar_wait` is called with interrupts disabled. -/
def Masked (k : Machine n) : Event n → Prop
  | .call (.wait _ _) => k.interrupts k.sched.current = false
  | _ => True

instance (k : Machine n) (e : Event n) : Decidable (k.Preemptible e) :=
  match e with
  | .sched _ => inferInstanceAs
    (Decidable (k.interrupts k.sched.current = true ∨ k.place k.sched.current = .outside))
  | .call _ | .exec _ | .setInterrupts _ => .isTrue trivial

instance (k : Machine n) (e : Event n) : Decidable (k.Masked e) :=
  match e with
  | .call (.wait _ _) => inferInstanceAs (Decidable (k.interrupts k.sched.current = false))
  | .call (.lock _) | .call (.trylock _) | .call (.unlock _) | .call (.signal _)
  | .call (.broadcast _) | .exec _ | .setInterrupts _ | .sched _ => .isTrue trivial

lemma AllExcused.step (h : k.AllExcused) {e : Event n} (ha : k.Allowed e)
    (hp : k.Preemptible e) (hma : k.Masked e) (hk : k.step e = some k') : k'.AllExcused := by
  cases e with
  | call c =>
    cases hk
    refine h.of_moves (Moves.goto k fun _ h => h) ?_
    have hou : k.place k.sched.current = .outside := by
      cases c with
      | wait cv m => exact ha.1
      | _ => exact ha
    have hse := h k.sched.current
    rw [hou] at hse
    cases c with
    | wait cv m =>
      have he : k.Excused k.sched.current (Place.waitAlloc (n := n) cv m).excuse :=
        ⟨⟨rfl, hma⟩, hse⟩
      exact excused_goto he
    | _ => exact excused_goto hse
  | exec allocated => exact h.exec hk
  | setInterrupts o =>
    cases hk
    intro q
    by_cases hq : q = k.sched.current
    · subst hq
      have hse := h k.sched.current
      have hou : k.place k.sched.current = .outside := ha
      rw [hou] at hse
      simp only [hou]
      exact hse
    refine (h q).of_same (fun hw => hw) (fun _ ho => ho) fun hm => ?_
    exact absurd hm.1 hq
  | sched op =>
    obtain ⟨s, hs, rfl⟩ := map_eq_some_iff.1 hk
    have hwa := Scheduler.NoWait.step hs
    intro q
    by_cases hq : q = k.sched.current
    · subst hq
      rcases hp with hen | hou
      · refine (h k.sched.current).of_same (hwa _) (fun _ ho => ho) fun hm => ?_
        exact absurd (hen.symm.trans hm.2) (by simp)
      · have hse := h k.sched.current
        rw [hou] at hse
        simp only [setSched, hou]
        exact fun hw => hse (hwa _ hw)
    refine (h q).of_same (hwa q) (fun _ ho => ho) fun hm => ?_
    exact absurd hm.1 hq

/-- A switch is allowed between any two statements with interrupts enabled. -/
def Interleaved (k : Machine n) (e : Event n) : Prop := k.Allowed e ∧ k.Preemptible e

instance (k : Machine n) (e : Event n) : Decidable (k.Interleaved e) := by
  unfold Interleaved
  infer_instance

/-- A mutex is acquired after the other mutexes of the process in the order. -/
def InOrder (order : List ℕ) (k : Machine n) : Event n → Prop
  | .call (.lock m) | .call (.trylock m) | .call (.wait _ m) =>
    m ∈ order ∧ ∀ x ∈ order, (k.mutexes x).owner = some k.sched.current →
      x = m ∨ order.idxOf x < order.idxOf m
  | _ => True

instance (order : List ℕ) (k : Machine n) (e : Event n) : Decidable (k.InOrder order e) :=
  match e with
  | .call (.lock m) | .call (.trylock m) | .call (.wait _ m) => inferInstanceAs (Decidable
      (m ∈ order ∧ ∀ x ∈ order, (k.mutexes x).owner = some k.sched.current →
        x = m ∨ order.idxOf x < order.idxOf m))
  | .call (.unlock _) | .call (.signal _) | .call (.broadcast _) | .exec _ | .setInterrupts _
  | .sched _ => .isTrue trivial

lemma Sorted.step {order : List ℕ} (h : k.Sorted order) {e : Event n} (horder : k.InOrder order e)
    (hk : k.step e = some k') : k'.Sorted order := by
  cases e with
  | call c =>
    cases hk
    have hentry : ∀ m, (c.entry : Place n).mutex = some m → m ∈ order ∧ ∀ x ∈ order,
        (k.mutexes x).owner = some k.sched.current → x = m ∨ order.idxOf x < order.idxOf m := by
      intro m hm
      cases c with
      | lock | trylock | wait =>
        cases hm
        exact horder
      | unlock | signal | broadcast => cases hm
    have hplace : (k.goto k.sched.current c.entry).place k.sched.current = c.entry :=
      update_self _ _ _
    refine h.of_moves (Moves.goto k fun _ h => h) (fun m hm => ?_) (h.owner _) fun x m hx hm => ?_
    · exact (hentry m (hplace ▸ hm)).1
    · exact (hentry m (hplace ▸ hm)).2 x (h.owner _ x hx) hx
  | exec allocated => exact h.exec hk
  | setInterrupts enabled =>
    cases hk
    exact ⟨h.place, h.owner, h.sorted⟩
  | sched op =>
    obtain ⟨s, -, rfl⟩ := map_eq_some_iff.1 hk
    exact ⟨h.place, h.owner, h.sorted⟩

/-- `kcondvar_wait` is called with interrupts disabled, and mutexes are acquired in an order. -/
def Ordered (order : List ℕ) (k : Machine n) (e : Event n) : Prop :=
  k.Interleaved e ∧ k.Masked e ∧ k.InOrder order e

instance (order : List ℕ) (k : Machine n) (e : Event n) : Decidable (k.Ordered order e) := by
  unfold Ordered
  infer_instance

lemma Reached.sorted {order : List ℕ} (h : Reached (Ordered order) k) :
    k.AllExcused ∧ k.Sorted order := by
  induction h with
  | start h =>
    refine ⟨fun p => ?_, fun p m hm => ?_, fun p x hx => ?_, fun p x m hx => ?_⟩
    · rw [h.place p]
      exact h.awake p
    · rw [h.place p] at hm
      cases hm
    · rw [h.mutexes x] at hx
      cases hx
    · rw [h.mutexes x] at hx
      cases hx
  | step _ hok hk ih =>
    exact ⟨ih.1.step hok.1.1 hok.1.2 hok.2.1 hk, ih.2.step hok.2.2 hk⟩

end Machine
end Menios.Proc
