import Menios.Proc.Preemption
import Menios.Proc.QueueRuns

/-!
# Wake-ups

A process that is blocked on a mutex or a condition variable has been switched away while
WAITING; it is on no queue, and only `proc_mark_ready` can put it on one.

**Defect.** `kmutex_unlock` (`src/kernel/proc/kmutex.c`, lines 163-166) and
`kcondvar_broadcast` (`src/kernel/proc/kcondvar.c`, lines 135-138) write the state READY
before they call `proc_mark_ready`, and that function returns at once for a process that
is READY. The process is never put on a ready queue. `kcondvar_signal` does not write the
state, but it wakes the process of the first node, which may be a stale one: then no
process that is blocked is woken.

Results:

* `wakeups_kept`: in runs in which nobody is blocked where `kmutex_unlock` and
  `kcondvar_broadcast` take a node off their list, and the first node of `kcondvar_signal` is
  not a stale one, no wake-up is lost.
* `unlock_loses_wakeup`: a run in which it is not.
-/

namespace Menios.Proc
open Common Threads Function Scheduler Option

namespace Place
variable {n : ℕ}
/-- The process is in `kmutex_lock` on this mutex. -/
def lockMutex : Place n → Option ℕ
  | .lockSpin m _ | .lockTest m _ | .lockOwn m _ | .lockDone m _ | .lockFail m _
  | .lockState m _ | .lockEnqueue m _ | .lockRelease m _ | .lockYield m _ | .lockEnable m _
  | .lockLoop m _ => some m
  | _ => none

/-- The process is in `kcondvar_wait` on this condition variable, before it locks the mutex
again. -/
def waitCondvar : Place n → Option ℕ
  | .unlockSpin _ (.wait cv) | .unlockTest _ (.wait cv) | .unlockFail _ (.wait cv)
  | .unlockOwn _ (.wait cv) | .unlockDequeue _ (.wait cv) | .unlockRelease _ (.wait cv) _
  | .unlockReady _ (.wait cv) _ | .unlockMark _ (.wait cv) _ => some cv
  | .waitAlloc cv _ | .waitSpin cv _ | .waitState cv _ | .waitEnqueue cv _ | .waitRelease cv _
  | .waitYield cv _ | .waitEnable cv _ | .waitLoop cv _ | .waitRunning cv _ => some cv
  | _ => none

/-- The process is in one of the functions that wake others, behind the statement that takes the
first node off the list (kmutex.c, line 160; kcondvar.c, lines 110 and 131). -/
def waking : Place n → Bool
  | .unlockRelease _ _ _ | .unlockReady _ _ _ | .unlockMark _ _ _ | .signalRelease _ _
  | .signalMark _ _ | .broadcastSpin _ | .broadcastDequeue _ | .broadcastRelease _ _
  | .broadcastReady _ _ | .broadcastMark _ _ => true
  | _ => false
end Place

namespace Scheduler
variable {n : ℕ} {s : Scheduler n} {p : Process n}
/-- The process is linked on a ready queue. -/
def OnReadyQueue (s : Scheduler n) (p : Process n) : Prop :=
  ∃ q, Reach s.queues.next (s.queues.readyHead q) p

lemma Intact.onReadyQueue_iff (h : s.Intact) (p : Process n) :
    s.OnReadyQueue p ↔ s.state p = .ready := by
  obtain ⟨lists, hl, hmem⟩ := h
  rw [← (hmem p).1]
  refine exists_congr fun q => ?_
  have hls : IsList s.queues.next (s.queues.readyHead q) (lists (some q)) :=
    hl.threaded.list (some q)
  exact hls.reach_iff

end Scheduler

namespace Machine
variable {n : ℕ} {k₀ k k' : Machine n} {p q : Process n}
/-! ## Who is woken -/

/-- The process was switched away while WAITING in `kmutex_lock` on the mutex. -/
structure BlockedOnMutex (k : Machine n) (m : ℕ) (p : Process n) : Prop where
  away : p ≠ k.sched.current
  waiting : k.sched.state p = .waiting
  place : (k.place p).lockMutex = some m

/-- The process was switched away while WAITING in `kcondvar_wait` on the condition
variable. -/
structure BlockedOnCondvar (k : Machine n) (cv : ℕ) (p : Process n) : Prop where
  away : p ≠ k.sched.current
  waiting : k.sched.state p = .waiting
  place : (k.place p).waitCondvar = some cv

/-- The scheduler can run the process, or runs it already. -/
def Runnable (k : Machine n) (p : Process n) : Prop := k.sched.OnReadyQueue p ∨ p = k.sched.current

/-- One of the blocked processes, if there are any, is runnable afterwards. -/
def WakesOne (blocked : Process n → Prop) (k' : Machine n) : Prop :=
  (∃ p, blocked p) → ∃ p, blocked p ∧ k'.Runnable p

/-- All of the blocked processes are runnable afterwards. -/
def WakesAll (blocked : Process n → Prop) (k' : Machine n) : Prop := ∀ p, blocked p → k'.Runnable p

/-! ## Runs -/

/-- What the events of a run have to observe. Nobody is blocked on the mutex or the condition
variable when `kmutex_unlock` or `kcondvar_broadcast` takes a node off its list; if somebody is
blocked when `kcondvar_signal` does, the process of the first node is; and it has not been freed,
and the queues are intact, when the function calls `proc_mark_ready`. -/
def Wakeful (k : Machine n) (e : Event n) : Prop :=
  k.Allowed e ∧ ∀ allocated, e = .exec allocated →
    match k.place k.sched.current with
    | .unlockDequeue m _ => ∀ p, ¬ k.BlockedOnMutex m p
    | .broadcastDequeue cv => ∀ p, ¬ k.BlockedOnCondvar cv p
    | .signalDequeue cv => (∃ p, k.BlockedOnCondvar cv p) →
      ∃ p, k.BlockedOnCondvar cv p ∧ (k.condvars cv).waiters.head? = some p
    | .signalMark _ next => k.sched.Intact ∧ k.sched.state next ≠ .terminated
    | _ => True

/-- A run from a statement that takes a node off its list to the return of the function. The
process that executes it may be interrupted anywhere. -/
inductive Wakes (ok : Machine n → Event n → Prop) (k₀ : Machine n) : Machine n → Prop
  | dequeue {k : Machine n} {allocated : Bool} (hok : ok k₀ (.exec allocated))
      (hk : k₀.exec allocated = some k) : Wakes ok k₀ k
  | step {k k' : Machine n} {e : Event n} (h : Wakes ok k₀ k)
      (hwaking : (k.place k₀.sched.current).waking = true) (hok : ok k e)
      (hk : k.step e = some k') : Wakes ok k₀ k'

/-- A process inside of the functions moves on only by its own statements. -/
lemma place_step {e : Event n} (hallowed : k.Allowed e) (hk : k.step e = some k')
    (hinside : k.place p ≠ .outside)
    (hother : ∀ allocated, e = .exec allocated → p ≠ k.sched.current) :
    k'.place p = k.place p := by
  cases e with
  | call c =>
    cases hk
    refine update_of_ne (fun hcurrent => hinside ?_) _ _
    rw [hcurrent]
    cases c with
    | wait cv m => exact hallowed.1
    | _ => exact hallowed
  | exec allocated => exact (Moves.exec hk).place p (hother allocated rfl)
  | setInterrupts enabled =>
    cases hk
    rfl
  | sched op =>
    obtain ⟨s, -, rfl⟩ := map_eq_some_iff.1 hk
    rfl

/-- Where `kcondvar_signal` is that took the node of `q` off the list: `q` is runnable when it has
returned. -/
def Signals (k : Machine n) (cv : ℕ) (p q : Process n) : Prop :=
  k.place p = .signalRelease cv (some q) ∨ k.place p = .signalMark cv q ∨
    k.place p = .outside ∧ k.Runnable q

lemma Signals.exec {cv : ℕ} {allocated : Bool} (h : k.Signals cv k.sched.current q)
    (hne : q ≠ k.sched.current) (hinside : k.place k.sched.current ≠ .outside)
    (hok : k.Wakeful (.exec allocated)) (hk : k.exec allocated = some k') :
    k'.Signals cv k.sched.current q := by
  rw [Machine.exec] at hk
  rcases h with hplace | hplace | ⟨hplace, -⟩
  · rw [hplace] at hk
    cases hk
    exact .inr (.inl (update_self _ _ _))
  · have hcondition := hok.2 allocated rfl
    rw [hplace] at hk hcondition
    obtain ⟨hintact, hstate⟩ := hcondition
    rw [execAt, if_neg hne] at hk
    obtain ⟨s, hs, rfl⟩ := map_eq_some_iff.1 hk
    obtain ⟨s', hs', hgood, -⟩ := markReady_spec (p := q) (intact_iff_good.1 hintact) (by simp)
    cases hs'.symm.trans hs
    refine .inr (.inr ⟨update_self _ _ _, .inl ?_⟩)
    exact ((intact_iff_good.2 hgood).onReadyQueue_iff q).2 (markReady_state hs hstate)
  · exact absurd hplace hinside

lemma Wakes.signals {cv : ℕ} (h : Wakes Wakeful k₀ k)
    (hplace : k₀.place k₀.sched.current = .signalDequeue cv) (hq : k₀.BlockedOnCondvar cv q)
    (hhead : (k₀.condvars cv).waiters.head? = some q) : k.Signals cv k₀.sched.current q := by
  induction h with
  | dequeue _ hk =>
    rw [Machine.exec, hplace] at hk
    cases hk
    rw [hhead]
    exact .inl (update_self _ _ _)
  | @step k k' e _ hwaking hok hk ih =>
    have hinside : k.place k₀.sched.current ≠ .outside := fun hout => by
      rw [hout] at hwaking
      cases hwaking
    by_cases hexec : ∃ allocated, e = .exec allocated ∧ k₀.sched.current = k.sched.current
    · obtain ⟨allocated, rfl, hcurrent⟩ := hexec
      rw [hcurrent] at ih hinside ⊢
      exact ih.exec (hcurrent ▸ hq.away) hinside hok hk
    · have hsame := place_step hok.1 hk hinside fun allocated he hc => hexec ⟨allocated, he, hc⟩
      rw [Signals, hsame]
      rcases ih with ih | ih | ih
      · exact .inl ih
      · exact .inr (.inl ih)
      · exact absurd ih.1 hinside

lemma Wakes.first {ok : Machine n → Event n → Prop} (h : Wakes ok k₀ k) :
    ∃ allocated, ok k₀ (.exec allocated) := by
  induction h with
  | dequeue hok _ => exact ⟨_, hok⟩
  | step _ _ _ _ ih => exact ih

/-- **When wake-ups are not lost.** A process takes a node off a list in `k₀`, and its function has
returned in `k`; between the two it was interrupted anywhere. -/
theorem wakeups_kept (h : Wakes Wakeful k₀ k)
    (hreturned : (k.place k₀.sched.current).waking = false) :
    (∀ m r, k₀.place k₀.sched.current = .unlockDequeue m r → WakesOne (k₀.BlockedOnMutex m) k) ∧
    (∀ cv, k₀.place k₀.sched.current = .signalDequeue cv → WakesOne (k₀.BlockedOnCondvar cv) k) ∧
    ∀ cv, k₀.place k₀.sched.current = .broadcastDequeue cv →
      WakesAll (k₀.BlockedOnCondvar cv) k := by
  obtain ⟨allocated, hok⟩ := h.first
  have hcondition := hok.2 allocated rfl
  refine ⟨fun m r hplace ⟨p, hp⟩ => ?_, fun cv hplace hblocked => ?_, fun cv hplace p hp => ?_⟩
  · rw [hplace] at hcondition
    exact absurd hp (hcondition p)
  · rw [hplace] at hcondition
    obtain ⟨q, hq, hhead⟩ := hcondition hblocked
    rcases h.signals hplace hq hhead with hinside | hinside | ⟨-, hrunnable⟩
    · rw [hinside] at hreturned
      cases hreturned
    · rw [hinside] at hreturned
      cases hreturned
    · exact ⟨q, hq, hrunnable⟩
  · rw [hplace] at hcondition
    exact absurd hp (hcondition p)

/-- Process 1 locks mutex 0 and waits on condition variable 0; it is switched away, and the kernel
process signals the condition variable. -/
def waitThenSignal : List (Event 1) :=
  [.sched (.execute 1), .sched (.procSwitch 1 fun _ => true), .call (.lock 0)] ++
    List.replicate 4 (.exec true) ++ [.call (.wait 0 0)] ++ List.replicate 13 (.exec true) ++
    [.sched (.procSwitch 2 fun _ => true), .call (.signal 0), .exec true]

/-- The wake-up of process 1 is not lost. -/
theorem wakeups_kept_signal : ∃ k₀ k : Machine 1, Reached Allowed k₀ ∧ k₀.BlockedOnCondvar 0 1 ∧
    Wakes Wakeful k₀ k ∧ WakesOne (k₀.BlockedOnCondvar 0) k := by
  have hrun : (run Allowed waitThenSignal idle).map (fun k => decide (k.sched.current = 0 ∧
      k.place 0 = .signalDequeue 0 ∧ (k.condvars 0).waiters.head? = some 1 ∧
      k.sched.state 0 = .running ∧ k.sched.state 1 = .waiting ∧ (k.place 1).waitCondvar = some 0 ∧
      (∀ q, k.sched.queues.readyHead q = none ∧ k.sched.queues.readyTail q = none) ∧
      k.sched.queues.sleepHead = none)) = some true := by
    decide +kernel
  obtain ⟨k₀, hk₀, hfacts⟩ := map_eq_some_iff.1 hrun
  obtain ⟨hcurrent, hplace, hhead, hrunning, hwaiting, hwait, hready, hsleep⟩ :=
    of_decide_eq_true hfacts
  have hblocked : k₀.BlockedOnCondvar 0 1 := ⟨by rw [hcurrent]; decide, hwaiting, hwait⟩
  have hintact : k₀.sched.Intact := by
    refine ⟨fun _ => [], ⟨⟨fun i => ?_, fun i j p hp => by simp at hp⟩, fun q => (hready q).2⟩, ?_⟩
    · cases i with
      | none => exact hsleep
      | some q => exact (hready q).1
    · intro p
      fin_cases p <;> simp [hrunning, hwaiting]
  -- lines 110, 111 and 119 of kcondvar.c
  obtain ⟨s, hs, -⟩ := markReady_spec (p := 1) (intact_iff_good.1 hintact) (by simp)
  let k₁ := (k₀.condvarDequeue 0).goto 0 (.signalRelease 0 (some 1))
  let k₂ := k₁.condvarRelease 0 0 (.signalMark 0 1)
  have hcurrent₁ : k₁.sched.current = 0 := hcurrent
  have hcurrent₂ : k₂.sched.current = 0 := hcurrent
  have hplace₁ : k₁.place 0 = .signalRelease 0 (some 1) := by simp [k₁, goto]
  have hplace₂ : k₂.place 0 = .signalMark 0 1 := by simp [k₂, condvarRelease, goto]
  have hok : k₀.Wakeful (.exec true) := ⟨trivial, fun _ _ => by
    rw [hcurrent, hplace]
    exact fun _ => ⟨1, hblocked, hhead⟩⟩
  have hok₁ : k₁.Wakeful (.exec true) := ⟨trivial, fun _ _ => by
    rw [hcurrent₁, hplace₁]
    trivial⟩
  have hok₂ : k₂.Wakeful (.exec true) := ⟨trivial, fun _ _ => by
    rw [hcurrent₂, hplace₂]
    exact ⟨hintact, fun hstate => by cases hwaiting.symm.trans hstate⟩⟩
  have h₁ : Wakes Wakeful k₀ k₁ := .dequeue hok (by rw [exec, hcurrent, hplace, execAt, hhead])
  have h₂ : Wakes Wakeful k₀ k₂ := h₁.step (by rw [hcurrent, hplace₁]; rfl) hok₁
    (show k₁.exec true = some k₂ by rw [exec, hcurrent₁, hplace₁]; rfl)
  have h₃ : Wakes Wakeful k₀ ((k₂.setSched s).goto 0 .outside) :=
    h₂.step (by rw [hcurrent, hplace₂]; rfl) hok₂ (show k₂.exec true = _ by
      rw [exec, hcurrent₂, hplace₂, execAt, if_neg (by decide),
        show k₂.sched.markReady 1 = some s from hs]
      rfl)
  refine ⟨k₀, _, (Reached.start initial_idle).run hk₀, hblocked, h₃, ?_⟩
  exact (wakeups_kept h₃ (by simp [hcurrent, goto, Place.waking])).2.1 0 (by rw [hcurrent, hplace])

/-- The process that runs goes on with its function, and nothing interrupts it. -/
def goOn : ℕ → Machine n → Option (Machine n)
  | 0, k => some k
  | statements + 1, k =>
    if (k.place k.sched.current).waking then (k.exec true).bind (goOn statements) else none

lemma Wakes.goOn {statements : ℕ} (h : Wakes Allowed k₀ k)
    (hcurrent : k.sched.current = k₀.sched.current) (hk : goOn statements k = some k') :
    Wakes Allowed k₀ k' := by
  induction statements generalizing k with
  | zero =>
    cases hk
    exact h
  | succ statements ih =>
    rw [Machine.goOn] at hk
    split_ifs at hk with hwaking
    obtain ⟨k₁, hk₁, hrest⟩ := bind_eq_some_iff.1 hk
    have h₁ : Wakes Allowed k₀ k₁ := h.step (e := .exec true) (hcurrent ▸ hwaking) trivial hk₁
    exact ih h₁ ((Moves.exec hk₁).current.trans hcurrent) hrest

/-- The kernel process locks mutex 0; process 1 is started, wants the mutex and is switched
away; the kernel process unlocks the mutex up to line 160. -/
def lockTwice : List (Event 1) :=
  [.call (.lock 0)] ++ List.replicate 4 (.exec true) ++
    [.sched (.execute 1), .sched (.procSwitch 1 fun _ => true), .call (.lock 0)] ++
    List.replicate 7 (.exec true) ++ [.sched (.procSwitch 2 fun _ => true), .call (.unlock 0)] ++
    List.replicate 3 (.exec true)

/-- When the kernel process has unlocked the mutex, process 1 has the state READY, but is on no
queue. -/
theorem unlock_loses_wakeup : ∃ k₀ k : Machine 1, Reached Allowed k₀ ∧
    k₀.place k₀.sched.current = .unlockDequeue 0 .caller ∧ k₀.BlockedOnMutex 0 1 ∧
    Wakes Allowed k₀ k ∧ k.place k₀.sched.current = .outside ∧
    ¬ WakesOne (k₀.BlockedOnMutex 0) k := by
  have hrun : (run Allowed lockTwice idle).map (fun k => decide (k.sched.current = 0 ∧
      k.place 0 = .unlockDequeue 0 .caller ∧ k.sched.state 1 = .waiting ∧
      (k.place 1).lockMutex = some 0 ∧ ((k.exec true).bind (goOn 3)).map (fun k' =>
        decide (k'.place 0 = .outside ∧ k'.sched.current = 0 ∧
          ∀ q, k'.sched.queues.readyHead q = none)) = some true)) = some true := by
    decide +kernel
  obtain ⟨k₀, hk₀, hfacts⟩ := map_eq_some_iff.1 hrun
  obtain ⟨hcurrent, hplace, hwaiting, hlock, hend⟩ := of_decide_eq_true hfacts
  obtain ⟨k, hk, hend⟩ := map_eq_some_iff.1 hend
  obtain ⟨hout, hcurrent', hempty⟩ := of_decide_eq_true hend
  obtain ⟨k₁, hk₁, hgoOn⟩ := bind_eq_some_iff.1 hk
  have hblocked : k₀.BlockedOnMutex 0 1 := ⟨by rw [hcurrent]; decide, hwaiting, hlock⟩
  have h : Wakes Allowed k₀ k := Wakes.goOn (.dequeue trivial hk₁) (Moves.exec hk₁).current hgoOn
  refine ⟨k₀, k, (Reached.start initial_idle).run hk₀, by rw [hcurrent, hplace], hblocked, h,
    by rw [hcurrent, hout], fun hwakes => ?_⟩
  obtain ⟨p, hp, ⟨q, hreach⟩ | hp'⟩ := hwakes ⟨1, hblocked⟩
  · rw [hempty q] at hreach
    cases hreach
  · exact hp.away (by rw [hp', hcurrent', hcurrent])
end Machine
end Menios.Proc
