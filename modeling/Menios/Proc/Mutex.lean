import Menios.Proc.Scheduler

/-!
# Mutexes and condition variables

Model of `src/kernel/proc/kmutex.c` and `src/kernel/proc/kcondvar.c`, statement by
statement. `place` says which statement a process executes next; the process that runs
takes a step of its own (`exec`), and between any two statements there may be a call of
the scheduler (`Event.sched`): a timer interrupt with `proc_switch`, or a wake-up.
`spinlock_lock` does not disable interrupts, so this may happen inside of the sections
that the spin locks protect.

The list of waiters is the list of the processes of its nodes; enqueueing and dequeueing
a node are one step each. Whether `kmalloc` has memory for a node is an input. The error
codes and the segment registers that `kcondvar_wait` saves are left out.
-/

namespace Menios.Proc
open Common
open Function (update)
open Option

/-- `kmutex_t`. `spin` is the process that holds `lock`. -/
structure Kmutex (n : ℕ) where
  spin : Option (Process n)
  owner : Option (Process n)
  waiters : List (Process n)

/-- `kcondvar_t`. -/
structure Kcondvar (n : ℕ) where
  spin : Option (Process n)
  waiters : List (Process n)

/-- Where `kmutex_lock` and `kmutex_unlock` return to: their caller, or `kcondvar_wait`
on the condition variable. -/
inductive Return
  | caller
  | wait (cv : ℕ)
  deriving DecidableEq

/-- The next statement of a process. -/
inductive Place (n : ℕ)
  /-- The process is in none of the functions. -/
  | outside
  /-- kmutex.c, line 58. -/
  | lockSpin (m : ℕ) (r : Return)
  /-- Lines 60, 73 and 94-96. -/
  | lockTest (m : ℕ) (r : Return)
  /-- Line 61. -/
  | lockOwn (m : ℕ) (r : Return)
  /-- Line 65, and the function returns 0. -/
  | lockDone (m : ℕ) (r : Return)
  /-- Lines 74 and 97, and the function returns an error. -/
  | lockFail (m : ℕ) (r : Return)
  /-- Line 106. -/
  | lockState (m : ℕ) (r : Return)
  /-- Line 107. -/
  | lockEnqueue (m : ℕ) (r : Return)
  /-- Line 109. -/
  | lockRelease (m : ℕ) (r : Return)
  /-- Line 111. -/
  | lockYield (m : ℕ) (r : Return)
  /-- Line 112. -/
  | lockEnable (m : ℕ) (r : Return)
  /-- Line 113. -/
  | lockLoop (m : ℕ) (r : Return)
  /-- Line 128. -/
  | trySpin (m : ℕ)
  /-- Line 129. -/
  | tryTest (m : ℕ)
  /-- Line 130. -/
  | tryOwn (m : ℕ)
  /-- Line 136. -/
  | tryDone (m : ℕ) (acquired : Bool)
  /-- Line 148. -/
  | unlockSpin (m : ℕ) (r : Return)
  /-- Line 150. -/
  | unlockTest (m : ℕ) (r : Return)
  /-- Line 151, and the function returns an error. -/
  | unlockFail (m : ℕ) (r : Return)
  /-- Line 159. -/
  | unlockOwn (m : ℕ) (r : Return)
  /-- Line 160. -/
  | unlockDequeue (m : ℕ) (r : Return)
  /-- Line 161. -/
  | unlockRelease (m : ℕ) (r : Return) (next : Option (Process n))
  /-- Line 164. -/
  | unlockReady (m : ℕ) (r : Return) (next : Process n)
  /-- Line 165. -/
  | unlockMark (m : ℕ) (r : Return) (next : Process n)
  /-- kcondvar.c, line 53. -/
  | waitAlloc (cv m : ℕ)
  /-- Line 63. -/
  | waitSpin (cv m : ℕ)
  /-- Line 65. -/
  | waitState (cv m : ℕ)
  /-- Line 66. -/
  | waitEnqueue (cv m : ℕ)
  /-- Line 68. -/
  | waitRelease (cv m : ℕ)
  /-- Line 83. -/
  | waitYield (cv m : ℕ)
  /-- Line 84. -/
  | waitEnable (cv m : ℕ)
  /-- Line 85. -/
  | waitLoop (cv m : ℕ)
  /-- Line 89. -/
  | waitRunning (cv m : ℕ)
  /-- Line 96. -/
  | retryYield (cv m : ℕ)
  /-- Line 97. -/
  | retryEnable (cv m : ℕ)
  /-- Line 98. -/
  | retryLoop (cv m : ℕ)
  /-- Line 109. -/
  | signalSpin (cv : ℕ)
  /-- Line 110. -/
  | signalDequeue (cv : ℕ)
  /-- Line 111. -/
  | signalRelease (cv : ℕ) (next : Option (Process n))
  /-- Lines 115-119. -/
  | signalMark (cv : ℕ) (next : Process n)
  /-- Lines 130 and 141. -/
  | broadcastSpin (cv : ℕ)
  /-- Lines 131 and 142. -/
  | broadcastDequeue (cv : ℕ)
  /-- Lines 132 and 143. -/
  | broadcastRelease (cv : ℕ) (next : Option (Process n))
  /-- Line 136. -/
  | broadcastReady (cv : ℕ) (next : Process n)
  /-- Line 137. -/
  | broadcastMark (cv : ℕ) (next : Process n)
  deriving DecidableEq

/-- Behind a call of `kmutex_lock` that failed. -/
def Return.lockFailed {n : ℕ} (m : ℕ) : Return → Place n
  | .caller => .outside
  | .wait cv => .retryYield cv m

/-- Behind a call of `kmutex_unlock`. -/
def Return.unlocked {n : ℕ} (m : ℕ) : Return → Place n
  | .caller => .outside
  | .wait cv => .waitYield cv m

/-- The process whose state the statement `place` of process `p` writes. -/
def Place.writes {n : ℕ} (p : Process n) : Place n → Option (Process n)
  | .lockState _ _ | .waitState _ _ | .waitRunning _ _ => some p
  | .unlockReady _ _ next | .unlockMark _ _ next | .signalMark _ next => some next
  | .broadcastReady _ next | .broadcastMark _ next => some next
  | _ => none

/-- The scheduler, the locks and the processes. `interrupts` is the interrupt flag of a
process. `holding` is history: the process is between a successful acquisition of the
mutex and the statement of the matching `kmutex_unlock` that gives it up. -/
structure Machine (n : ℕ) where
  sched : Scheduler n
  mutexes : ℕ → Kmutex n
  condvars : ℕ → Kcondvar n
  place : Process n → Place n
  interrupts : Process n → Bool
  holding : Process n → ℕ → Bool

namespace Machine
variable {n : ℕ} (k : Machine n) (p : Process n)
/-- The next statement of the process is `place`. -/
def goto (place : Place n) : Machine n := { k with place := update k.place p place }

/-- Write fields of a mutex. -/
def setMutex (m : ℕ) (mutex : Kmutex n) : Machine n :=
  { k with mutexes := update k.mutexes m mutex }

/-- Write fields of a condition variable. -/
def setCondvar (cv : ℕ) (condvar : Kcondvar n) : Machine n :=
  { k with condvars := update k.condvars cv condvar }

/-- The variables of the scheduler are written. -/
def setSched (sched : Scheduler n) : Machine n := { k with sched := sched }

/-- `spinlock_lock(&mutex->lock)`: the process goes on with `place`, or it spins. -/
def mutexSpin (m : ℕ) (p : Process n) (place : Place n) : Machine n :=
  if (k.mutexes m).spin = none then
    (k.setMutex m { k.mutexes m with spin := some p }).goto p place
  else k

/-- `spinlock_unlock(&mutex->lock)`. -/
def mutexRelease (m : ℕ) (p : Process n) (place : Place n) : Machine n :=
  (k.setMutex m { k.mutexes m with spin := none }).goto p place

/-- `mutex->owner = owner`. -/
def setOwner (m : ℕ) (owner : Option (Process n)) : Machine n :=
  k.setMutex m { k.mutexes m with owner := owner }

/-- `spinlock_lock(&cv->lock)`. -/
def condvarSpin (cv : ℕ) (p : Process n) (place : Place n) : Machine n :=
  if (k.condvars cv).spin = none then
    (k.setCondvar cv { k.condvars cv with spin := some p }).goto p place
  else k

/-- `spinlock_unlock(&cv->lock)`. -/
def condvarRelease (cv : ℕ) (p : Process n) (place : Place n) : Machine n :=
  (k.setCondvar cv { k.condvars cv with spin := none }).goto p place

/-- `kcondvar_dequeue` (kcondvar.c, lines 34-43). -/
def condvarDequeue (cv : ℕ) : Machine n :=
  k.setCondvar cv { k.condvars cv with waiters := (k.condvars cv).waiters.tail }

/-- The process has acquired the mutex, or has given it up. -/
def setHolding (m : ℕ) (b : Bool) : Machine n :=
  { k with holding := update k.holding p (update (k.holding p) m b) }

/-- `proc->state = st`. -/
def setState (k : Machine n) (p : Process n) (st : ProcState) : Machine n :=
  k.setSched (k.sched.setState p st)

/-- `enable_interrupts()`. -/
def enableInterrupts : Machine n := { k with interrupts := update k.interrupts p true }

/-- `while(current->state == PROC_STATE_WAITING)`: the process waits for an interrupt or
goes on with `place`. -/
def loop (place : Place n) : Machine n := if k.sched.state p = .waiting then k else k.goto p place

/-- Process `p`, which runs, executes the statement `place`. `allocated`: `kmalloc` has
memory for a node. -/
def execAt (allocated : Bool) : Place n → Option (Machine n)
  | .outside => some k
  | .lockSpin m r => some (k.mutexSpin m p (.lockTest m r))
  | .lockTest m r =>
    if (k.mutexes m).owner = none then some (k.goto p (.lockOwn m r))
    else if (k.mutexes m).owner = some p then some (k.goto p (.lockFail m r))
    else if allocated then some (k.goto p (.lockState m r))
    else some (k.goto p (.lockFail m r))
  | .lockOwn m r => some ((k.setOwner m (some p)).goto p (.lockDone m r))
  | .lockDone m _ => some ((k.setHolding p m true).mutexRelease m p .outside)
  | .lockFail m r => some (k.mutexRelease m p (r.lockFailed m))
  | .lockState m r => some ((k.setState p .waiting).goto p (.lockEnqueue m r))
  | .lockEnqueue m r =>
    some ((k.setMutex m { k.mutexes m with waiters := (k.mutexes m).waiters ++ [p] }).goto p
      (.lockRelease m r))
  | .lockRelease m r => some (k.mutexRelease m p (.lockYield m r))
  | .lockYield m r => some ((k.setSched k.sched.requestYield).goto p (.lockEnable m r))
  | .lockEnable m r => some ((k.enableInterrupts p).goto p (.lockLoop m r))
  | .lockLoop m r => some (k.loop p (.lockSpin m r))
  | .trySpin m => some (k.mutexSpin m p (.tryTest m))
  | .tryTest m =>
    if (k.mutexes m).owner = none then some (k.goto p (.tryOwn m))
    else some (k.goto p (.tryDone m false))
  | .tryOwn m => some ((k.setOwner m (some p)).goto p (.tryDone m true))
  | .tryDone m acquired =>
    some ((if acquired then k.setHolding p m true else k).mutexRelease m p .outside)
  | .unlockSpin m r => some (k.mutexSpin m p (.unlockTest m r))
  | .unlockTest m r =>
    if (k.mutexes m).owner = some p then some (k.goto p (.unlockOwn m r))
    else some (k.goto p (.unlockFail m r))
  | .unlockFail m r => some (k.mutexRelease m p (r.unlocked m))
  | .unlockOwn m r => some (((k.setHolding p m false).setOwner m none).goto p (.unlockDequeue m r))
  | .unlockDequeue m r =>
    some ((k.setMutex m { k.mutexes m with waiters := (k.mutexes m).waiters.tail }).goto p
      (.unlockRelease m r (k.mutexes m).waiters.head?))
  | .unlockRelease m r none => some (k.mutexRelease m p (r.unlocked m))
  | .unlockRelease m r (some next) => some (k.mutexRelease m p (.unlockReady m r next))
  | .unlockReady m r next => some ((k.setState next .ready).goto p (.unlockMark m r next))
  | .unlockMark m r next =>
    (k.sched.markReady next).map fun s => (k.setSched s).goto p (r.unlocked m)
  | .waitAlloc cv m =>
    if allocated then some (k.goto p (.waitSpin cv m)) else some (k.goto p .outside)
  | .waitSpin cv m => some (k.condvarSpin cv p (.waitState cv m))
  | .waitState cv m => some ((k.setState p .waiting).goto p (.waitEnqueue cv m))
  | .waitEnqueue cv m =>
    some ((k.setCondvar cv { k.condvars cv with waiters := (k.condvars cv).waiters ++ [p] }).goto p
      (.waitRelease cv m))
  | .waitRelease cv m => some (k.condvarRelease cv p (.unlockSpin m (.wait cv)))
  | .waitYield cv m => some ((k.setSched k.sched.requestYield).goto p (.waitEnable cv m))
  | .waitEnable cv m => some ((k.enableInterrupts p).goto p (.waitLoop cv m))
  | .waitLoop cv m => some (k.loop p (.waitRunning cv m))
  | .waitRunning cv m => some ((k.setState p .running).goto p (.lockSpin m (.wait cv)))
  | .retryYield cv m => some ((k.setSched k.sched.requestYield).goto p (.retryEnable cv m))
  | .retryEnable cv m => some ((k.enableInterrupts p).goto p (.retryLoop cv m))
  | .retryLoop cv m => some (k.loop p (.lockSpin m (.wait cv)))
  | .signalSpin cv => some (k.condvarSpin cv p (.signalDequeue cv))
  | .signalDequeue cv =>
    some ((k.condvarDequeue cv).goto p (.signalRelease cv (k.condvars cv).waiters.head?))
  | .signalRelease cv none => some (k.condvarRelease cv p .outside)
  | .signalRelease cv (some next) => some (k.condvarRelease cv p (.signalMark cv next))
  | .signalMark _ next =>
    if next = p then some ((k.setState next .running).goto p .outside)
    else (k.sched.markReady next).map fun s => (k.setSched s).goto p .outside
  | .broadcastSpin cv => some (k.condvarSpin cv p (.broadcastDequeue cv))
  | .broadcastDequeue cv =>
    some ((k.condvarDequeue cv).goto p (.broadcastRelease cv (k.condvars cv).waiters.head?))
  | .broadcastRelease cv none => some (k.condvarRelease cv p .outside)
  | .broadcastRelease cv (some next) => some (k.condvarRelease cv p (.broadcastReady cv next))
  | .broadcastReady cv next => some ((k.setState next .ready).goto p (.broadcastMark cv next))
  | .broadcastMark cv next =>
    (k.sched.markReady next).map fun s => (k.setSched s).goto p (.broadcastSpin cv)

/-- The process that runs executes its next statement. -/
def exec (allocated : Bool) : Option (Machine n) :=
  k.execAt k.sched.current allocated (k.place k.sched.current)

/-- What a statement does to the scheduler; `written` is the process whose state it
writes. -/
inductive Effect (s : Scheduler n) (written : Option (Process n)) : Scheduler n → Prop
  | same : Effect s written s
  | yield : Effect s written s.requestYield
  | state {x : Process n} {st : ProcState} (hx : written = some x)
      (hst : st = .waiting ∨ st = .ready ∨ st = .running) : Effect s written (s.setState x st)
  | ready {x : Process n} {s' : Scheduler n} (hx : written = some x)
      (h : s.markReady x = some s') : Effect s written s'

lemma mutexSpin_sched (m : ℕ) (p : Process n) (pl : Place n) :
    (k.mutexSpin m p pl).sched = k.sched := by
  rw [mutexSpin]
  split_ifs <;> rfl

lemma condvarSpin_sched (c : ℕ) (p : Process n) (pl : Place n) :
    (k.condvarSpin c p pl).sched = k.sched := by
  rw [condvarSpin]
  split_ifs <;> rfl

lemma loop_sched (pl : Place n) : (k.loop p pl).sched = k.sched := by
  rw [loop]
  split_ifs <;> rfl

lemma execAt_effect {k k' : Machine n} {p : Process n} {a : Bool} {pl : Place n}
    (h : k.execAt p a pl = some k') : Effect k.sched (pl.writes p) k'.sched := by
  have hsa : k'.sched = k.sched → Effect k.sched (pl.writes p) k'.sched := fun he => he ▸ .same
  cases pl with
  | outside | lockOwn | lockDone | lockFail | lockEnqueue | lockRelease | lockEnable | tryOwn
  | unlockFail | unlockOwn | unlockDequeue | waitEnqueue | waitRelease | waitEnable
  | retryEnable | signalDequeue | broadcastDequeue => exact hsa (some.inj h ▸ rfl)
  | lockSpin m r | trySpin m | unlockSpin m r => exact hsa (some.inj h ▸ mutexSpin_sched k m p _)
  | waitSpin c m | signalSpin c | broadcastSpin c =>
    exact hsa (some.inj h ▸ condvarSpin_sched k c p _)
  | lockLoop m r | waitLoop c m | retryLoop c m => exact hsa (some.inj h ▸ loop_sched k p _)
  | tryDone m acquired =>
    refine hsa (some.inj h ▸ ?_)
    cases acquired <;> rfl
  | lockTest m r | tryTest m | unlockTest m r | waitAlloc c m =>
    rw [execAt] at h
    split_ifs at h <;> exact hsa (some.inj h ▸ rfl)
  | unlockRelease m r next | signalRelease c next | broadcastRelease c next =>
    cases next <;> exact hsa (some.inj h ▸ rfl)
  | lockYield m r | waitYield c m | retryYield c m => exact some.inj h ▸ .yield
  | lockState m r | waitState c m => exact some.inj h ▸ .state rfl (.inl rfl)
  | waitRunning c m => exact some.inj h ▸ .state rfl (.inr (.inr rfl))
  | unlockReady m r next | broadcastReady c next => exact some.inj h ▸ .state rfl (.inr (.inl rfl))
  | unlockMark m r next | broadcastMark c next =>
    obtain ⟨s, hr, rfl⟩ := map_eq_some_iff.1 h
    exact .ready rfl hr
  | signalMark c next =>
    rw [execAt] at h
    split_ifs at h
    · exact some.inj h ▸ .state rfl (.inr (.inr rfl))
    obtain ⟨s, hr, rfl⟩ := map_eq_some_iff.1 h
    exact .ready rfl hr

/-- The functions. -/
inductive Call
  | lock (m : ℕ)
  | trylock (m : ℕ)
  | unlock (m : ℕ)
  | wait (cv m : ℕ)
  | signal (cv : ℕ)
  | broadcast (cv : ℕ)

/-- The first statement of a function. -/
def Call.entry : Call → Place n
  | .lock m => .lockSpin m .caller
  | .trylock m => .trySpin m
  | .unlock m => .unlockSpin m .caller
  | .wait cv m => .waitAlloc cv m
  | .signal cv => .signalSpin cv
  | .broadcast cv => .broadcastSpin cv

/-- The events of a run: the process that runs calls a function, executes its next
statement, or sets its interrupt flag; or the scheduler is called. -/
inductive Event (n : ℕ)
  | call (c : Call)
  | exec (allocated : Bool)
  | setInterrupts (on : Bool)
  | sched (op : Scheduler.Op n)

/-- One event. -/
def step (k : Machine n) : Event n → Option (Machine n)
  | .call c => some (k.goto k.sched.current c.entry)
  | .exec allocated => k.exec allocated
  | .setInterrupts on => some { k with interrupts := update k.interrupts k.sched.current on }
  | .sched op => (k.sched.step op).map k.setSched

/-- A function is called, and the interrupt flag set, outside of the functions; and
`kcondvar_wait` is called by a process that holds the mutex. -/
def Allowed : Event n → Prop
  | .call (.wait _ m) => k.place k.sched.current = .outside ∧ k.holding k.sched.current m = true
  | .call _ => k.place k.sched.current = .outside
  | .setInterrupts _ => k.place k.sched.current = .outside
  | _ => True

instance (k : Machine n) (e : Event n) : Decidable (k.Allowed e) := by
  unfold Allowed
  split <;> infer_instance

/-- All mutexes are free, no process is in one of the functions, and none waits. -/
structure Initial (k : Machine n) : Prop where
  mutexes : ∀ m, k.mutexes m = { spin := none, owner := none, waiters := [] }
  condvars : ∀ cv, k.condvars cv = { spin := none, waiters := [] }
  place : ∀ p, k.place p = .outside
  holding : ∀ p m, k.holding p m = false
  awake : ∀ p, k.sched.state p ≠ .waiting

/-- The states of a run whose events satisfy `ok`. -/
inductive Reached (ok : Machine n → Event n → Prop) : Machine n → Prop
  | start {k : Machine n} (h : k.Initial) : Reached ok k
  | step {k k' : Machine n} {e : Event n} (h : Reached ok k) (hok : ok k e)
      (hk : k.step e = some k') : Reached ok k'

/-- The events one after another, as long as they satisfy `ok`. -/
def run (ok : Machine n → Event n → Prop) [∀ k e, Decidable (ok k e)] :
    List (Event n) → Machine n → Option (Machine n)
  | [], k => some k
  | e :: es, k => if ok k e then (k.step e).bind (run ok es) else none

lemma Reached.run {o : Machine n → Event n → Prop} [∀ k e, Decidable (o k e)]
    {es : List (Event n)} {k k' : Machine n} (h : Reached o k) (hk : run o es k = some k') :
    Reached o k' := by
  induction es generalizing k with
  | nil => exact some.inj hk ▸ h
  | cons e es ih =>
    rw [Machine.run] at hk
    split_ifs at hk with hok
    obtain ⟨k1, hst, hr⟩ := Option.bind_eq_some_iff.1 hk
    exact ih (h.step hok hst) hr

/-- Two processes, one mutex and one condition variable that nobody has used. -/
def idle : Machine 1 where
  sched := Scheduler.oneProcess.schedulerInitialize 0 0
  mutexes _ := { spin := none, owner := none, waiters := [] }
  condvars _ := { spin := none, waiters := [] }
  place _ := .outside
  interrupts _ := true
  holding _ _ := false

lemma initial_idle : idle.Initial :=
  ⟨fun _ => rfl, fun _ => rfl, fun _ => rfl, fun _ _ => rfl, by decide⟩
end Machine
end Menios.Proc
