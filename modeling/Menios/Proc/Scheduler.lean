import Menios.Common.Threads

/-!
# Processes and the scheduler

Model of `src/kernel/proc/proc.c`: the ready queues and the sleep queue, the
functions that change the state of a process, and `proc_switch`; and of the part of
`src/kernel/proc/signal.c` that they call.

A process is the number of its `proc_info_t`, and `kernel_process_info` is number 0.
All queues are threaded through the field `next`. A loop over a queue that is not over
after as many steps as there could be nodes has no result (`none`): the queue has a
cycle. The registers of the processes, their address spaces and their open files are
left out. Whether the stack of a process can be written when a signal handler is
called is an input (`copied`).
-/

namespace Menios.Proc
open Common Threads Function

/-- `proc_state_t`. -/
inductive ProcState
  | new | ready | running | waiting | sleeping | zombie | stopped | terminated
  deriving DecidableEq, Repr

/-- A process: `n` of them beside the kernel process. -/
abbrev Process (n : ℕ) := Fin (n + 1)

/-- `kernel_process_info`. -/
def kernelProcess {n : ℕ} : Process n := 0

/-- The index of a ready queue. -/
abbrev Priority := Fin 5

/-- `PROC_PRIO_NORMAL`. -/
def prioNormal : Priority := 2

/-- What `sa_handler` and `sa_restorer` select; `SIG_ERR` is treated as `SIG_DFL`. -/
inductive SigAction
  | ignore
  | default
  | handler (restorer : Bool)
  deriving DecidableEq

/-- `proc_itimer_t`. -/
structure Itimer where
  active : Bool
  expiresUs : UInt64
  intervalUs : UInt64

/-- The new values of a timer that has expired (lines 439-465). -/
def Itimer.next (timer : Itimer) (now : UInt64) : Itimer :=
  if timer.intervalUs = 0 then { timer with active := false }
  else
    let interval := timer.intervalUs
    let steps := (now - timer.expiresUs) / interval + 1
    if timer.expiresUs ≤ now ∧ steps > 0xffffffffffffffff / interval then
      { timer with active := false }
    else
      let expiry :=
        if timer.expiresUs ≤ now then timer.expiresUs + steps * interval else timer.expiresUs
      if expiry ≤ now then
        if 0xffffffffffffffff - now < interval then { timer with active := false }
        else { timer with expiresUs := now + interval }
      else { timer with expiresUs := expiry }

/-- The fields of `proc_info_t` that the modelled functions use, without `state` and
`next`. `timer` is `timers[PROC_ITIMER_REAL]`; `children` is the list from
`first_child` along `sibling_next`. -/
structure ProcInfo (n : ℕ) where
  parent : Option (Process n)
  children : List (Process n)
  pid : BitVec 32
  priority : UInt8
  sleepUntil : UInt64
  quantumUs : UInt64
  timeSliceRemainingUs : UInt64
  waitpidTarget : BitVec 32
  waitpidWaiting : Bool
  exitCode : ℤ
  stopStatus : ℤ
  continueStatus : ℤ
  stopStatusPending : Bool
  continuedPending : Bool
  userMode : Bool
  signalPending : BitVec 32
  signalBlocked : BitVec 32
  signalActions : ℕ → SigAction
  signalWaitActive : Bool
  signalWaitConsume : Bool
  signalWaitMask : BitVec 32
  timer : Itimer

namespace ProcInfo
variable {n : ℕ} (i : ProcInfo n)
/-- The process no longer waits for a child (lines 1205-1206). -/
def endWait : ProcInfo n := { i with waitpidWaiting := false, waitpidTarget := -1 }

/-- The process gets a whole time slice. -/
def newSlice : ProcInfo n := { i with timeSliceRemainingUs := i.quantumUs }

/-- The process is made ready by `proc_mark_ready` (lines 1171-1172). -/
def madeReady : ProcInfo n := { i with timeSliceRemainingUs := i.quantumUs, sleepUntil := 0 }

/-- The time slice of the process is over. -/
def endSlice : ProcInfo n := { i with timeSliceRemainingUs := 0 }

/-- The process asks for a sleep until `due` (lines 1136-1137 and 1151-1152). -/
def sleepsUntil (due : UInt64) (i : ProcInfo n) : ProcInfo n :=
  { i with sleepUntil := due, timeSliceRemainingUs := 0 }

/-- What `proc_waitpid` reports of a stopped process (lines 1187-1191);
`encode_stopped_status` is inlined. -/
def stoppedBy (signo : ℕ) (i : ProcInfo n) : ProcInfo n :=
  { i with
    stopStatus := (signo % 128 : ℕ) * 256 + 127
    stopStatusPending := true
    continueStatus := 0
    continuedPending := false }

/-- What `proc_waitpid` reports of a continued process (lines 1219-1222). -/
def continued : ProcInfo n :=
  { i with stopStatusPending := false, continueStatus := 0xffff, continuedPending := true }

/-- What `proc_waitpid` reports of a dead process (lines 2123-2126 and 2159-2163). -/
def exited (status : ℤ) (i : ProcInfo n) : ProcInfo n :=
  { i with exitCode := status, stopStatusPending := false, continuedPending := false }

/-- The priority is corrected (lines 318-320). -/
def withPriority (priority : UInt8) (i : ProcInfo n) : ProcInfo n := { i with priority := priority }

/-- A signal is pending. -/
def addPending (bit : BitVec 32) (i : ProcInfo n) : ProcInfo n :=
  { i with signalPending := i.signalPending ||| bit }

/-- A signal is no longer pending. -/
def clearPending (bit : BitVec 32) (i : ProcInfo n) : ProcInfo n :=
  { i with signalPending := i.signalPending &&& ~~~bit }

/-- A wait for signals is over. -/
def endSignalWait : ProcInfo n := { i with signalWaitActive := false }

/-- The fields that `scheduler_initialize` writes in `kernel_process_info`
(lines 2077-2098). -/
def kernelInfo (quantum : UInt64) (pid : BitVec 32) (i : ProcInfo n) : ProcInfo n :=
  { i with
    signalPending := 0
    signalBlocked := 0
    stopStatusPending := false
    stopStatus := 0
    continueStatus := 0
    continuedPending := false
    signalWaitActive := false
    signalWaitConsume := false
    signalWaitMask := 0
    signalActions := fun _ => .default
    pid := pid
    priority := 0
    quantumUs := quantum
    timeSliceRemainingUs := quantum }
end ProcInfo

/-! ## The queues -/

/-- The ready queues and the sleep queue: heads, tails and the field `next` of all
processes. -/
structure Queues (n : ℕ) where
  next : Process n → Option (Process n)
  readyHead : Priority → Option (Process n)
  readyTail : Priority → Option (Process n)
  sleepHead : Option (Process n)

/-- The number of steps after which a walk over a queue gives up. -/
def walkLimit (n : ℕ) : ℕ := 2 * n + 3

namespace Queues
variable {n : ℕ}
/-- `ready_queue_remove` (lines 178-204), over the queues `queues`. -/
def readyRemoveFrom (qs : Queues n) (p : Process n) : List Priority → Option (Queues n)
  | [] => some qs
  | q :: queues =>
    match findPrev qs.next p (walkLimit n) none (qs.readyHead q) with
    | none => none
    | some none => readyRemoveFrom qs p queues
    | some (some prev) =>
      some { qs with
        next := unlinkNext qs.next prev p
        readyHead := if prev = none then update qs.readyHead q (qs.next p) else qs.readyHead
        readyTail := if qs.readyTail q = some p then update qs.readyTail q prev else qs.readyTail }

variable (qs : Queues n)
/-- `ready_queue_remove` (lines 178-204). -/
def readyRemove (p : Process n) : Option (Queues n) := qs.readyRemoveFrom p [0, 1, 2, 3, 4]

/-- `sleep_queue_remove` (lines 206-226). -/
def sleepRemove (p : Process n) : Option (Queues n) :=
  match findPrev qs.next p (walkLimit n) none qs.sleepHead with
  | none => none
  | some none => some qs
  | some (some prev) =>
    some { qs with
      next := unlinkNext qs.next prev p
      sleepHead := if prev = none then qs.next p else qs.sleepHead }

/-- `ready_queue_push` (lines 322-329) on queue `q`. -/
def push (q : Priority) (p : Process n) : Queues n :=
  { qs with
    next := pushNext qs.next (qs.readyTail q) p
    readyHead := if qs.readyTail q = none then update qs.readyHead q (some p) else qs.readyHead
    readyTail := update qs.readyTail q (some p) }

/-- The loop of lines 400-403: the node behind which a process that sleeps until `due`
belongs, from `node` on. -/
def sleepPlace (qs : Queues n) (sleepUntil : Process n → UInt64) (due : UInt64) :
    ℕ → Process n → Option (Process n)
  | 0, _ => none
  | fuel + 1, node =>
    match qs.next node with
    | none => some node
    | some next =>
      if sleepUntil next ≤ due then sleepPlace qs sleepUntil due fuel next else some node

/-- `scheduler_sleep_enqueue` (lines 389-406). -/
def sleepInsert (sleepUntil : Process n → UInt64) (p : Process n) : Option (Queues n) :=
  match qs.sleepHead with
  | none => some { qs with next := insertNext qs.next none none p, sleepHead := some p }
  | some head =>
    if sleepUntil p < sleepUntil head then
      some { qs with next := insertNext qs.next (some head) none p, sleepHead := some p }
    else
      (qs.sleepPlace sleepUntil (sleepUntil p) (walkLimit n) head).map fun node =>
        { qs with next := insertNext qs.next (some head) (some node) p }

/-- The first sleeper leaves the sleep queue (lines 413-414). -/
def popSleeper (p : Process n) : Queues n :=
  { qs with sleepHead := qs.next p, next := update qs.next p none }

/-- The first process leaves its ready queue (lines 340-344). -/
def popReady (q : Priority) (p : Process n) : Queues n :=
  { qs with
    readyHead := update qs.readyHead q (qs.next p)
    readyTail := if qs.next p = none then update qs.readyTail q none else qs.readyTail
    next := update qs.next p none }
end Queues

/-- The processes and the variables of the scheduler. `force` and `sleep` are the bits
of `scheduler_actions`. `died` and `revived` are history: which processes have been
zombies, and whether one of those became ready or running afterwards. -/
structure Scheduler (n : ℕ) where
  state : Process n → ProcState
  info : Process n → ProcInfo n
  queues : Queues n
  force : Bool
  sleep : Bool
  current : Process n
  lastExec : UInt64
  procs : Fin 16 → Option (Process n)
  died : Process n → Bool
  revived : Bool

namespace Scheduler
variable {n : ℕ} (s : Scheduler n)
/-- Write fields of a process. -/
@[simps -fullyApplied state queues current sleep procs died revived]
def modify (p : Process n) (f : ProcInfo n → ProcInfo n) : Scheduler n :=
  { s with info := update s.info p (f (s.info p)) }

/-- `proc->state = st`. -/
@[simps -fullyApplied info queues current sleep procs]
def setState (p : Process n) (st : ProcState) : Scheduler n :=
  { s with
    state := update s.state p st
    died := update s.died p (s.died p || st == .zombie)
    revived := s.revived || (s.died p && (st == .ready || st == .running)) }

/-- The pointers of the queues are written. -/
@[simps -fullyApplied state info queues current sleep procs died revived]
def setQueues (qs : Queues n) : Scheduler n := { s with queues := qs }

/-- `ready_queue_remove` (lines 178-204). -/
def readyQueueRemove (p : Process n) : Option (Scheduler n) :=
  (s.queues.readyRemove p).map s.setQueues

/-- `sleep_queue_remove` (lines 206-226). -/
def sleepQueueRemove (p : Process n) : Option (Scheduler n) :=
  (s.queues.sleepRemove p).map s.setQueues

/-- The queue that `ready_queue_push` uses: a priority that is out of range becomes
`PROC_PRIO_NORMAL` (lines 318-320). -/
def queueOf (p : Process n) : Priority :=
  if h : (s.info p).priority.toNat < 5 then ⟨(s.info p).priority.toNat, h⟩ else prioNormal

/-- `ready_queue_push` (lines 313-330). -/
def readyQueuePush (p : Process n) : Scheduler n :=
  (s.modify p (.withPriority (UInt8.ofNat (s.queueOf p)))).setQueues
    (s.queues.push (s.queueOf p) p)

section
variable (s : Scheduler n) (p : Process n) (f : ProcInfo n → ProcInfo n) (st : ProcState)
  (qs : Queues n)
@[simp] lemma readyQueuePush_state : (s.readyQueuePush p).state = s.state := rfl

@[simp] lemma modify_info_self : (s.modify p f).info p = f (s.info p) := by simp [modify]

@[simp] lemma modify_info_of_ne {x : Process n} (h : x ≠ p) : (s.modify p f).info x = s.info x := by
  simp [modify, h]

@[simp] lemma setState_state_self : (s.setState p st).state p = st := by simp [setState]

@[simp] lemma setState_state_of_ne {x : Process n} (h : x ≠ p) :
    (s.setState p st).state x = s.state x := by
  simp [setState, h]

/-- A field of `proc_info_t` that `f` leaves alone. -/
lemma modify_field {β : Type*} (fl : ProcInfo n → β) (h : ∀ i, fl (f i) = fl i)
    (x : Process n) : fl ((s.modify p f).info x) = fl (s.info x) := by
  by_cases hx : x = p
  · subst hx
    rw [modify_info_self, h]
  · rw [modify_info_of_ne _ _ _ hx]

/-- A field of `proc_info_t` other than `priority`. -/
lemma readyQueuePush_field {β : Type*} (fl : ProcInfo n → β)
    (h : ∀ i priority, fl (i.withPriority priority) = fl i) (x : Process n) :
    fl ((s.readyQueuePush p).info x) = fl (s.info x) :=
  s.modify_field p (ProcInfo.withPriority _) fl (fun i => h i _) x
end

/-- `scheduler_sleep_enqueue` (lines 389-406). -/
def sleepEnqueue (p : Process n) : Option (Scheduler n) :=
  (s.queues.sleepInsert (fun p => (s.info p).sleepUntil) p).map s.setQueues

/-- One round of the loop in `scheduler_wake_sleepers` for the first sleeper `p`
(lines 412-417). -/
def wakeFirst (p : Process n) : Scheduler n :=
  (((s.setQueues (s.queues.popSleeper p)).setState p .ready).modify p
    ProcInfo.newSlice).readyQueuePush p

/-- `scheduler_wake_sleepers` (lines 410-419). -/
def wakeSleepers (now : UInt64) : ℕ → Scheduler n → Option (Scheduler n)
  | 0, _ => none
  | fuel + 1, s =>
    match s.queues.sleepHead with
    | none => some s
    | some p =>
      if (s.info p).sleepUntil ≤ now then wakeSleepers now fuel (s.wakeFirst p) else some s

/-- `proc_table_remove` (lines 105-116). -/
def tableRemove (p : Process n) : Scheduler n :=
  match (List.finRange 16).find? fun i => s.procs i = some p with
  | none => s
  | some i => { s with procs := update s.procs i none }

/-- `scheduler_cleanup_process` (lines 469-497). The memory of the process is freed. -/
def cleanupProcess (p : Process n) : Scheduler n := if p = kernelProcess then s else s.tableRemove p

/-- `ready_queue_pop_at_priority` (lines 332-368). -/
def popAtPriority (q : Priority) : ℕ → Scheduler n → Option (Option (Process n) × Scheduler n)
  | 0, _ => none
  | fuel + 1, s =>
    match s.queues.readyHead q with
    | none => some (none, s)
    | some p =>
      let s := s.setQueues (s.queues.popReady q p)
      match s.state p with
      | .zombie => popAtPriority q fuel s
      | .terminated => popAtPriority q fuel (s.cleanupProcess p)
      | .sleeping =>
        match s.sleepEnqueue p with
        | none => none
        | some s => popAtPriority q fuel s
      | .stopped => popAtPriority q fuel s
      | _ => some (some p, s)

/-- `ready_queue_pop_highest` (lines 370-378), over the queues `queues`. -/
def popFrom (s : Scheduler n) : List Priority → Option (Option (Process n) × Scheduler n)
  | [] => some (none, s)
  | q :: queues =>
    match popAtPriority q (walkLimit n) s with
    | none => none
    | some (some p, s) => some (some p, s)
    | some (none, s) => popFrom s queues

/-- `ready_queue_pop_highest` (lines 370-378). -/
def popHighest : Option (Option (Process n) × Scheduler n) := s.popFrom [4, 3, 2, 1, 0]

/-- `ready_queue_highest_priority` (lines 380-387). -/
def highestPriority : Priority :=
  ([4, 3, 2, 1, 0].find? fun q => (s.queues.readyHead q).isSome).getD 0

/-! ## States -/

/-- `proc_mark_ready` (lines 1156-1180). -/
def markReady (p : Process n) : Option (Scheduler n) :=
  if s.state p = .terminated ∨ s.state p = .ready then some s
  else
    (s.sleepQueueRemove p).map fun s =>
      { ((s.setState p .ready).modify p .madeReady).readyQueuePush p with force := true }

/-- The parent of `p` is woken if it waits for it (lines 1202-1209, 1228-1235,
2129-2136 and 2164-2171). -/
def wakeParent (p : Process n) : Option (Scheduler n) :=
  match (s.info p).parent with
  | none => some s
  | some parent =>
    if (s.info parent).waitpidWaiting = true ∧
        ((s.info parent).waitpidTarget = -1 ∨ (s.info parent).waitpidTarget = (s.info p).pid) then
      (s.modify parent .endWait).markReady parent
    else some s

/-- The process leaves the queue it is on (lines 1193-1197). -/
def unlink (p : Process n) : Option (Scheduler n) :=
  if s.state p = .sleeping then s.sleepQueueRemove p
  else if s.state p = .ready then s.readyQueueRemove p
  else some s

/-- `proc_mark_stopped` (lines 1182-1212). -/
def markStopped (p : Process n) (signo : ℕ) : Option (Scheduler n) :=
  if p = kernelProcess then some s
  else
    match (s.modify p (.stoppedBy signo)).unlink p with
    | none => none
    | some s =>
      (((s.setState p .stopped).modify p .endSlice).wakeParent p).map fun s =>
        { s with force := true }

/-- `proc_mark_continued` (lines 1214-1236). -/
def markContinued (p : Process n) : Option (Scheduler n) :=
  if p = kernelProcess then some s
  else
    let s := s.modify p .continued
    if s.state p = .stopped then (s.markReady p).bind fun s => s.wakeParent p
    else s.wakeParent p

/-- `proc_request_yield` (lines 1119-1124). -/
def requestYield : Scheduler n := { s.modify s.current .endSlice with force := true }

/-- `proc_request_sleep` (lines 1126-1144) at the time `now`. -/
def requestSleep (now duration : UInt64) : Scheduler n :=
  if duration = 0 then { s with force := true }
  else
    { s.modify s.current (.sleepsUntil (now + duration)) with sleep := true, force := true }

/-- `proc_request_block` (lines 1146-1154). -/
def requestBlock : Scheduler n :=
  { s.modify s.current (.sleepsUntil 0xffffffffffffffff) with sleep := true, force := true }

/-- `proc_execute` (lines 2062-2072). -/
def execute (p : Process n) : Scheduler n :=
  ((s.setState p .ready).modify p .newSlice).readyQueuePush p

/-- A process becomes a zombie, and its parent learns of it (lines 2122-2138 and
2159-2173). -/
def bury (p : Process n) (status : ℤ) : Option (Scheduler n) :=
  (((s.setState p .zombie).modify p (.exited status)).wakeParent p).map fun s =>
    { s with force := true }

/-- `proc_exit_with_status` (lines 2121-2139). -/
def exitWithStatus (status : ℤ) : Option (Scheduler n) := s.bury s.current status

/-- `proc_exit` (lines 2141-2143). -/
def exit (code : ℤ) : Option (Scheduler n) := s.exitWithStatus (code % 256 * 256)

/-- `proc_exit_signal` (lines 2145-2147). -/
def exitSignal (signo : ℕ) : Option (Scheduler n) := s.exitWithStatus (signo % 128 : ℕ)

/-! ## Signals -/

/-- `sigbit` (include/kernel/signal.h, lines 20-25). -/
def sigbit (signo : ℕ) : BitVec 32 :=
  if signo = 0 ∨ 32 ≤ signo then 0#32 else BitVec.twoPow 32 (signo - 1)

/-- `SIGKILL`. -/
def sigkill : ℕ := 9

/-- `SIGALRM`. -/
def sigalrm : ℕ := 14

/-- `SIGCONT`. -/
def sigcont : ℕ := 18

/-- `SIGSTOP`. -/
def sigstop : ℕ := 19

/-- `SIGTSTP`. -/
def sigtstp : ℕ := 20

/-- `unblockable_mask` (signal.c, lines 24-26). -/
def unblockableMask : BitVec 32 := sigbit sigkill ||| sigbit sigstop

/-- `proc_signal_enqueue` (signal.c, lines 134-143). -/
def signalEnqueue (p : Process n) (signo : ℕ) : Scheduler n :=
  s.modify p (.addPending (sigbit signo))

/-- A process that sleeps or waits is made ready (signal.c, lines 272-274, 290-292 and
298-300). -/
def signalWake (p : Process n) : Option (Scheduler n) :=
  if s.state p = .sleeping ∨ s.state p = .waiting then s.markReady p else some s

/-- The signal is made pending and wakes the process unless it is blocked (signal.c,
lines 270-275 and 296-301). -/
def signalPost (p : Process n) (signo : ℕ) : Option (Scheduler n) :=
  let s := s.signalEnqueue p signo
  if (s.info p).signalBlocked &&& sigbit signo = 0#32 then s.signalWake p else some s

/-- `proc_signal_send` (signal.c, lines 259-303). -/
def signalSend (p : Process n) (signo : ℕ) : Option (Scheduler n) :=
  if sigbit signo = 0#32 then some s
  else if sigbit signo &&& unblockableMask ≠ 0#32 then s.signalPost p signo
  else if (s.info p).signalWaitActive = true ∧
      (s.info p).signalWaitMask &&& sigbit signo ≠ 0#32 then
    let s := s.modify p .endSignalWait
    let s := if (s.info p).signalWaitConsume then s else s.signalEnqueue p signo
    s.signalWake p
  else s.signalPost p signo

/-- `proc_signal_delivery_t`. -/
inductive Delivery
  | none | handled | stopped | terminated
  deriving DecidableEq

/-- What `proc_signal_handle_pending` does with a signal (signal.c, lines 326-426).
`copied`: the frame of the handler could be written to the stack of the process. -/
inductive Verdict
  | ignore | stop | resume | exit | handle
  deriving DecidableEq

/-- The decision of signal.c, lines 326-399. -/
def verdict (copied : Bool) (signo : ℕ) : SigAction → Verdict
  | .ignore => if signo = sigstop then .stop else .ignore
  | .default =>
    if signo = sigstop ∨ signo = sigtstp then .stop
    else if signo = sigcont then .resume
    else .exit
  | .handler restorer => if restorer && copied then .handle else .exit

/-- The loop of `proc_signal_handle_pending` (signal.c, lines 319-427) over the signals
`signals`, in ascending order. `proc_signal_dequeue` starts again at signal 1 in
every round, but the lower signals are not pending or blocked by then. -/
def deliver (copied : Bool) (p : Process n) : List ℕ → Scheduler n → Option (Delivery × Scheduler n)
  | [], s => some (.none, s)
  | signo :: signals, s =>
    if (s.info p).signalPending &&& sigbit signo = 0#32 ∨
        (s.info p).signalBlocked &&& sigbit signo ≠ 0#32 then
      deliver copied p signals s
    else
      let s := s.modify p (.clearPending (sigbit signo))
      match verdict copied signo ((s.info p).signalActions signo) with
      | .ignore => deliver copied p signals s
      | .stop => (s.markStopped p signo).map (.stopped, ·)
      | .resume => (s.markContinued p).map (.handled, ·)
      | .exit => (s.exitSignal signo).map (.terminated, ·)
      | .handle => some (.handled, s)

/-- `proc_signal_handle_pending` (signal.c, lines 305-428). -/
def handlePending (p : Process n) (copied : Bool) : Option (Delivery × Scheduler n) :=
  if (s.info p).userMode = false ∨ p = kernelProcess then some (.none, s)
  else if (s.info p).signalPending = 0#32 then some (.none, s)
  else deliver copied p (List.range' 1 31) s

/-- `proc_signal_handle_pending` may deliver a signal to the process. -/
def Deliverable (p : Process n) : Prop :=
  (s.info p).userMode = true ∧ p ≠ kernelProcess ∧ (s.info p).signalPending ≠ 0#32

lemma handlePending_of_not_deliverable {s : Scheduler n} {p : Process n}
    (h : ¬ s.Deliverable p) (c : Bool) : s.handlePending p c = some (.none, s) := by
  rw [handlePending]
  split_ifs with hmo hp
  · rfl
  · rfl
  rw [not_or] at hmo
  exact absurd ⟨by simpa using hmo.1, hmo.2, hp⟩ h

lemma handlePending_of_deliverable {s : Scheduler n} {p : Process n} (h : s.Deliverable p)
    (c : Bool) : s.handlePending p c = deliver c p (List.range' 1 31) s := by
  rw [handlePending, if_neg (by simp [h.1, h.2.1]), if_neg h.2.2]

/-! ## Timers -/

/-- The body of the loop in `scheduler_check_itimers` (lines 423-465). -/
def checkItimer (now : UInt64) (s : Scheduler n) (slot : Fin 16) : Option (Scheduler n) :=
  match s.procs slot with
  | none => some s
  | some p =>
    if p = kernelProcess ∨ (s.info p).timer.active = false ∨ now < (s.info p).timer.expiresUs then
      some s
    else
      (s.signalSend p sigalrm).map fun s => s.modify p fun i => { i with timer := i.timer.next now }

/-- `scheduler_check_itimers` (lines 421-467). -/
def checkItimers (now : UInt64) : Option (Scheduler n) :=
  (List.finRange 16).foldlM (checkItimer now) s

/-! ## Switching -/

/-- What happens to the process that was running (lines 594-616). -/
def switchAway (toSleep : Bool) : Option (Scheduler n) :=
  let previous := s.current
  if toSleep then (s.setState previous .sleeping).sleepEnqueue previous
  else if s.state previous = .terminated then some (s.cleanupProcess previous)
  else if s.state previous = .running then
    if previous ≠ kernelProcess then
      some (((s.setState previous .ready).modify previous .newSlice).readyQueuePush previous)
    else some (s.modify previous .newSlice)
  else some s

/-- The loop of lines 618-661: processes that die or stop because of a signal are passed
over. `copied k` is the input of the `k`-th call of `proc_signal_handle_pending`. -/
def selectNext (copied : ℕ → Bool) : ℕ → Scheduler n → Option (Scheduler n)
  | 0, _ => none
  | fuel + 1, s =>
    match s.popHighest with
    | none => none
    | some (popped, s) =>
      let s := { s with current := popped.getD kernelProcess }
      match s.handlePending s.current (copied fuel) with
      | none => none
      | some (delivery, s) =>
        if (delivery = .stopped ∨ delivery = .terminated) ∧ s.current ≠ kernelProcess then
          if delivery = .terminated ∧ s.state s.current = .terminated then
            selectNext copied fuel (s.cleanupProcess s.current)
          else selectNext copied fuel s
        else if (s.state s.current = .zombie ∨ s.state s.current = .terminated) ∧
            s.current ≠ kernelProcess then
          if s.state s.current = .terminated then
            selectNext copied fuel (s.cleanupProcess s.current)
          else selectNext copied fuel s
        else some s

/-- The process that was running goes away and another one is selected (lines 585-671). -/
def switchTo (toSleep : Bool) (copied : ℕ → Bool) : Option (Scheduler n) :=
  match s.switchAway toSleep with
  | none => none
  | some s =>
    (selectNext copied (walkLimit n) s).map fun s =>
      (s.setState s.current .running).modify s.current .newSlice

/-- The account of the time slice (lines 564-571). -/
def account (diff : UInt64) : Scheduler n :=
  if s.state s.current = .running then
    s.modify s.current fun i =>
      { i with
        timeSliceRemainingUs :=
          if diff < i.timeSliceRemainingUs then i.timeSliceRemainingUs - diff else 0 }
  else s

/-- Signals of the running process, sleepers and timers (lines 512-558). -/
def switchEvents (now : UInt64) (copied : Bool) : Option (Scheduler n) :=
  match s.handlePending s.current copied with
  | none => none
  | some (_, s) =>
    match wakeSleepers now (walkLimit n) s with
    | none => none
    | some s => s.checkItimers now

/-- `scheduler_actions = 0` (line 562). -/
def clearActions : Scheduler n := { s with force := false, sleep := false }

/-- The running process goes on, or another one is selected (lines 573-671). -/
def reschedule (forced toSleep : Bool) (copied : ℕ → Bool) : Option (Scheduler n) :=
  if (forced || s.state s.current == .terminated) = false ∧ s.state s.current = .running ∧
      0 < (s.info s.current).timeSliceRemainingUs ∧
      (s.highestPriority : ℕ) ≤ (s.info s.current).priority.toNat then
    some s
  else s.switchTo toSleep copied

/-- `proc_switch` (lines 507-721) at the time `now`. -/
def procSwitch (now : UInt64) (copied : ℕ → Bool) : Option (Scheduler n) :=
  let last := if s.lastExec = 0 then now else s.lastExec
  match { s with lastExec := now }.switchEvents now (copied (walkLimit n)) with
  | none => none
  | some s => (s.clearActions.account (now - last)).reschedule s.force s.sleep copied

/-- `scheduler_initialize` (lines 2074-2111). `quantum` is `scheduler_get_quantum` of
`PROC_PRIO_IDLE`, and `pid` is `last_pid`. -/
def schedulerInitialize (quantum : UInt64) (pid : BitVec 32) : Scheduler n :=
  let s := { s with
    current := kernelProcess
    queues :=
      { next := s.queues.next, readyHead := fun _ => none, readyTail := fun _ => none,
        sleepHead := none }
    force := false
    sleep := false
    died := fun _ => false
    revived := false }
  let s := s.modify kernelProcess (.kernelInfo quantum pid)
  s.setState kernelProcess .running

/-! ## Runs -/

/-- The calls of a run. `configure` stands for the system calls that write other fields of
the processes (signal masks, handlers, timers, priorities, parents) or their table. -/
inductive Op (n : ℕ)
  | execute (p : Process n)
  | markReady (p : Process n)
  | markStopped (p : Process n) (signo : ℕ)
  | markContinued (p : Process n)
  | requestYield
  | requestSleep (now duration : UInt64)
  | requestBlock
  | signalSend (p : Process n) (signo : ℕ)
  | exit (code : ℤ)
  | procSwitch (now : UInt64) (copied : ℕ → Bool)
  | configure (info : Process n → ProcInfo n) (procs : Fin 16 → Option (Process n))

/-- One call. -/
def step : Op n → Option (Scheduler n)
  | .execute p => some (s.execute p)
  | .markReady p => s.markReady p
  | .markStopped p signo => s.markStopped p signo
  | .markContinued p => s.markContinued p
  | .requestYield => some s.requestYield
  | .requestSleep now duration => some (s.requestSleep now duration)
  | .requestBlock => some s.requestBlock
  | .signalSend p signo => s.signalSend p signo
  | .exit code => s.exit code
  | .procSwitch now copied => s.procSwitch now copied
  | .configure info procs => some { s with info := info, procs := procs }

/-- The calls one after another. -/
def run (ops : List (Op n)) : Option (Scheduler n) := ops.foldlM step s

/-- The kernel process and one new process in kernel mode. -/
def oneProcess : Scheduler 1 where
  state _ := .new
  info _ :=
    { parent := none, children := [], pid := 0, priority := 2, sleepUntil := 0, quantumUs := 0
      timeSliceRemainingUs := 0, waitpidTarget := 0, waitpidWaiting := false, exitCode := 0
      stopStatus := 0, continueStatus := 0, stopStatusPending := false, continuedPending := false
      userMode := false, signalPending := 0, signalBlocked := 0, signalActions := fun _ => .default
      signalWaitActive := false, signalWaitConsume := false, signalWaitMask := 0
      timer := { active := false, expiresUs := 0, intervalUs := 0 } }
  queues := { next := fun _ => none, readyHead := fun _ => none, readyTail := fun _ => none
              sleepHead := none }
  force := false
  sleep := false
  current := kernelProcess
  lastExec := 0
  procs _ := none
  died _ := false
  revived := false
end Scheduler
end Menios.Proc
