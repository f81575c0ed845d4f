import Menios.Proc.Mutex

/-!
# The life of a process

Model of `proc_fork`, `proc_kill_pid` and `proc_waitpid` (`src/kernel/proc/proc.c`) and of
the system call that waits for a child (`src/kernel/syscall/syscall.c`,
lines 1485-1542), and the runs that they make together with the scheduler and the locks.

The number of a process whose memory was freed (state TERMINATED) or never used (NEW) may
be used again by `proc_fork`; it is another process then. Whether there is memory for a
child is not modelled: a fork that fails is no event. What is read through pointers to
freed memory is what was there last.
-/

namespace Menios.Proc
open Function

namespace ProcInfo
variable {n : ℕ}
/-- The child of a process (lines 1253-1343): a copy of some fields, and zeros. -/
def forked (parent : Process n) (pid : BitVec 32) (quantum : UInt64) (i : ProcInfo n) :
    ProcInfo n :=
  { parent := some parent
    children := []
    pid := pid
    priority := if i.priority.toNat < 5 then i.priority else UInt8.ofNat prioNormal
    sleepUntil := 0
    quantumUs := quantum
    timeSliceRemainingUs := quantum
    waitpidTarget := -1
    waitpidWaiting := false
    exitCode := 0
    stopStatus := 0
    continueStatus := 0
    stopStatusPending := false
    continuedPending := false
    userMode := i.userMode
    signalPending := 0
    signalBlocked := i.signalBlocked &&& ~~~Scheduler.unblockableMask
    signalActions := i.signalActions
    signalWaitActive := false
    signalWaitConsume := false
    signalWaitMask := 0
    timer := i.timer }

/-- `proc_link_child` (lines 228-239). -/
def linkChild (child : Process n) (i : ProcInfo n) : ProcInfo n :=
  { i with children := child :: i.children }

/-- The child is taken from the list (lines 1772-1780). -/
def unlinkChild (child : Process n) (i : ProcInfo n) : ProcInfo n :=
  { i with children := i.children.erase child }

/-- The process waits for a child (syscall.c, lines 1526-1527). -/
def beginWait (pid : BitVec 32) (i : ProcInfo n) : ProcInfo n :=
  { i with waitpidWaiting := true, waitpidTarget := if pid.toInt ≤ 0 then -1 else pid }
end ProcInfo

namespace Scheduler
variable {n : ℕ} (s : Scheduler n)
/-- `proc_table_insert` (lines 85-103): without a free slot the kernel halts. -/
def tableInsert (p : Process n) : Option (Scheduler n) :=
  ((List.finRange 16).find? fun i => s.procs i = some p ∨ s.procs i = none).map fun i =>
    { s with procs := update s.procs i (some p) }

/-- The memory of a new process (`kmalloc` and `memset`, lines 1248-1253). -/
def newProcess (p : Process n) (i : ProcInfo n) : Scheduler n :=
  { s with
    state := update s.state p .new
    info := update s.info p i
    died := update s.died p false }

/-- `proc_fork` (lines 1238-1357). `pid` is `last_pid`, `quantum` the quantum of the
priority of the parent. -/
def fork (parent child : Process n) (pid : BitVec 32) (quantum : UInt64) : Option (Scheduler n) :=
  ((s.newProcess child ((s.info parent).forked parent pid quantum)).tableInsert child).map
    fun s => ((s.setState child .ready).modify parent (.linkChild child)).execute child

/-- `proc_find_by_pid` (lines 67-75). -/
def findByPid (pid : BitVec 32) : Option (Process n) :=
  (List.finRange 16).findSome? fun i => (s.procs i).filter fun p => (s.info p).pid == pid

/-- `proc_kill_pid` (lines 2149-2175), with the value it returns (`-ESRCH` is -3). -/
def killPid (pid : BitVec 32) (code : ℤ) : Option (ℤ × Scheduler n) :=
  match s.findByPid pid with
  | none => some (-3, s)
  | some target =>
    if target = kernelProcess then some (-3, s)
    else if s.state target = .zombie ∨ s.state target = .terminated then some (-3, s)
    else (s.bury target code).map (0, ·)

/-- A zombie is reaped (lines 1766-1788). -/
def reap (parent child : Process n) : Scheduler n :=
  (((s.modify parent (.unlinkChild child)).modify child fun i =>
    { i with parent := none }).setState child .terminated).cleanupProcess child

/-- The loop of `proc_waitpid` over the children `children` (lines 1733-1797):
the result, the status that is stored, and whether a child matched is in the
result `-ECHILD` (-10). `untraced` and `continued` are the options. -/
def waitpidFrom (parent : Process n) (pid : BitVec 32) (untraced continued : Bool) :
    Bool → List (Process n) → Scheduler n → ℤ × Option ℤ × Scheduler n
  | found, [], s => (if 0 < pid.toInt ∧ found = false then -10 else 0, none, s)
  | found, child :: children, s =>
    if pid = -1 ∨ (s.info child).pid = pid then
      if (s.info child).stopStatusPending = true ∧ untraced = true then
        ((s.info child).pid.toInt, some (s.info child).stopStatus,
          (s.modify child fun i => { i with stopStatusPending := false }).modify parent
            ProcInfo.endWait)
      else if (s.info child).continuedPending = true ∧ continued = true then
        ((s.info child).pid.toInt, some (s.info child).continueStatus,
          (s.modify child fun i =>
            { i with continuedPending := false, continueStatus := 0 }).modify parent
            ProcInfo.endWait)
      else if s.state child = .zombie then
        ((s.info child).pid.toInt, some (s.info child).exitCode, s.reap parent child)
      else if 0 < pid.toInt then (0, none, s)
      else waitpidFrom parent pid untraced continued true children s
    else waitpidFrom parent pid untraced continued found children s

variable (parent : Process n)
/-- `proc_waitpid` (lines 1720-1805). -/
def waitpid (pid : BitVec 32) (untraced continued : Bool) : ℤ × Option ℤ × Scheduler n :=
  if (s.info parent).children = [] then (-10, none, s)
  else waitpidFrom parent pid untraced continued false (s.info parent).children s

/-- What `proc_waitpid` leaves: the news of a child were told, or a zombie was reaped. -/
inductive Waited (s : Scheduler n) (parent : Process n) (pid : BitVec 32)
    (children : List (Process n)) : Scheduler n → Prop
  | same : Waited s parent pid children s
  | told (child : Process n) (f : ProcInfo n → ProcInfo n) (hpar : ∀ i, (f i).parent = i.parent)
      (hchildren : ∀ i, (f i).children = i.children) :
      Waited s parent pid children ((s.modify child f).modify parent .endWait)
  | reaped (child : Process n) (hmem : child ∈ children) (hzombie : s.state child = .zombie)
      (hpid : pid = -1 ∨ (s.info child).pid = pid) :
      Waited s parent pid children (s.reap parent child)

lemma Waited.cons {s s' : Scheduler n} {parent : Process n} {p : BitVec 32}
    {c : List (Process n)} (ch : Process n) (h : Waited s parent p c s') :
    Waited s parent p (ch :: c) s' := by
  cases h with
  | same => exact .same
  | told x f hp hc => exact .told x f hp hc
  | reaped x hmem hz hpid => exact .reaped x (List.mem_cons_of_mem _ hmem) hz hpid

lemma waited_from (p : BitVec 32) (u cn f : Bool) (c : List (Process n)) :
    Waited s parent p c (waitpidFrom parent p u cn f c s).2.2 := by
  induction c generalizing f with
  | nil => exact .same
  | cons child c ih =>
    rw [waitpidFrom]
    split_ifs with hma _ _ hz
    · refine .told child _ ?_ ?_ <;> exact fun _ => rfl
    · refine .told child _ ?_ ?_ <;> exact fun _ => rfl
    · exact .reaped child List.mem_cons_self hz hma
    · exact .same
    · exact (ih true).cons child
    · exact (ih f).cons child

lemma waited (p : BitVec 32) (u c : Bool) :
    Waited s parent p (s.info parent).children (s.waitpid parent p u c).2.2 := by
  rw [waitpid]
  split_ifs
  · exact .same
  · exact waited_from s parent p u c false _

/-- One round of the system call up to the switch (syscall.c, lines 1500-1536). -/
def waitpidRound (pid : BitVec 32) (untraced continued nonblock : Bool) : Scheduler n :=
  let r := s.waitpid s.current pid untraced continued
  let s' := r.2.2
  if r.1 ≠ 0 then s'.modify s'.current .endWait
  else
    let s' := (s'.modify s'.current (.beginWait pid)).setState s'.current .waiting
    if nonblock then s' else s'.requestBlock
end Scheduler

namespace Machine
variable {n : ℕ}
/-- The events of a life: those of the scheduler and the locks, and the functions above.
`resume` is the statement of the system call behind the switch (syscall.c, line 1540). -/
inductive LifeEvent (n : ℕ)
  | machine (e : Event n)
  | fork (parent child : Process n) (pid : BitVec 32) (quantum : UInt64)
  | killPid (pid : BitVec 32) (code : ℤ)
  | waitpid (pid : BitVec 32) (untraced continued nonblock : Bool)
  | resume

/-- One event. -/
def lifeStep (k : Machine n) : LifeEvent n → Option (Machine n)
  | .machine e => k.step e
  | .fork parent child pid quantum =>
    (k.sched.fork parent child pid quantum).map fun s => (k.setSched s).goto child .outside
  | .killPid pid code => (k.sched.killPid pid code).map fun r => k.setSched r.2
  | .waitpid pid untraced continued nonblock =>
    some (k.setSched (k.sched.waitpidRound pid untraced continued nonblock))
  | .resume => some (k.setState k.sched.current .running)
end Machine
end Menios.Proc
