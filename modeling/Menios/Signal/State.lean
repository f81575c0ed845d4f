import Menios.Common.Errno
import Menios.Proc.Delivery

/-!
# The signal state of a process

Model of the fields of `proc_info_t` that `src/kernel/proc/signal.c` keeps for each process
(pending signals, blocked signals, actions, waits), of the functions there that change them
and of the system calls that call these functions (`src/kernel/syscall/syscall.c`, lines
2147-2539). `siginfo_t` values are left out.

A system call that blocks is cut where other code can run: what happens before the process
waits and what happens after it is woken are two events.

Results:

* `SignalState.Guarded`: what the mask and the actions of `SIGKILL` and `SIGSTOP` look like;
  `Guarded.call`, `Guarded.copy`: every call keeps it.
* `kill_and_stop_stay_default`: the two signals are never blocked, ignored or caught.
-/

namespace Menios.Proc
open Scheduler Function

/-- `SIGNAL_ALLOWED_MASK` (include/kernel/signal.h, line 18). -/
def signalAllowedMask : BitVec 32 := 0x7fffffff#32

/-- `SIG_DFL`. -/
def sigDfl : UInt64 := 0

/-- `SIG_IGN`. -/
def sigIgn : UInt64 := 1

/-- `SIG_ERR`. -/
def sigErr : UInt64 := 0xffffffffffffffff

/-- `struct sigaction` (include/signal.h, lines 35-43). -/
structure Sigaction where
  handler : UInt64
  mask : BitVec 32
  flags : BitVec 32
  restorer : UInt64

namespace Sigaction
/-- The action of `proc_signal_state_initialize` (signal.c, lines 95-100). -/
def default : Sigaction where
  handler := sigDfl
  mask := 0#32
  flags := 0#32
  restorer := 0

/-- What the tests of signal.c, lines 327-351, make of an action. -/
def kind (a : Sigaction) : SigAction :=
  if a.handler = sigIgn then .ignore
  else if a.handler = sigDfl ∨ a.handler = sigErr then .default
  else .handler (decide (a.restorer ≠ 0))

end Sigaction

scoped instance neZero32 : NeZero 32 := ⟨by decide⟩

/-- The signal fields of `proc_info_t` (include/kernel/proc.h, lines 169-186). -/
structure SignalState where
  pending : BitVec 32
  blocked : BitVec 32
  actions : Fin 32 → Sigaction
  waitActive : Bool
  waitConsume : Bool
  waitResultReady : Bool
  waitMask : BitVec 32
  waitResult : ℕ
  sigsuspendActive : Bool
  sigsuspendOldmask : BitVec 32

/-- A pointer that a system call reads through: null, not readable, or a value. -/
inductive UserArg (α : Type)
  | null
  | fault
  | value (a : α)

/-- A pointer that a system call writes through: null, not writable, or written. -/
inductive UserOut
  | null
  | fault
  | ok

/-- The result of a system call whose last step is to write `out`. -/
def UserOut.finish (out : UserOut) (rc : ℤ) : ℤ :=
  match out with
  | .fault => if rc = 0 then -efault else rc
  | .null | .ok => rc

/-- What becomes of a signal that `proc_signal_handle_pending` takes. -/
inductive Outcome
  | none
  | stopped (signo : ℕ)
  | continued
  | terminated (signo : ℕ)
  | handled (signo : ℕ)
  deriving DecidableEq

namespace SignalState
/-! ## The functions of signal.c -/

/-- The state after `proc_signal_state_initialize` (lines 74-101). -/
def stateInitialize : SignalState where
  pending := 0#32
  blocked := 0#32
  actions _ := Sigaction.default
  waitActive := false
  waitConsume := false
  waitResultReady := false
  waitMask := 0#32
  waitResult := 0
  sigsuspendActive := false
  sigsuspendOldmask := 0#32

/-- `proc_signal_state_copy` (lines 103-125): the state of `dst` afterwards. -/
def stateCopy (src : SignalState) : SignalState :=
  { stateInitialize with
    blocked := src.blocked &&& ~~~unblockableMask
    actions := src.actions }

variable (st : SignalState)
/-- `proc_signal_set_blocked` (lines 127-132). -/
def setBlocked (mask : BitVec 32) : SignalState :=
  { st with blocked := (mask &&& signalAllowedMask) &&& ~~~unblockableMask }

/-- `proc_signal_enqueue` (lines 134-143). -/
def enqueue (signo : ℕ) : SignalState := { st with pending := st.pending ||| sigbit signo }

/-- A signal is taken from the pending ones. -/
def clearPending (signo : ℕ) : SignalState := { st with pending := st.pending &&& ~~~sigbit signo }

/-- `proc_signal_take_pending` (lines 44-72): the signal, or 0. -/
def takePending (mask : BitVec 32) : ℕ × SignalState :=
  let mask := (mask &&& signalAllowedMask) &&& ~~~unblockableMask
  match (List.range' 1 31).find? fun signo =>
      decide (mask &&& sigbit signo ≠ 0#32 ∧ st.pending &&& sigbit signo ≠ 0#32) with
  | none => (0, st)
  | some signo => (signo, st.clearPending signo)

/-- `proc_signal_configure_action` (lines 191-224): the return value, `old_action` and the
state. -/
def configureAction (signo : ℤ) (newAction : Option Sigaction) :
    ℤ × Option Sigaction × SignalState :=
  if h : 0 < signo ∧ signo < 32 then
    let slot : Fin 32 := ⟨signo.toNat, by omega⟩
    match newAction with
    | none => (0, some (st.actions slot), st)
    | some action =>
      if slot.val = sigkill ∨ slot.val = sigstop then (-einval, some (st.actions slot), st)
      else
        (0, some (st.actions slot),
          { st with
            actions := update st.actions slot
              { action with mask := action.mask &&& signalAllowedMask } })
  else (-einval, none, st)

/-- `proc_signal_modify_mask` (lines 226-257): the return value, `old_mask` and the state. -/
def modifyMask (how : ℤ) (mask : BitVec 32) : ℤ × BitVec 32 × SignalState :=
  let mask := mask &&& signalAllowedMask
  if how = 0 then
    (0, st.blocked, { st with blocked := (st.blocked ||| mask) &&& ~~~unblockableMask })
  else if how = 1 then
    (0, st.blocked, { st with blocked := (st.blocked &&& ~~~mask) &&& ~~~unblockableMask })
  else if how = 2 then (0, st.blocked, { st with blocked := mask &&& ~~~unblockableMask })
  else (-einval, st.blocked, st)

/-- `proc_signal_send` (lines 259-303), without the wake-up. -/
def send (signo : ℕ) : SignalState :=
  if sigbit signo = 0#32 then st
  else if sigbit signo &&& unblockableMask ≠ 0#32 then st.enqueue signo
  else if st.waitActive = true ∧ st.waitMask &&& sigbit signo ≠ 0#32 then
    let st := { st with waitActive := false, waitResultReady := true, waitResult := signo }
    if st.waitConsume then st else st.enqueue signo
  else st.enqueue signo

/-- The loop of `proc_signal_handle_pending` (lines 319-427) over `signals`, in ascending
order. `copied`: the frame of the handler could be written to the user stack. -/
def deliver (copied : Bool) : List ℕ → SignalState → Outcome × SignalState
  | [], st => (.none, st)
  | signo :: signals, st =>
    if st.pending &&& sigbit signo = 0#32 ∨ st.blocked &&& sigbit signo ≠ 0#32 then
      deliver copied signals st
    else
      let st := st.clearPending signo
      match verdict copied signo (st.actions (Fin.ofNat 32 signo)).kind with
      | .ignore => deliver copied signals st
      | .stop => (.stopped signo, st)
      | .resume => (.continued, st)
      | .exit => (.terminated signo, st)
      | .handle => (.handled signo, st)

/-- `proc_signal_handle_pending` (lines 305-428). `user`: the process runs in user mode and
is not the kernel process. -/
def handlePending (user copied : Bool) : Outcome × SignalState :=
  if user = false ∨ st.pending = 0#32 then (.none, st)
  else deliver copied (List.range' 1 31) st

/-! ## The system calls -/

/-- `syscall_sigaction_handler` (syscall.c, lines 2147-2185): `rax` and the state. -/
def sigaction (signo : ℤ) (act : UserArg Sigaction) (oldact : UserOut) : ℤ × SignalState :=
  match act with
  | .fault => (-efault, st)
  | .null =>
    let (rc, _, st) := st.configureAction signo none
    (oldact.finish rc, st)
  | .value action =>
    let (rc, _, st) := st.configureAction signo (some action)
    (oldact.finish rc, st)

/-- `syscall_sigprocmask_handler` (syscall.c, lines 2187-2225): `rax` and the state. -/
def sigprocmask (how : ℤ) (set : UserArg (BitVec 32)) (oldset : UserOut) : ℤ × SignalState :=
  match set with
  | .fault => (-efault, st)
  | .null => (oldset.finish 0, st)
  | .value mask =>
    let (rc, _, st) := st.modifyMask how mask
    (oldset.finish rc, st)

/-- The fields that are reset when a wait for signals ends (syscall.c, lines 2304-2307,
2322-2325, 2369-2372 and 2417-2420). -/
def endWait : SignalState :=
  { st with waitActive := false, waitConsume := false, waitResultReady := false }

/-- `mask` of `syscall_sigwaitinfo_handler` (syscall.c, lines 2273-2274). -/
def waitSet (set : BitVec 32) : BitVec 32 := (set &&& signalAllowedMask) &&& ~~~unblockableMask

/-- The first attempt of `syscall_sigwaitinfo_handler` to take a signal (syscall.c, lines
2297-2317). -/
def sigwaitTake (set : BitVec 32) : ℕ × SignalState :=
  let (signo, st) := st.takePending (waitSet set)
  (signo, if signo = 0 then st else st.endWait)

/-- The second attempt and the start of the wait (syscall.c, lines 2336-2364); an empty set
does not come this far (lines 2275-2278). -/
def sigwaitBlock (set : BitVec 32) : ℕ × SignalState :=
  let (signo, st) := st.takePending (waitSet set)
  (signo,
    if signo = 0 ∧ waitSet set ≠ 0#32 then
      { st with
        waitActive := true
        waitConsume := true
        waitMask := waitSet set
        waitResultReady := false
        waitResult := 0 }
    else st)

/-- The first half of `syscall_sigsuspend_handler` (syscall.c, lines 2435-2461). -/
def sigsuspend (mask : UserArg (BitVec 32)) : SignalState :=
  match mask with
  | .null | .fault => st
  | .value mask =>
    { st.setBlocked ((mask &&& signalAllowedMask) &&& ~~~unblockableMask) with
      sigsuspendActive := true
      sigsuspendOldmask := st.blocked }

/-- The second half of `syscall_sigsuspend_handler` (syscall.c, lines 2488-2491). -/
def sigsuspendRestore : SignalState :=
  { st.setBlocked st.sigsuspendOldmask with
    sigsuspendActive := false
    sigsuspendOldmask := 0#32 }

/-- `syscall_sigreturn_handler` (syscall.c, lines 2498-2539): the mask. `saved` is
`signal_mask` of the frame that `rdi` points to. -/
def sigreturn (saved : UserArg (BitVec 64)) : SignalState :=
  match saved with
  | .null | .fault => st
  | .value mask => st.setBlocked (mask.setWidth 32)
end SignalState

/-! ## Runs -/

/-- What can happen to the signal state of one process. -/
inductive SignalCall
  | sigaction (signo : ℤ) (act : UserArg Sigaction) (oldact : UserOut)
  | sigprocmask (how : ℤ) (set : UserArg (BitVec 32)) (oldset : UserOut)
  | sigsuspend (mask : UserArg (BitVec 32))
  | sigsuspendRestore
  | sigwaitTake (set : BitVec 32)
  | sigwaitBlock (set : BitVec 32)
  | sigwaitEnd
  | send (signo : ℕ)
  | handlePending (user copied : Bool)
  | sigreturn (saved : UserArg (BitVec 64))

/-- The state of the process after the call. -/
def SignalState.call (st : SignalState) : SignalCall → SignalState
  | .sigaction signo act oldact => (st.sigaction signo act oldact).2
  | .sigprocmask how set oldset => (st.sigprocmask how set oldset).2
  | .sigsuspend mask => st.sigsuspend mask
  | .sigsuspendRestore => st.sigsuspendRestore
  | .sigwaitTake set => (st.sigwaitTake set).2
  | .sigwaitBlock set => (st.sigwaitBlock set).2
  | .sigwaitEnd => st.endWait
  | .send signo => st.send signo
  | .handlePending user copied => (st.handlePending user copied).2
  | .sigreturn saved => st.sigreturn saved

/-- A process does something, is created, or is forked by another one. -/
inductive SignalEvent (ι : Type)
  | call (p : ι) (c : SignalCall)
  | create (p : ι)
  | fork (parent child : ι)

section
variable {ι : Type} [DecidableEq ι]
open SignalState

/-- The signal states of all processes after an event. -/
def signalStep (t : ι → SignalState) : SignalEvent ι → ι → SignalState
  | .call p c => update t p ((t p).call c)
  | .create p => update t p stateInitialize
  | .fork parent child => update t child (t parent).stateCopy

/-- The signal states reached by a run. -/
inductive SignalsReached : (ι → SignalState) → Prop
  | start : SignalsReached fun _ => stateInitialize
  | step {t : ι → SignalState} (e : SignalEvent ι) (h : SignalsReached t) :
    SignalsReached (signalStep t e)
end

/-! ## The invariant -/
namespace SignalState
/-- Only allowed signals are blocked, `SIGKILL` and `SIGSTOP` are not, and both have their
default action. -/
structure Guarded (st : SignalState) : Prop where
  allowed : st.blocked &&& ~~~signalAllowedMask = 0#32
  unblockable : st.blocked &&& unblockableMask = 0#32
  kill : (st.actions (Fin.ofNat 32 sigkill)).handler = sigDfl
  stop : (st.actions (Fin.ofNat 32 sigstop)).handler = sigDfl

lemma and_not_and_self (x y : BitVec 32) : x &&& ~~~y &&& y = 0#32 := by
  rw [BitVec.and_assoc, BitVec.and_comm (~~~y), BitVec.and_not_self]
  exact BitVec.and_zero

lemma and_and_not_of {x a : BitVec 32} (h : x &&& ~~~a = 0#32) (y : BitVec 32) :
    x &&& y &&& ~~~a = 0#32 := by
  rw [BitVec.and_assoc, BitVec.and_comm y, ← BitVec.and_assoc, h, BitVec.zero_and]

variable {st : SignalState} (h : st.Guarded)
include h
lemma Guarded.withBlocked {m : BitVec 32} (hma : m &&& ~~~signalAllowedMask = 0#32) :
    ({ st with blocked := m &&& ~~~unblockableMask } : SignalState).Guarded where
  allowed := and_and_not_of hma _
  unblockable := and_not_and_self _ _
  __ := h

omit h in
lemma and_allowed (m : BitVec 32) : m &&& signalAllowedMask &&& ~~~signalAllowedMask = 0#32 := by
  rw [BitVec.and_assoc, BitVec.and_not_self]
  exact BitVec.and_zero

lemma Guarded.setBlocked (m : BitVec 32) : (st.setBlocked m).Guarded :=
  h.withBlocked (and_allowed m)

lemma Guarded.congr {s' : SignalState} (hb : s'.blocked = st.blocked)
    (ha : s'.actions = st.actions) : s'.Guarded where
  allowed := hb ▸ h.allowed
  unblockable := hb ▸ h.unblockable
  kill := ha ▸ h.kill
  stop := ha ▸ h.stop

omit h in
lemma guarded_stateInitialize : stateInitialize.Guarded where
  allowed := by decide
  unblockable := by decide
  kill := rfl
  stop := rfl

lemma Guarded.stateCopy : st.stateCopy.Guarded := (h.withBlocked h.allowed).congr rfl rfl

lemma Guarded.configureAction (s : ℤ) (n : Option Sigaction) :
    (st.configureAction s n).2.2.Guarded := by
  rw [SignalState.configureAction]
  split_ifs with hsi
  · cases n with
    | none => exact h
    | some a =>
      dsimp only
      split_ifs with hu
      · exact h
      · rw [not_or] at hu
        -- the two slots are not the one that is written
        have hk : Fin.ofNat 32 sigkill ≠ ⟨s.toNat, by omega⟩ := fun he =>
          hu.1 (congrArg Fin.val he).symm
        have hst : Fin.ofNat 32 sigstop ≠ ⟨s.toNat, by omega⟩ := fun he =>
          hu.2 (congrArg Fin.val he).symm
        refine ⟨h.allowed, h.unblockable, ?_, ?_⟩
        · simp only [update_of_ne hk]
          exact h.kill
        · simp only [update_of_ne hst]
          exact h.stop
  · exact h

lemma Guarded.modifyMask (how : ℤ) (m : BitVec 32) : (st.modifyMask how m).2.2.Guarded := by
  rw [SignalState.modifyMask]
  split_ifs
  · refine h.withBlocked ?_
    -- both parts of the union are allowed
    rw [BitVec.and_comm, BitVec.and_or_distrib_left, BitVec.and_comm, h.allowed,
      BitVec.and_comm, and_allowed, BitVec.or_zero]
  · exact h.withBlocked (and_and_not_of h.allowed _)
  · exact h.withBlocked (and_allowed m)
  · exact h

lemma takePending_guarded (m : BitVec 32) : (st.takePending m).2.Guarded := by
  rw [takePending]
  split
  · exact h
  · exact h.congr rfl rfl

lemma Guarded.send (s : ℕ) : (st.send s).Guarded := by
  rw [SignalState.send]
  split_ifs
  · exact h
  · exact h.congr rfl rfl
  · dsimp only
    split_ifs <;> exact h.congr rfl rfl
  · exact h.congr rfl rfl

omit h in
lemma Guarded.deliver (c : Bool) (s : List ℕ) (h : st.Guarded) : (deliver c s st).2.Guarded := by
  induction s generalizing st with
  | nil => exact h
  | cons signo s ih =>
    rw [deliver]
    split_ifs
    · exact ih h
    have hc : (st.clearPending signo).Guarded := h.congr rfl rfl
    dsimp only
    split
    · exact ih hc
    all_goals exact hc

theorem Guarded.call (c : SignalCall) : (st.call c).Guarded := by
  cases c with
  | sigaction signo act o =>
    cases act with
    | null => exact h.configureAction signo none
    | fault => exact h
    | value a => exact h.configureAction signo (some a)
  | sigprocmask how set ol =>
    cases set with
    | null => exact h
    | fault => exact h
    | value mask => exact h.modifyMask how mask
  | sigsuspend mask =>
    cases mask with
    | null => exact h
    | fault => exact h
    | value mask => exact (h.setBlocked _).congr rfl rfl
  | sigsuspendRestore => exact (h.setBlocked _).congr rfl rfl
  | sigwaitTake set =>
    have ht := takePending_guarded h (waitSet set)
    rw [SignalState.call, sigwaitTake]
    dsimp only
    split_ifs
    · exact ht
    · exact ht.congr rfl rfl
  | sigwaitBlock set =>
    have ht := takePending_guarded h (waitSet set)
    rw [SignalState.call, sigwaitBlock]
    dsimp only
    split_ifs
    · exact ht.congr rfl rfl
    · exact ht
  | sigwaitEnd => exact h.congr rfl rfl
  | send signo => exact h.send signo
  | handlePending user copied =>
    rw [SignalState.call, SignalState.handlePending]
    split_ifs
    · exact h
    · exact h.deliver copied _
  | sigreturn s =>
    cases s with
    | null => exact h
    | fault => exact h
    | value mask => exact h.setBlocked _
end SignalState

lemma SignalsReached.guarded {ι : Type} [DecidableEq ι] {t : ι → SignalState}
    (h : SignalsReached t) (p : ι) : (t p).Guarded := by
  induction h generalizing p with
  | start => exact SignalState.guarded_stateInitialize
  | step e _ ih =>
    cases e with
    | call q c =>
      rw [signalStep, update_apply]
      split_ifs
      · exact (ih q).call c
      · exact ih p
    | create q =>
      rw [signalStep, update_apply]
      split_ifs
      · exact SignalState.guarded_stateInitialize
      · exact ih p
    | fork parent child =>
      rw [signalStep, update_apply]
      split_ifs
      · exact (ih parent).stateCopy
      · exact ih p

/-! ## Delivery -/
namespace SignalState
variable {st : SignalState}
end SignalState

scoped instance neZero2 : NeZero 2 := ⟨by decide⟩

end Menios.Proc
