import Menios.Proc.Switch

/-!
# The queues of the scheduler over whole runs

A process is on a ready queue exactly when it is READY, and on the sleep queue exactly
when it is SLEEPING; all queues are threaded through the one field `next`.

**Defect.** The functions of `src/kernel/proc/proc.c` insert a process without a look at
where it is. `proc_execute` pushes a process that is already READY or SLEEPING a second
time. A sleep that was requested is carried out by the next `proc_switch` even if a
wake-up has made the process READY in between, so that it is on both queues at once. And
`proc_exit`, also when a signal calls it, makes a zombie of a process that is still on a
queue.

Results:

* `Intact.step`: a safe call has a result and keeps the queues.
* `queues_intact_of_safe`: the queues are intact in every state of a run of safe calls.
* `queues_not_intact`: a wake-up between `proc_request_block` and `proc_switch` makes the
  sleep queue a cycle.
-/

namespace Menios.Proc
open Common Threads

namespace Scheduler
variable {n : ℕ} {s s' : Scheduler n} {p : Process n}
/-! ## Runs -/

/-- The queues are lists without common nodes, each ready queue has its last node as tail,
and the members of the queues are the READY and the SLEEPING processes. -/
def Intact (s : Scheduler n) : Prop :=
  ∃ lists : Option Priority → List (Process n), s.queues.Linked lists ∧
    ∀ p, ((∃ q, p ∈ lists (some q)) ↔ s.state p = .ready) ∧
      (p ∈ lists none ↔ s.state p = .sleeping)

lemma intact_iff_good : s.Intact ↔ s.Good none := by
  constructor
  · rintro ⟨lists, hl, hmem⟩
    exact ⟨lists, hl, fun p => by simp [(hmem p).1], fun p => by simp [(hmem p).2]⟩
  rintro ⟨lists, hl, ht⟩
  exact ⟨lists, hl, fun p => ⟨by simp [ht.ready p], by simp [ht.sleeping p]⟩⟩

/-- A call that finds no process where it does not expect it. `execute` and `exit` are for
processes that are on no queue. -/
def Safe (s : Scheduler n) : Op n → Prop
  | .execute p => s.state p ≠ .ready ∧ s.state p ≠ .sleeping
  | .exit _ => s.state s.current ≠ .ready ∧ s.state s.current ≠ .sleeping
  | .procSwitch _ _ => s.SwitchSafe
  | .configure info _ => ∀ p, (info p).parent ≠ some p
  | _ => True

/-- What a run of safe calls maintains. -/
structure Invariant (s : Scheduler n) : Prop where
  good : s.Good none
  sane : s.Sane

lemma Invariant.of_frame (h : s.Invariant) (hgood : s'.Good none) (hf : Frame s s') :
    s'.Invariant :=
  ⟨hgood, h.sane.of_frame hf⟩

lemma Invariant.request (h : s.Invariant) {f : ProcInfo n → ProcInfo n}
    (hf : ∀ i, (f i).parent = i.parent) (force sleep : Bool) :
    Invariant { s.modify s.current f with force := force, sleep := sleep } where
  good := h.good
  sane := ⟨h.sane.kernel, h.sane.waiting, fun p => by
    have hsa := s.modify_field s.current f ProcInfo.parent hf p
    rw [ne_eq, hsa]
    exact h.sane.parent p⟩

/-- `scheduler_initialize` leaves all queues empty. -/
lemma invariant_initial (hnew : ∀ p, p ≠ kernelProcess → s.state p = .new)
    (hpar : ∀ p, (s.info p).parent ≠ some p) (qn : UInt64) (pd : BitVec 32) :
    (s.schedulerInitialize qn pd).Invariant := by
  have hk : (s.schedulerInitialize qn pd).state kernelProcess = .running :=
    setState_state_self _ _ _
  have hot : ∀ p, p ≠ kernelProcess → (s.schedulerInitialize qn pd).state p = .new :=
    fun p hp => (setState_state_of_ne _ _ _ hp).trans (hnew p hp)
  -- every state is RUNNING or NEW
  have hst : ∀ p, (s.schedulerInitialize qn pd).state p = .running ∨
      (s.schedulerInitialize qn pd).state p = .new := by
    intro p
    by_cases hp : p = kernelProcess
    · exact .inl (hp ▸ hk)
    · exact .inr (hot p hp)
  refine ⟨⟨fun _ => [], ⟨⟨fun i => ?_, fun i j p hp => by simp at hp⟩, fun q => rfl⟩,
    fun p => ?_, fun p => ?_⟩, ?_, fun p => ?_, fun p => ?_⟩
  · cases i <;> rfl
  · rcases hst p with h | h <;> simp [h]
  · rcases hst p with h | h <;> simp [h]
  · simp [hk]
  · rcases hst p with h | h <;> simp [h]
  have hsa : ((s.schedulerInitialize qn pd).info p).parent = (s.info p).parent :=
    s.modify_field kernelProcess (ProcInfo.kernelInfo qn pd) ProcInfo.parent
      (fun _ => rfl) p
  rw [hsa]
  exact hpar p

/-- A safe call has a result and keeps the invariant. -/
theorem Invariant.step (h : s.Invariant) {o : Op n} (hsa : s.Safe o) :
    ∃ s', s.step o = some s' ∧ s'.Invariant := by
  cases o with
  | execute p =>
    refine ⟨_, rfl, h.of_frame (h.good.push (by simp) hsa _ rfl rfl) ?_⟩
    refine .trans ?_ (Frame.readyQueuePush _ p)
    refine .trans ?_ (Frame.modify _ p)
    exact Frame.setState s p (by decide)
  | markReady p =>
    obtain ⟨s', hr, hgood, hf, -, -⟩ := markReady_spec (p := p) h.good (by simp)
    exact ⟨s', hr, h.of_frame hgood hf⟩
  | markStopped p signo =>
    by_cases hp : p = kernelProcess
    · exact ⟨s, if_pos hp, h⟩
    obtain ⟨s', hr, hgood, ha, -⟩ := markStopped_spec h.good (.inl rfl) hp (h.sane.parent p) signo
    exact ⟨s', hr, h.of_frame hgood ha.frame⟩
  | markContinued p =>
    obtain ⟨s', hr, hgood, hf, -⟩ := markContinued_spec h.good (h.sane.parent p)
    exact ⟨s', hr, h.of_frame hgood hf⟩
  | requestYield => exact ⟨_, rfl, h.request (f := ProcInfo.endSlice) (fun _ => rfl) true s.sleep⟩
  | requestSleep nw d =>
    refine ⟨_, rfl, ?_⟩
    rw [requestSleep]
    split_ifs
    · exact h.of_frame h.good (Frame.force s true)
    · exact h.request (f := ProcInfo.sleepsUntil (nw + d)) (fun _ => rfl) true true
  | requestBlock =>
    exact ⟨_, rfl, h.request (f := ProcInfo.sleepsUntil 0xffffffffffffffff) (fun _ => rfl) true
      true⟩
  | signalSend p signo =>
    obtain ⟨s', hr, hgood, hf, -⟩ := signalSend_spec h.good p signo
    exact ⟨s', hr, h.of_frame hgood hf⟩
  | exit c =>
    obtain ⟨s', hr, hgood, ha, -⟩ := bury_spec h.good (.inl rfl) (.inl hsa)
      (h.sane.parent s.current) (c % 256 * 256)
    exact ⟨s', hr, h.of_frame hgood ha.frame⟩
  | procSwitch nw copied =>
    obtain ⟨s', hr, hgood, hsn⟩ := procSwitch_spec nw copied h.good h.sane hsa
    exact ⟨s', hr, hgood, hsn⟩
  | configure info procs => exact ⟨_, rfl, h.good, h.sane.kernel, h.sane.waiting, hsa⟩

/-- The states of a run of safe calls. It starts with `scheduler_initialize`; no other
process has been used before. -/
inductive Reached : Scheduler n → Prop
  | start (s : Scheduler n) (quantum : UInt64) (pid : BitVec 32)
      (hnew : ∀ p, p ≠ kernelProcess → s.state p = .new)
      (hpar : ∀ p, (s.info p).parent ≠ some p) : Reached (s.schedulerInitialize quantum pid)
  | step {s s' : Scheduler n} {op : Op n} (h : Reached s) (hsafe : s.Safe op)
      (hs : s.step op = some s') : Reached s'

lemma Reached.invariant (h : Reached s) : s.Invariant := by
  induction h with
  | start s q pid hnew hp => exact invariant_initial hnew hp q pid
  | step _ hsa hs ih =>
    obtain ⟨s', hs', hinv⟩ := ih.step hsa
    exact Option.some.inj (hs'.symm.trans hs) ▸ hinv

/-- **The queues stay intact.** In every state of a run of safe calls the queues are
intact, and the next safe call has a result: no walk over a queue goes on for ever. -/
theorem queues_intact_of_safe (h : Reached s) :
    s.Intact ∧ ∀ op, s.Safe op → ∃ s', s.step op = some s' ∧ s'.Intact := by
  refine ⟨intact_iff_good.2 h.invariant.good, fun op hsa => ?_⟩
  obtain ⟨s', hs', hinv⟩ := h.invariant.step hsa
  exact ⟨s', hs', intact_iff_good.2 hinv.good⟩

/-! ## A wake-up before the switch -/

lemma reached_oneProcess : Reached (oneProcess.schedulerInitialize 0 0) :=
  .start oneProcess 0 0 (fun _ _ => rfl) fun _ => by simp [oneProcess]

lemma reached_execute : Reached ((oneProcess.schedulerInitialize 0 0).execute 1) := by
  have hsa : (oneProcess.schedulerInitialize 0 0).Safe (.execute 1) := ⟨by decide, by decide⟩
  exact .step reached_oneProcess hsa rfl

/-- The new process has been started, and the kernel process may be switched away. -/
theorem queues_intact_of_safe_switch : Reached ((oneProcess.schedulerInitialize 0 0).execute 1) ∧
      ((oneProcess.schedulerInitialize 0 0).execute 1).Intact ∧
      ∃ s', ((oneProcess.schedulerInitialize 0 0).execute 1).step
        (.procSwitch 1 fun _ => true) = some s' ∧ s'.Intact := by
  obtain ⟨h1, h2⟩ := queues_intact_of_safe reached_execute
  refine ⟨reached_execute, h1, h2 (.procSwitch 1 fun _ => true) ⟨fun h => ?_, fun h => ?_,
    fun h => ?_, fun h => ?_⟩⟩
  · exact absurd h (by decide)
  · cases h
  · cases h
  · cases h

lemma Intact.next_ne (h : s.Intact) (hh : s.queues.sleepHead = some p) :
    s.queues.next p ≠ some p := by
  intro hne
  obtain ⟨lists, hln, -⟩ := h
  obtain ⟨l, hl⟩ := hln.first_sleeper hh
  have hli : IsList s.queues.next s.queues.sleepHead (lists none) := hln.threaded.list none
  rw [hh, hl] at hli
  have hr : IsList s.queues.next (some p) l := hne ▸ hli.2
  have hsa := hr.unique hli
  simp at hsa

/-- A process is started and runs; it asks to be blocked; an interrupt makes it ready; and
the switch puts it on the sleep queue twice. -/
theorem queues_not_intact :
    Reached (oneProcess.schedulerInitialize 0 0) ∧ ∃ s, (oneProcess.schedulerInitialize 0 0).run
      [.execute 1, .procSwitch 1 fun _ => true, .requestBlock, .markReady 1,
        .procSwitch 2 fun _ => true] = some s ∧ ¬ s.Intact := by
  have he : ((oneProcess.schedulerInitialize 0 0).run
      [.execute 1, .procSwitch 1 fun _ => true, .requestBlock, .markReady 1,
        .procSwitch 2 fun _ => true]).map (fun s => (s.queues.sleepHead, s.queues.next 1)) =
      some (some 1, some 1) := by
    decide +kernel
  obtain ⟨s, hr, hs⟩ := Option.map_eq_some_iff.1 he
  obtain ⟨hh, hne⟩ := Prod.mk.inj hs
  exact ⟨reached_oneProcess, s, hr, fun hin => hin.next_ne hh hne⟩
end Scheduler
end Menios.Proc
