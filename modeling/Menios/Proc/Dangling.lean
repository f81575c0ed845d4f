import Menios.Proc.ZombieRuns

/-!
# No pointers to freed processes

Every process that can be reached from the queues, from `current` and from the family
links of a process that was not freed has not been freed itself.

**Defect.** `proc_waitpid` (`src/kernel/proc/proc.c`, lines 1720-1805) frees a zombie
wherever it is. A process that `proc_kill_pid` or a signal has made a zombie while it was
READY or SLEEPING is still on its queue, and the children of a process still name it as
their parent; both point to freed memory afterwards.

Results:

* `attached_lifeStep`: an event of a life frees nobody who is still linked, on the
  condition that `proc_waitpid` finds no such zombie.
* `no_dangling`: the same for whole runs.
* `listed_child_unique`: a listed child has one parent.
* `freed_on_ready_queue`: a child that is killed while it is READY and reaped.
-/

namespace Menios.Proc
open Common Threads Option

namespace Scheduler
variable {n : ℕ} {s s' : Scheduler n} {p : Process n}
/-! ## The family -/

/-- No pointer leads to a process that has been freed: from the ready queues and the sleep
queue, `current`, and the fields `parent`, `first_child` and `sibling_next` of the
processes that have not been freed. `children` is the list that `first_child` and
`sibling_next` make. -/
structure NoDangling (s : Scheduler n) : Prop where
  ready : ∀ q x, Reach s.queues.next (s.queues.readyHead q) x → s.state x ≠ .terminated
  asleep : ∀ x, Reach s.queues.next s.queues.sleepHead x → s.state x ≠ .terminated
  current : s.state s.current ≠ .terminated
  parent : ∀ x y, s.state x ≠ .terminated → (s.info x).parent = some y → s.state y ≠ .terminated
  children : ∀ x c, s.state x ≠ .terminated → c ∈ (s.info x).children → s.state c ≠ .terminated
  siblings : ∀ x c z, s.state c ≠ .terminated → c ∈ (s.info x).children →
    z ∈ (s.info x).children → s.state z ≠ .terminated

lemma Attached.noDangling (h : s.Attached) : s.NoDangling where
  ready q x hx hst := h.queued x (.inr ⟨q, hx⟩) (.inr hst)
  asleep x hx hst := h.queued x (.inl hx) (.inr hst)
  current := h.current_not_freed
  parent x y hx hy hst := h.parent x y hx hy (.inr hst)
  children x c _ hc hst := (h.child x c hc).1 (.inr hst)
  siblings x _ z _ _ hz hst := (h.child x z hz).1 (.inr hst)

/-- Nobody points to `c` as a queue or as a child of it. -/
def Loose (s : Scheduler n) (c : Process n) : Prop :=
  ¬ s.queues.Held c ∧ ∀ x, s.state x ≠ .terminated → (s.info x).parent ≠ some c

variable {ch : Process n}
/-- The processes after `proc_fork` has linked the child to its parent. -/
lemma Attached.link (h : s.Attached) (hk : ch ≠ kernelProcess) (ha : s.Absent ch)
    {i : ProcInfo n} (hpr : i.parent = some s.current) (hch : i.children = [])
    (procs : Fin 16 → Option (Process n)) :
    Attached (({ s.newProcess ch i with procs := procs }.setState ch .ready).modify s.current
      (ProcInfo.linkChild ch)) := by
  obtain ⟨s', hs'⟩ : ∃ s', s' = ({ s.newProcess ch i with procs := procs }.setState ch
    .ready).modify s.current (.linkChild ch) := ⟨_, rfl⟩
  have hne : s.current ≠ ch := fun he => h.current (he ▸ ha)
  -- the child is present, and nobody else has changed its state
  have hsl : s'.state ch = .ready := by rw [hs', modify_state, setState_state_self]
  have hse : ∀ x, x ≠ ch → s'.state x = s.state x := by
    intro x hx
    rw [hs', modify_state, setState_state_of_ne _ _ _ hx]
    exact Function.update_of_ne hx ..
  have hst : ∀ x, ¬ s.Absent x → ¬ s'.Absent x := by
    intro x hx
    have hxc : x ≠ ch := fun he => hx (he ▸ ha)
    rwa [Absent, hse x hxc]
  have hcl : ¬ s'.Absent ch := by simp [Absent, hsl]
  have hin : ∀ x, x ≠ ch → x ≠ s.current → s'.info x = s.info x := by
    intro x hx hxc
    rw [hs', modify_info_of_ne _ _ _ hxc]
    exact Function.update_of_ne hx ..
  have hinfoChild : s'.info ch = i := by
    rw [hs', modify_info_of_ne _ _ _ hne.symm]
    exact Function.update_self ..
  have hinfoCurrent : s'.info s.current = (s.info s.current).linkChild ch := by
    rw [hs', modify_info_self]
    exact congrArg _ (Function.update_of_ne hne ..)
  have hp : ∀ x, x ≠ ch → (s'.info x).parent = (s.info x).parent := by
    intro x hx
    by_cases hxc : x = s.current
    · rw [hxc, hinfoCurrent]
      rfl
    · rw [hin x hx hxc]
  rw [← hs']
  refine ⟨fun x hx => ?_, ?_, hst _ h.kernel, fun x y hx hy => ?_, fun x c hc => ?_,
    fun x => ?_, ?_⟩
  · exact hst x (h.queued x (by rw [hs'] at hx; exact hx))
  · have hcur : s'.current = s.current := hs' ▸ rfl
    rw [hcur]
    exact hst _ h.current
  · by_cases hxc : x = ch
    · rw [hxc, hinfoChild, hpr] at hy
      exact some.inj hy ▸ hst _ h.current
    · rw [hp x hxc] at hy
      rw [hse x hxc] at hx
      exact hst y (h.parent x y hx hy)
  · by_cases hxc : x = ch
    · rw [hxc, hinfoChild, hch] at hc
      cases hc
    · have hold : c ∈ (s.info x).children → ¬ s'.Absent c ∧ (s'.info c).parent = some x := by
        intro hmem
        obtain ⟨hps, hpar⟩ := h.child x c hmem
        rw [hp c fun he => hps (he ▸ ha)]
        exact ⟨hst c hps, hpar⟩
      by_cases hxr : x = s.current
      · rw [hxr, hinfoCurrent, ProcInfo.linkChild, List.mem_cons] at hc
        rcases hc with rfl | hc
        · rw [hinfoChild, hxr]
          exact ⟨hcl, hpr⟩
        · exact hold (hxr ▸ hc)
      · rw [hin x hxc hxr] at hc
        exact hold hc
  · by_cases hxc : x = ch
    · rw [hxc, hinfoChild, hch]
      exact List.nodup_nil
    · by_cases hxr : x = s.current
      · rw [hxr, hinfoCurrent]
        refine List.nodup_cons.2 ⟨fun hmem => ?_, h.nodup _⟩
        exact (h.child _ _ hmem).1 ha
      · rw [hin x hxc hxr]
        exact h.nodup x
  rw [hp _ hk.symm]
  exact h.root

variable {pid : BitVec 32}
lemma Attached.fork (h : s.Attached) (hk : ch ≠ kernelProcess) (ha : s.Absent ch)
    {q : UInt64} (hs : s.fork s.current ch pid q = some s') : s'.Attached := by
  obtain ⟨s1, hin, rfl⟩ := map_eq_some_iff.1 hs
  obtain ⟨i, -, rfl⟩ := map_eq_some_iff.1 hin
  have hl := h.link hk ha
    (i := (s.info s.current).forked s.current pid q) rfl rfl
    (Function.update s.procs i (some ch))
  refine hl.of_carries (.execute ?_)
  rw [modify_state, setState_state_self]
  decide

/-- `proc_fork` writes the state of the child only. -/
lemma fork_state {pr x : Process n} {q : UInt64}
    (hs : s.fork pr ch pid q = some s') (hx : x ≠ ch) : s'.state x = s.state x := by
  obtain ⟨s1, hin, rfl⟩ := map_eq_some_iff.1 hs
  obtain ⟨i, -, rfl⟩ := map_eq_some_iff.1 hin
  rw [execute, readyQueuePush_state, modify_state, setState_state_of_ne _ _ _ hx, modify_state,
    setState_state_of_ne _ _ _ hx]
  exact Function.update_of_ne hx ..

lemma killPid_carries {c : ℤ} {r : ℤ × Scheduler n} (hs : s.killPid pid c = some r) :
    Carries s r.2 := by
  rw [killPid] at hs
  split at hs
  · exact some.inj hs ▸ .refl s
  next t ht =>
  split_ifs at hs with hk hst
  · exact some.inj hs ▸ .refl s
  · exact some.inj hs ▸ .refl s
  obtain ⟨s1, hb, rfl⟩ := map_eq_some_iff.1 hs
  exact Carries.flow.bury (not_or.1 hst).2 hb

variable (h : s.Attached)
include h
lemma Attached.reap (hmem : ch ∈ (s.info s.current).children)
    (hz : s.state ch = .zombie) (hl : s.Loose ch) : (s.reap s.current ch).Attached := by
  obtain ⟨s', hs'⟩ : ∃ s', s' = ((s.modify s.current (.unlinkChild ch)).modify ch
    fun i => { i with parent := none }).setState ch .terminated := ⟨_, rfl⟩
  have hp : (s.info ch).parent = some s.current := (h.child _ _ hmem).2
  have hli : s.state ch ≠ .terminated := by simp [hz]
  have hne : s.current ≠ ch := by
    intro he
    rw [he] at hp
    exact hl.2 ch hli hp
  have hk : kernelProcess ≠ ch := by
    intro he
    rw [← he, h.root] at hp
    cases hp
  have hsl : s'.state ch = .terminated := by rw [hs', setState_state_self]
  have hse : ∀ x, x ≠ ch → s'.state x = s.state x := by
    intro x hx
    rw [hs', setState_state_of_ne _ _ _ hx]
    rfl
  have hst : ∀ x, x ≠ ch → ¬ s.Absent x → ¬ s'.Absent x := by
    intro x hx hpr
    rwa [Absent, hse x hx]
  have hin : ∀ x, x ≠ ch → x ≠ s.current → s'.info x = s.info x := by
    intro x hx hxc
    rw [hs', setState_info, modify_info_of_ne _ _ _ hx, modify_info_of_ne _ _ _ hxc]
  have hinfoCurrent : s'.info s.current = (s.info s.current).unlinkChild ch := by
    rw [hs', setState_info, modify_info_of_ne _ _ _ hne, modify_info_self]
  have hpa : ∀ x, x ≠ ch → (s'.info x).parent = (s.info x).parent := by
    intro x hx
    by_cases hxc : x = s.current
    · rw [hxc, hinfoCurrent]
      rfl
    · rw [hin x hx hxc]
  have hf : ∀ x c, c ∈ (s'.info x).children → c ≠ ch ∧ c ∈ (s.info x).children := by
    intro x c hc
    by_cases hxr : x = s.current
    · rw [hxr, hinfoCurrent, ProcInfo.unlinkChild, (h.nodup _).mem_erase_iff] at hc
      exact ⟨hc.1, hxr ▸ hc.2⟩
    have hsa : (s'.info x).children = (s.info x).children := by
      by_cases hxc : x = ch
      · rw [hs', setState_info, hxc, modify_info_self, modify_info_of_ne _ _ _ hne.symm]
      · rw [hin x hxc hxr]
    rw [hsa] at hc
    refine ⟨fun he => hxr ?_, hc⟩
    rw [he] at hc
    exact some.inj ((h.child x ch hc).2.symm.trans hp)
  have ha : s'.Attached := by
    refine ⟨fun x hx => ?_, ?_, hst _ hk h.kernel, fun x y hx hy => ?_, fun x c hc => ?_,
      fun x => ?_, ?_⟩
    · have hh : s.queues.Held x := by rw [hs'] at hx; exact hx
      exact hst x (fun he => hl.1 (he ▸ hh)) (h.queued x hh)
    · have hcur : s'.current = s.current := hs' ▸ rfl
      rw [hcur]
      exact hst _ hne h.current
    · have hxc : x ≠ ch := by
        rintro rfl
        exact hx hsl
      rw [hse x hxc] at hx
      rw [hpa x hxc] at hy
      exact hst y (fun he => hl.2 x hx (he ▸ hy)) (h.parent x y hx hy)
    · obtain ⟨hcc, hold⟩ := hf x c hc
      rw [hpa c hcc]
      exact ⟨hst c hcc (h.child x c hold).1, (h.child x c hold).2⟩
    · by_cases hxr : x = s.current
      · rw [hxr, hinfoCurrent]
        exact (h.nodup _).erase ch
      · by_cases hxc : x = ch
        · rw [hs', setState_info, hxc, modify_info_self, modify_info_of_ne _ _ _ hne.symm]
          exact h.nodup ch
        · rw [hin x hxc hxr]
          exact h.nodup x
    rw [hpa _ hk]
    exact h.root
  rw [Scheduler.reap, ← hs']
  exact ha.of_carries (Unqueued.cleanupProcess s' ch).carries

/-- The zombies that `proc_waitpid` may free are linked nowhere else. -/
def ReapsLoose (s : Scheduler n) (pid : BitVec 32) : Prop :=
  ∀ c ∈ (s.info s.current).children, s.state c = .zombie →
    (pid = -1 ∨ (s.info c).pid = pid) → s.Loose c

lemma Attached.modify (p : Process n) (f : ProcInfo n → ProcInfo n)
    (hp : ∀ i, (f i).parent = i.parent) (hc : ∀ i, (f i).children = i.children) :
    (s.modify p f).Attached :=
  h.of_carries (.modify s p f hp hc)

omit h in
lemma reap_terminated (s : Scheduler n) (pr ch : Process n) {x : Process n}
    (hx : s.state x = .terminated) : (s.reap pr ch).state x = .terminated := by
  rw [reap, (Unqueued.cleanupProcess _ ch).state]
  by_cases hxc : x = ch
  · rw [hxc, setState_state_self]
  rw [setState_state_of_ne _ _ _ hxc]
  exact hx

lemma Attached.waitpidRound (hl : s.ReapsLoose pid) (u c nn : Bool) :
    (s.waitpidRound pid u c nn).Attached ∧ ∀ x, s.state x = .terminated →
        (s.waitpidRound pid u c nn).state x = .terminated := by
  obtain ⟨s1, hs1⟩ := @exists_eq _ ((s.waitpid s.current pid u c).2.2)
  have hwa := hs1 ▸ s.waited s.current pid u c
  obtain ⟨h1, hf1⟩ : s1.Attached ∧ ∀ x, s.state x = .terminated → s1.state x = .terminated := by
    cases hwa with
    | same => exact ⟨h, fun _ hx => hx⟩
    | told ch f hpa hc =>
      have ht := h.modify ch f hpa hc
      exact ⟨ht.modify s.current _ (fun _ => rfl) fun _ => rfl, fun _ hx => hx⟩
    | reaped ch hmem hz hp =>
      exact ⟨h.reap hmem hz (hl ch hmem hz hp), fun x hx => reap_terminated s s.current ch hx⟩
  have he : Carries s1 (s1.modify s1.current .endWait) := .modify s1 s1.current _
  have hbe : Carries s1 (s1.modify s1.current (.beginWait pid)) := .modify s1 s1.current _
  have hb := hbe.trans (.setState (s1.modify s1.current (.beginWait pid)) .waiting
    h1.current_not_freed (by decide) (by decide))
  simp only [Scheduler.waitpidRound, ← hs1]
  split_ifs
  · exact ⟨h1.of_carries he, fun x hx => (he.freed x).2 (hf1 x hx)⟩
  · exact ⟨h1.of_carries hb, fun x hx => (hb.freed x).2 (hf1 x hx)⟩
  have hr := hb.trans (.requestBlock _)
  exact ⟨h1.of_carries hr, fun x hx => (hr.freed x).2 (hf1 x hx)⟩

/-- A call of the scheduler that writes no state to freed memory and leaves the family links
alone. -/
def OpAvoidsFreed (s : Scheduler n) : Op n → Prop
  | .execute p => s.state p ≠ .terminated
  | .markStopped p _ => s.state p ≠ .terminated
  | .configure info _ =>
    ∀ p, (info p).parent = (s.info p).parent ∧ (info p).children = (s.info p).children
  | _ => True

lemma Attached.step {o : Op n} (hop : s.OpAvoidsFreed o)
    (hs : s.step o = some s') : Attached.Kept s s' := by
  cases o with
  | execute p => exact some.inj hs ▸ .of_carries h (.execute hop)
  | markReady p => exact .of_carries h (.markReady hs)
  | markStopped p signo => exact .of_carries h (Carries.flow.markStopped hop hs)
  | markContinued p => exact .of_carries h (Carries.flow.markContinued hs)
  | requestYield => exact some.inj hs ▸ .of_carries h (.requestYield s)
  | requestSleep nw d =>
    cases hs
    rw [requestSleep]
    split_ifs
    · exact .of_carries h (.force s true)
    refine .of_carries h ?_
    have hdue : Carries s (s.modify s.current (.sleepsUntil (nw + d))) := .modify s s.current _
    exact hdue.trans (.of_same rfl rfl rfl)
  | requestBlock => exact some.inj hs ▸ .of_carries h (.requestBlock s)
  | signalSend p signo => exact .of_carries h (Carries.flow.signalSend hs)
  | exit c => exact .of_carries h (Carries.flow.bury h.current_not_freed hs)
  | procSwitch nw copied => exact h.procSwitch hs
  | configure info procs =>
    exact some.inj hs ▸ .of_carries h (.of_same rfl rfl rfl (fun p => (hop p).1) fun p => (hop p).2)
end Scheduler

namespace Machine
variable {n : ℕ} {k k' : Machine n}
open Scheduler

/-! ## Runs -/

/-- An event under which nothing that is linked is freed. A child is made by the running
process, in memory that is free. -/
def AvoidsFreed (k : Machine n) : LifeEvent n → Prop
  | .machine (.exec _) =>
    ∀ x, (k.place k.sched.current).writes k.sched.current = some x → k.sched.state x ≠ .terminated
  | .machine (.sched op) => k.sched.OpAvoidsFreed op
  | .machine _ => True
  | .fork parent child _ _ =>
    parent = k.sched.current ∧ child ≠ kernelProcess ∧ k.sched.Absent child
  | .killPid _ _ => True
  | .waitpid pid _ _ _ => k.sched.ReapsLoose pid
  | .resume => True

lemma kept_of_effect {s s' : Scheduler n} {w : Option (Process n)} (h : s.Attached)
    (hwr : ∀ x, w = some x → s.state x ≠ .terminated) (he : Effect s w s') :
    Attached.Kept s s' := by
  cases he with
  | same => exact .of_carries h (.refl s)
  | yield => exact .of_carries h (.requestYield s)
  | @state x st hx hst =>
    refine .of_carries h (.setState s st (hwr x hx) ?_ ?_)
    · rcases hst with rfl | rfl | rfl <;> decide
    · rcases hst with rfl | rfl | rfl <;> decide
  | ready hx hr => exact .of_carries h (.markReady hr)

/-- An event keeps the links, and only `proc_fork` uses freed memory again. -/
theorem attached_lifeStep (h : k.sched.Attached) {e : LifeEvent n} (he : k.AvoidsFreed e)
    (hk : k.lifeStep e = some k') : k'.sched.Attached ∧ ∀ x, k.sched.state x = .terminated →
      k'.sched.state x = .terminated ∨ ∃ parent pid q, e = .fork parent x pid q := by
  have hke : Attached.Kept k.sched k'.sched → k'.sched.Attached ∧
      ∀ x, k.sched.state x = .terminated → k'.sched.state x = .terminated ∨
        ∃ parent pid q, e = .fork parent x pid q :=
    fun hke => ⟨hke.attached, fun x hx => .inl ((hke.freed x).2 hx)⟩
  cases e with
  | machine e =>
    cases e with
    | call c => exact hke (some.inj hk ▸ .of_carries h (.refl _))
    | exec allocated => exact hke (kept_of_effect h he (execAt_effect hk))
    | setInterrupts o => exact hke (some.inj hk ▸ .of_carries h (.refl _))
    | sched op =>
      obtain ⟨s, hs, rfl⟩ := map_eq_some_iff.1 hk
      exact hke (h.step he hs)
  | fork parent child pid q =>
    obtain ⟨s, hs, rfl⟩ := map_eq_some_iff.1 hk
    obtain ⟨rfl, hkr, ha⟩ := he
    refine ⟨h.fork hkr ha hs, fun x hx => ?_⟩
    by_cases hxc : x = child
    · exact .inr ⟨_, _, _, by rw [hxc]⟩
    · exact .inl ((fork_state hs hxc).trans hx)
  | killPid pid cd =>
    obtain ⟨r, hs, rfl⟩ := map_eq_some_iff.1 hk
    exact hke (.of_carries h (killPid_carries hs))
  | waitpid pid u continued nn =>
    obtain ⟨hat, hf⟩ := h.waitpidRound he u continued nn
    exact some.inj hk ▸ ⟨hat, fun x hx => .inl (hf x hx)⟩
  | resume =>
    exact hke (some.inj hk ▸ .of_carries h
      (.setState k.sched .running h.current_not_freed (by decide) (by decide)))

/-- `scheduler_initialize` leaves all queues empty, and nobody has a parent or a child. -/
lemma attached_initial {s : Scheduler n}
    (hl : ∀ p, (s.info p).parent = none ∧ (s.info p).children = []) (qn : UInt64)
    (pid : BitVec 32) : (s.schedulerInitialize qn pid).Attached := by
  obtain ⟨s', hs'⟩ := @exists_eq _ (s.schedulerInitialize qn pid)
  have hp : ∀ p, (s'.info p).parent = none := by
    intro p
    rw [hs']
    exact (s.modify_field kernelProcess (ProcInfo.kernelInfo qn pid) ProcInfo.parent
      (fun _ => rfl) p).trans (hl p).1
  have hch : ∀ p, (s'.info p).children = [] := by
    intro p
    rw [hs']
    exact (s.modify_field kernelProcess (ProcInfo.kernelInfo qn pid) ProcInfo.children
      (fun _ => rfl) p).trans (hl p).2
  have hk : ¬ s'.Absent kernelProcess := by
    have hr : s'.state kernelProcess = .running := hs' ▸ setState_state_self ..
    simp [Absent, hr]
  have he : ∀ x, ¬ s'.queues.Held x := by
    intro x hx
    rw [hs'] at hx
    rcases hx with hx | ⟨q, hx⟩
    · cases hx
    · cases hx
  rw [← hs']
  refine ⟨fun x hx => absurd hx (he x), ?_, hk, fun x y _ hy => ?_, fun x c hc => ?_,
    fun x => ?_, hp kernelProcess⟩
  · exact hs' ▸ hk
  · exact absurd ((hp x).symm.trans hy) (by simp)
  · rw [hch x] at hc
    cases hc
  rw [hch x]
  exact List.nodup_nil

lemma Lived.attached (h : Lived AvoidsFreed k) : k.sched.Attached := by
  induction h with
  | start s q pid _ hs hl => exact hs ▸ attached_initial hl q pid
  | step _ hok hk ih => exact (attached_lifeStep ih hok hk).1

/-- **No dangling pointers.** In every state of a life in which `proc_waitpid` finds no zombie
that is linked elsewhere, no pointer leads to a process that has been freed; and the
state of a freed process is not written until `proc_fork` uses its memory again. -/
theorem no_dangling (h : Lived AvoidsFreed k) :
    k.sched.NoDangling ∧ ∀ e k', k.AvoidsFreed e → k.lifeStep e = some k' →
      ∀ x, k.sched.state x = .terminated →
        k'.sched.state x = .terminated ∨ ∃ parent pid quantum, e = .fork parent x pid quantum :=
  ⟨h.attached.noDangling, fun _ _ he hk => (attached_lifeStep h.attached he hk).2⟩

/-! ## A child that is reaped from the ready queue -/

/-- The kernel process and two numbers for processes in user mode. -/
def family : Machine 2 where
  sched := Scheduler.schedulerInitialize
    { state := fun _ => .new
      info := fun p =>
        { parent := none, children := [], pid := if p = 1 then 1 else 0, priority := 2
          sleepUntil := 0, quantumUs := 0, timeSliceRemainingUs := 0, waitpidTarget := 0
          waitpidWaiting := false, exitCode := 0, stopStatus := 0, continueStatus := 0
          stopStatusPending := false, continuedPending := false, userMode := decide (p ≠ 0)
          signalPending := 0, signalBlocked := 0, signalActions := fun _ => .default
          signalWaitActive := false, signalWaitConsume := false, signalWaitMask := 0
          timer := { active := false, expiresUs := 0, intervalUs := 0 } }
      queues := { next := fun _ => none, readyHead := fun _ => none, readyTail := fun _ => none
                  sleepHead := none }
      force := false
      sleep := false
      current := kernelProcess
      lastExec := 0
      procs := fun slot => if slot = 0 then some 0 else if slot = 1 then some 1 else none
      died := fun _ => false
      revived := false } 0 0
  mutexes _ := { spin := none, owner := none, waiters := [] }
  condvars _ := { spin := none, waiters := [] }
  place _ := .outside
  interrupts _ := true
  holding _ _ := false

lemma initial_family : family.Initial :=
  ⟨fun _ => rfl, fun _ => rfl, fun _ => rfl, fun _ _ => rfl, by decide⟩

lemma lived_family (o : Machine 2 → LifeEvent 2 → Prop) : Lived o family :=
  .start _ 0 0 initial_family rfl fun _ => ⟨rfl, rfl⟩

/-- The kernel process makes the child 2, which runs, is killed and switched away. -/
def killedChild : List (LifeEvent 2) :=
  [.fork 0 2 2 0, .machine (.sched (.procSwitch 1 fun _ => true)), .killPid 2 9,
    .machine (.sched (.procSwitch 2 fun _ => true))]

lemma family_killedChild : ∃ k : Machine 2, family.lifeRun killedChild = some k ∧
    k.sched.current = 0 ∧ (k.sched.info 0).children = [2] ∧
    (∀ q, k.sched.queues.readyHead q = none) ∧ k.sched.queues.sleepHead = none ∧
    (∀ x, (k.sched.info x).parent ≠ some 2) ∧
    (k.lifeStep (.waitpid (-1) false false false)).map (·.sched.state 2) = some .terminated := by
  have hr : (family.lifeRun killedChild).map (fun k => decide (k.sched.current = 0 ∧
      (k.sched.info 0).children = [2] ∧ (∀ q, k.sched.queues.readyHead q = none) ∧
      k.sched.queues.sleepHead = none ∧ (∀ x, (k.sched.info x).parent ≠ some 2) ∧
      (k.lifeStep (.waitpid (-1) false false false)).map (·.sched.state 2) = some .terminated)) =
        some true := by
    decide +kernel
  obtain ⟨k, hk, hf⟩ := map_eq_some_iff.1 hr
  exact ⟨k, hk, of_decide_eq_true hf⟩

/-- The kernel process waits for its killed child, which is freed. -/
theorem no_dangling_reap : ∃ k : Machine 2, Lived AvoidsFreed k ∧ k.sched.state 2 = .terminated ∧
    k.sched.NoDangling := by
  obtain ⟨k, hrun, hcurrent, hchildren, hready, hsleep, hparent, hreap⟩ := family_killedChild
  obtain ⟨k', hk', hfreed⟩ := map_eq_some_iff.1 hreap
  simp only [lifeRun, killedChild, List.foldlM_cons, List.foldlM_nil, bind_eq_bind,
    bind_eq_some_iff] at hrun
  obtain ⟨k₁, h₁, k₂, h₂, k₃, h₃, k₄, h₄, ⟨⟩⟩ := hrun
  have hfork : family.AvoidsFreed (.fork 0 2 2 0) := ⟨by decide, by decide, .inl rfl⟩
  have h : Lived AvoidsFreed k :=
    ((((lived_family _).step hfork h₁).step (by trivial) h₂).step (by trivial) h₃).step
      (by trivial) h₄
  have hloose : k.AvoidsFreed (.waitpid (-1) false false false) := fun c hc _ _ => by
    rw [hcurrent, hchildren, List.mem_singleton] at hc
    subst hc
    refine ⟨fun hheld => ?_, fun x _ => hparent x⟩
    rcases hheld with hasleep | ⟨q, hqueued⟩
    · rw [hsleep] at hasleep
      cases hasleep
    · rw [hready q] at hqueued
      cases hqueued
  have h' := h.step hloose hk'
  exact ⟨k', h', hfreed, (no_dangling h').1⟩

/-- **The process tree.** In every state of such a life a listed child is in use and not the kernel
process, its `parent` leads back, and it is listed once and by nobody else. -/
theorem listed_child_unique (h : Lived AvoidsFreed k) {x c : Process n}
    (hc : c ∈ (k.sched.info x).children) : ¬ k.sched.Absent c ∧ c ≠ kernelProcess ∧
      (k.sched.info c).parent = some x ∧ (k.sched.info x).children.count c = 1 ∧
      ∀ y, c ∈ (k.sched.info y).children → y = x := by
  obtain ⟨ha, hp⟩ := h.attached.child x c hc
  refine ⟨ha, ?_, hp, List.count_eq_one_of_mem (h.attached.nodup x) hc, fun y hy => ?_⟩
  · rintro rfl
    cases h.attached.root.symm.trans hp
  · exact some.inj ((h.attached.child y c hy).2.symm.trans hp)

/-- The kernel process makes the child 2. -/
theorem listed_child_unique_fork :
    ∃ k : Machine 2, Lived AvoidsFreed k ∧ (k.sched.info 2).parent = some 0 := by
  have hr : (family.lifeStep (.fork 0 2 2 0)).map (fun k => (k.sched.info 0).children) =
      some [2] := by decide +kernel
  obtain ⟨k, hk, hc⟩ := map_eq_some_iff.1 hr
  have h := (lived_family AvoidsFreed).step (e := .fork 0 2 2 0) ⟨rfl, by decide, .inl rfl⟩ hk
  exact ⟨k, h, (listed_child_unique h (hc ▸ List.mem_singleton_self 2)).2.2.1⟩

/-- Process 1 runs, makes the child 2, kills it while it is READY and waits for it. The child
has been freed and is the first process of the ready queue. -/
theorem freed_on_ready_queue :
    ∃ k : Machine 2, Lived (fun _ _ => True) k ∧ k.sched.state 2 = .terminated ∧
      k.sched.queues.readyHead 2 = some 2 ∧ ¬ k.sched.NoDangling := by
  have hr : (family.lifeRun [.machine (.sched (.execute 1)),
      .machine (.sched (.procSwitch 1 fun _ => true)), .fork 1 2 2 0, .killPid 2 9,
      .waitpid (-1) false false false]).map (fun k => (k.sched.state 2,
        k.sched.queues.readyHead 2)) = some (.terminated, some 2) := by
    decide +kernel
  obtain ⟨k, hk, hf⟩ := map_eq_some_iff.1 hr
  obtain ⟨hst, hh⟩ := Prod.mk.inj hf
  refine ⟨k, (lived_family _).lifeRun hk, hst, hh, fun h => ?_⟩
  exact h.ready 2 2 (hh ▸ .here) hst
end Machine
end Menios.Proc
