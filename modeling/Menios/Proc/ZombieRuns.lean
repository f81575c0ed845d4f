import Menios.Proc.Zombies

/-!
# The dead stay dead

Runs of all events of a process's life: calls of the scheduler and switches with their
signals and timers, statements of the locks and the condition variables, `proc_fork`,
`proc_kill_pid` and `proc_waitpid`.

**Defect.** `proc_exit_with_status` and `proc_kill_pid` (`src/kernel/proc/proc.c`,
lines 2121-2175) make a zombie of a process and leave it where it is: on the sleep queue, on
the list of a mutex or a condition variable, as a parent with `waitpid_waiting` set. The
functions that wake a process from there (`scheduler_wake_sleepers`, `proc_mark_ready` and
the statements of `kmutex_unlock` and `kcondvar_broadcast` before it) write READY without a
look at the state, so that the zombie runs again.

Results:

* `procSwitch_settled`: a switch that wakes no dead process leaves the dead alone.
* `dead_stay_dead`: the same for whole runs.
* `zombie_runs_again`: a process that is killed in its sleep runs again when its time is
  over.
-/

namespace Menios.Proc
open Common Threads Option

namespace Scheduler
variable {n : ℕ} {s s' : Scheduler n} {p : Process n} {D : Process n → Prop} {now : UInt64}
/-! ## Signals, sleepers and timers -/

lemma Mortal.handlePending (h : s.Mortal D) (hcur : s.current = p)
    (ha : s.Deliverable p → s.died p = false) {c : Bool} {d : Delivery}
    (hs : s.handlePending p c = some (d, s')) : s'.Mortal D ∧ Traits D s s' ∧
      (∀ now, s.Calm now → (s.Deliverable p → ¬ s.queues.Asleep p) → s'.Calm now) ∧
      (¬ s.Deliverable p → s' = s) := by
  by_cases hp : s.Deliverable p
  · rw [handlePending_of_deliverable hp] at hs
    have hD := h.deliverable p hp
    have hj : Judged D p s s' := .deliver h.settled (ha hp) (h.parentAlive hD) hcur hs
    exact ⟨h.of_judged hD hp.2.1 hj, hj.traits, fun now hc has => hj.calm now hc (has hp),
      fun hnot => absurd hp hnot⟩
  rw [handlePending_of_not_deliverable hp] at hs
  obtain rfl := (Prod.mk.inj (some.inj hs)).2
  exact ⟨h, Traits.refl s, fun _ hc _ => hc, fun _ => rfl⟩

lemma Lives.wakeFirst (h : s.Settled) (hh : s.queues.sleepHead = some p)
    (hp : s.died p = false) : Lives D s (s.wakeFirst p) := by
  have h1 : Lives D s (s.setQueues (s.queues.popSleeper p)) :=
    setQueues h fun x hx => Queues.asleep_of_popSleeper hh hx
  have h2 : Lives D s ((s.setQueues (s.queues.popSleeper p)).setState p .ready) :=
    h1.trans (setState h1.settled hp (by decide))
  have h3 := h2.trans (modify (D := D) h2.settled p ProcInfo.newSlice)
  refine h3.trans (readyQueuePush h3.settled ?_)
  rw [h3.died]
  exact hp

variable {fl : ℕ}
lemma Lives.wakeSleepers (h : s.Settled) (hc : s.Calm now)
    (hs : wakeSleepers now fl s = some s') : Lives D s s' := by
  refine wakeSleepers_inv (I := Lives D s) (fun {s1 p} h1 hh hnow => ?_) (refl h) hs
  have ha : s1.queues.Asleep p := by
    rw [Queues.Asleep, hh]
    exact .here
  exact h1.trans (wakeFirst h1.settled hh (h1.calm now hc p ha hnow))

/-- The processes whose timers have expired are in `D` if they can get signals. -/
def DueIn (s : Scheduler n) (D : Process n → Prop) (now : UInt64) : Prop :=
  ∀ slot p, s.procs slot = some p → p ≠ kernelProcess → (s.info p).timer.active = true →
    (s.info p).timer.expiresUs ≤ now → (s.info p).userMode = true → D p

/-- What is kept while the timers are checked. -/
structure Checked (D : Process n → Prop) (now : UInt64) (s s' : Scheduler n) : Prop where
  mortal : s'.Mortal D
  due : s'.DueIn D now
  current : s'.current = s.current
  sleep : s'.sleep = s.sleep
  died : s'.died = s.died

lemma Checked.rearm (h : s.Mortal D) (hdue : s.DueIn D now)
    (hp : (s.info p).userMode = true → D p) (f : ProcInfo n → ProcInfo n)
    (hf : ∀ i, ∃ timer, f i = { i with timer := timer }) : Checked D now s (s.modify p f) := by
  obtain ⟨s', hs'⟩ := @exists_eq _ (s.modify p f)
  have hfi : ∀ x, (s'.info x).userMode = (s.info x).userMode ∧
      (s'.info x).signalPending = (s.info x).signalPending ∧
      (s'.info x).parent = (s.info x).parent ∧
      (s'.info x).waitpidWaiting = (s.info x).waitpidWaiting := by
    intro x
    rw [hs']
    by_cases hxp : x = p
    · obtain ⟨timer, ht⟩ := hf (s.info p)
      rw [hxp, modify_info_self, ht]
      exact ⟨rfl, rfl, rfl, rfl⟩
    rw [modify_info_of_ne _ _ _ hxp]
    exact ⟨rfl, rfl, rfl, rfl⟩
  rw [← hs']
  refine ⟨⟨⟨?_, ?_⟩, ?_, fun x hx => ?_, fun c x hc hx hw => ?_⟩, fun slot x hsl hx ha
    he hu => ?_, ?_, ?_, ?_⟩
  · exact hs' ▸ h.settled.revived
  · exact hs' ▸ h.settled.dead
  · exact hs' ▸ h.kernel
  · rw [Deliverable, (hfi x).1, (hfi x).2.1] at hx
    exact h.deliverable x hx
  · rw [(hfi c).2.2.1] at hx
    rw [(hfi x).2.2.2] at hw
    exact hs' ▸ h.parents c x hc hx hw
  · rw [(hfi x).1] at hu
    by_cases hxp : x = p
    · exact hxp ▸ hp (hxp ▸ hu)
    · rw [hs', modify_info_of_ne _ _ _ hxp] at ha he
      exact hdue slot x (by rwa [hs'] at hsl) hx ha he hu
  · rw [hs']; rfl
  · rw [hs']; rfl
  · rw [hs']; rfl

lemma Checked.itimer (h : s.Mortal D) (hdue : s.DueIn D now) {sl : Fin 16}
    (hs : checkItimer now s sl = some s') : Checked D now s s' := by
  rw [checkItimer] at hs
  split at hs
  · exact some.inj hs ▸ ⟨h, hdue, rfl, rfl, rfl⟩
  next p hsl =>
  split_ifs at hs with hsk
  · exact some.inj hs ▸ ⟨h, hdue, rfl, rfl, rfl⟩
  obtain ⟨s1, hse, rfl⟩ := map_eq_some_iff.1 hs
  rw [not_or, not_or, Bool.not_eq_false, UInt64.not_lt] at hsk
  have hp : (s.info p).userMode = true → D p := hdue sl p hsl hsk.1 hsk.2.1 hsk.2.2
  have h1 : Lives (· = p) s s1 := .signalSend h.settled rfl hse
  have hmo : s1.Mortal D :=
    h.of_traits h1.traits (fun x hx hu => hx ▸ hp (hx ▸ hu)) h1.settled
      (fun _ _ => by rw [h1.died]) (by rw [h1.died]; exact h.kernel)
  have hd1 : s1.DueIn D now := by
    intro sl x
    rw [h1.traits.procs, h1.traits.timer, h1.traits.userMode]
    exact hdue sl x
  have h2 : Checked D now s1 (s1.modify p fun i => { i with timer := i.timer.next now }) :=
    .rearm hmo hd1 (by rw [h1.traits.userMode]; exact hp) _ fun _ => ⟨_, rfl⟩
  exact ⟨h2.mortal, h2.due, h2.current.trans h1.traits.current,
    h2.sleep.trans h1.traits.sleep, h2.died.trans h1.died⟩

lemma Checked.itimers (h : s.Mortal D) (hdue : s.DueIn D now)
    (hs : s.checkItimers now = some s') : Checked D now s s' := by
  refine foldlM_inv (Checked D now s) ⟨h, hdue, rfl, rfl, rfl⟩ (fun slot s1 s2 h1 hs1 => ?_) hs
  have h2 := Checked.itimer h1.mortal h1.due hs1
  exact ⟨h2.mortal, h2.due, h2.current.trans h1.current, h2.sleep.trans h1.sleep,
    h2.died.trans h1.died⟩

/-! ## The next process -/

lemma SameLife.mortal (h : SameLife s s') (hm : s.Mortal D) : s'.Mortal D :=
  hm.of_same h.state h.info h.died h.revived

variable {cp : ℕ → Bool}
lemma Mortal.selectNext (h : s.Mortal D) (hs : selectNext cp fl s = some s') :
    s'.Mortal D ∧ s'.died s'.current = false := by
  suffices hr : s'.Mortal D ∧ (s'.current ≠ kernelProcess →
      s'.state s'.current ≠ .zombie ∧ s'.state s'.current ≠ .terminated) by
    obtain ⟨hm, he⟩ := hr
    refine ⟨hm, ?_⟩
    by_cases hk : s'.current = kernelProcess
    · rw [hk]
      exact hm.kernel
    · exact hm.settled.alive (he hk).1 (he hk).2
  refine selectNext_inv (I := Mortal D) (fun s1 p h1 => ?_)
    (fun {s1 s2 s3 popped _ _} h1 hpop hpe => ?_) h hs
  · exact (Unqueued.cleanupProcess s1 p).toSameLife.mortal h1
  obtain ⟨hsa, hpo⟩ := popFrom_same hpop
  have hm2 : Mortal D { s2 with current := popped.getD kernelProcess } :=
    h1.of_same hsa.state hsa.info hsa.died hsa.revived
  have ha : s2.died (popped.getD kernelProcess) = false := by
    cases popped with
    | none => exact hm2.kernel
    | some p =>
      have hp := (hpo p rfl).2
      rw [← hsa.state] at hp
      exact hm2.settled.alive hp.1 hp.2
  exact (hm2.handlePending rfl (fun _ => ha) hpe).1

/-! ## The switch -/
variable {t : Bool}
lemma Mortal.switchAway (h : s.Mortal D) (hsp : t = true → s.died s.current = false)
    (hs : s.switchAway t = some s') : s'.Mortal D := by
  rw [Scheduler.switchAway] at hs
  split_ifs at hs with htoSleep ht hr hk
  · have hsl : Lives D s (s.setState s.current .sleeping) :=
      .setState h.settled (hsp htoSleep) (by decide)
    exact (SameLife.sleepEnqueue hs).mortal (h.of_lives hsl)
  · exact some.inj hs ▸ (Unqueued.cleanupProcess s s.current).toSameLife.mortal h
  · have ha : s.died s.current = false := h.settled.alive (by rw [hr]; decide) ht
    have h1 : Lives D s (s.setState s.current .ready) := .setState h.settled ha (by decide)
    have h2 := h1.trans (Lives.modify (D := D) h1.settled s.current ProcInfo.newSlice)
    refine some.inj hs ▸ h.of_lives (h2.trans (Lives.readyQueuePush h2.settled ?_))
    rw [h2.died]
    exact ha
  · have h1 : Lives D s (s.modify s.current .newSlice) := .modify h.settled s.current _
    exact some.inj hs ▸ h.of_lives h1
  · exact some.inj hs ▸ h

lemma Mortal.switchTo (h : s.Mortal D) (hsl : t = true → s.died s.current = false)
    (hs : s.switchTo t cp = some s') : s'.Mortal D := by
  rw [Scheduler.switchTo] at hs
  split at hs
  · cases hs
  next s1 ha =>
  obtain ⟨s2, hse, rfl⟩ := map_eq_some_iff.1 hs
  obtain ⟨hm2, hal⟩ := (h.switchAway hsl ha).selectNext hse
  have h1 : Lives D s2 (s2.setState s2.current .running) := .setState hm2.settled hal (by decide)
  exact hm2.of_lives (h1.trans (.modify h1.settled s2.current ProcInfo.newSlice))

lemma Mortal.reschedule (h : s.Mortal D) {f : Bool} (hsl : t = true → s.died s.current = false)
    (hs : s.reschedule f t cp = some s') : s'.Mortal D := by
  rw [Scheduler.reschedule] at hs
  split_ifs at hs
  · exact some.inj hs ▸ h
  · exact h.switchTo hsl hs

lemma Mortal.account (h : s.Mortal D) (d : UInt64) :
    (s.account d).Mortal D ∧ (s.account d).died = s.died ∧ (s.account d).current = s.current := by
  rw [Scheduler.account]
  split_ifs
  · refine ⟨h.of_lives (Lives.modify h.settled s.current _ ?_ ?_), rfl, rfl⟩
    · exact fun _ => rfl
    · exact fun _ => rfl
  · exact ⟨h, rfl, rfl⟩

/-- The processes that may get a signal in a switch at the time `now`. -/
def MayDie (s : Scheduler n) (now : UInt64) (p : Process n) : Prop :=
  (s.info p).userMode = true ∧ p ≠ kernelProcess ∧
    ((s.info p).signalPending ≠ 0#32 ∨ ∃ slot, s.procs slot = some p ∧
      (s.info p).timer.active = true ∧ (s.info p).timer.expiresUs ≤ now)

/-- A switch at the time `now` that wakes no dead process. A process that runs on although
it is dead gets no signal and does not go to sleep. A sleep is not requested by a
process that a signal may kill first. The sleepers whose time is over are alive. And
whoever may die has no parent that waits for it and is dead or may die as well. -/
structure SparesDead (s : Scheduler n) (now : UInt64) : Prop where
  running : s.Deliverable s.current → s.died s.current = false ∧ ¬ s.queues.Asleep s.current
  sleep : s.sleep = true → s.died s.current = false ∧ ¬ s.Deliverable s.current
  sleepers : s.Calm now
  parents : ∀ c x, s.MayDie now c → (s.info c).parent = some x →
    (s.info x).waitpidWaiting = true → s.died x = false ∧ ¬ s.MayDie now x

lemma switchEvents_mortal (h : s.Settled) (hk : s.died kernelProcess = false)
    (hsa : s.SparesDead now) {cp : Bool} (hs : s.switchEvents now cp = some s') :
    s'.Mortal (s.MayDie now) ∧ (s'.sleep = true → s'.died s'.current = false) := by
  have hm : s.Mortal (s.MayDie now) := ⟨h, hk, fun p hp => ⟨hp.1, hp.2.1, .inl hp.2.2⟩, hsa.parents⟩
  have hdue : s.DueIn (s.MayDie now) now := fun slot p hst hp ha he hu =>
    ⟨hu, hp, .inr ⟨slot, hst, ha, he⟩⟩
  rw [switchEvents] at hs
  split at hs
  · cases hs
  next d s1 hde =>
  obtain ⟨hm1, ht, hc, hid⟩ := hm.handlePending rfl (fun hp => (hsa.running hp).1) hde
  have hc1 := hc now hsa.sleepers fun hp => (hsa.running hp).2
  have hd1 : s1.DueIn (s.MayDie now) now := by
    intro slot x
    rw [ht.procs, ht.timer, ht.userMode]
    exact hdue slot x
  split at hs
  · cases hs
  next s2 hwa =>
  have h2 : Lives (s.MayDie now) s1 s2 := .wakeSleepers hm1.settled hc1 hwa
  have hd2 : s2.DueIn (s.MayDie now) now := by
    intro slot x
    rw [h2.traits.procs, h2.traits.timer, h2.traits.userMode]
    exact hd1 slot x
  have h3 := Checked.itimers (hm1.of_lives h2) hd2 hs
  refine ⟨h3.mortal, fun hsl => ?_⟩
  rw [h3.sleep, h2.traits.sleep, ht.sleep] at hsl
  obtain ⟨hal, hnot⟩ := hsa.sleep hsl
  obtain rfl := hid hnot
  rw [h3.died, h2.died, h3.current, h2.traits.current]
  exact hal

theorem procSwitch_settled (h : s.Settled) (hk : s.died kernelProcess = false)
    (hsa : s.SparesDead now) (hs : s.procSwitch now cp = some s') :
    s'.Settled ∧ s'.died kernelProcess = false := by
  have hcl : SparesDead { s with lastExec := now } now := { hsa with }
  rw [procSwitch] at hs
  split at hs
  · cases hs
  next s1 he =>
  obtain ⟨hm1, hsl⟩ := switchEvents_mortal (s := { s with lastExec := now }) { h with } hk hcl he
  obtain ⟨D, hD⟩ : ∃ D, D = MayDie { s with lastExec := now } now := ⟨_, rfl⟩
  rw [← hD] at hm1
  have hcr : s1.clearActions.Mortal D := hm1.of_same rfl rfl rfl rfl
  obtain ⟨hm2, hdi, hc⟩ := hcr.account (now - if s.lastExec = 0 then now else s.lastExec)
  have hm := hm2.reschedule (fun ht => by rw [hdi, hc]; exact hsl ht) hs
  exact ⟨hm.settled, hm.kernel⟩

/-! ## The other functions -/

/-- What a run maintains. -/
structure Undead (s : Scheduler n) : Prop where
  settled : s.Settled
  kernel : s.died kernelProcess = false

section
variable (h : s.Undead)
include h
lemma Undead.of_lives (hl : Lives D s s') : s'.Undead :=
  ⟨hl.settled, by rw [hl.died]; exact h.kernel⟩

lemma Undead.of_judged (hp : p ≠ kernelProcess) (hj : Judged D p s s') : s'.Undead :=
  ⟨hj.settled, by rw [hj.died kernelProcess hp.symm]; exact h.kernel⟩

lemma Undead.of_same (hst : s'.state = s.state) (hdi : s'.died = s.died)
    (hr : s'.revived = s.revived) : s'.Undead := by
  refine ⟨⟨hr.trans h.settled.revived, ?_⟩, ?_⟩
  · rw [hst, hdi]
    exact h.settled.dead
  rw [hdi]
  exact h.kernel

lemma Undead.modify (p : Process n) (f : ProcInfo n → ProcInfo n) : (s.modify p f).Undead :=
  h.of_same rfl rfl rfl

lemma Undead.cleanupProcess (p : Process n) : (s.cleanupProcess p).Undead := by
  have hsa := Unqueued.cleanupProcess s p
  exact h.of_same hsa.state hsa.died hsa.revived

lemma Undead.setState {st : ProcState} (hst : st ≠ .zombie)
    (hp : s.died p = false ∨ st = .terminated) : (s.setState p st).Undead := by
  refine ⟨h.settled.setState (hp.imp_right .inr), ?_⟩
  rw [died_setState s p hst]
  exact h.kernel

lemma Undead.execute (hp : s.died p = false) : (s.execute p).Undead := by
  have hr : (s.setState p .ready).Undead := h.setState (by decide) (.inl hp)
  exact hr.of_same rfl rfl rfl

lemma Undead.newProcess (hp : p ≠ kernelProcess) (i : ProcInfo n) : (s.newProcess p i).Undead := by
  have hot : ∀ x, x ≠ p → (s.newProcess p i).died x = s.died x :=
    fun x hx => Function.update_of_ne hx ..
  refine ⟨⟨h.settled.revived, fun x hx => ?_⟩, ?_⟩
  · have hne : x ≠ p := by
      rintro rfl
      have hse : (s.newProcess x i).died x = false := Function.update_self ..
      exact absurd (hse.symm.trans hx) (by simp)
    have hst : (s.newProcess p i).state x = s.state x := Function.update_of_ne hne ..
    rw [hst]
    exact h.settled.dead x ((hot x hne).symm.trans hx)
  rw [hot _ hp.symm]
  exact h.kernel
end

variable {pd : BitVec 32}
lemma Undead.fork (h : s.Undead) {pr c : Process n} (hc : c ≠ kernelProcess)
    {q : UInt64} (hs : s.fork pr c pd q = some s') : s'.Undead := by
  obtain ⟨s2, hin, rfl⟩ := map_eq_some_iff.1 hs
  obtain ⟨i, -, rfl⟩ := map_eq_some_iff.1 hin
  obtain ⟨s1, hs1⟩ := @exists_eq _ (s.newProcess c ((s.info pr).forked pr pd q))
  have hnew : s1.Undead := hs1 ▸ h.newProcess hc _
  have ha : s1.died c = false := hs1 ▸ Function.update_self ..
  rw [← hs1]
  have ht : Undead { s1 with procs := Function.update s1.procs i (some c) } :=
    hnew.of_same rfl rfl rfl
  have hr : Undead (({ s1 with procs := Function.update s1.procs i (some c) }.setState c
      .ready).modify pr (.linkChild c)) :=
    (ht.setState (p := c) (by decide) (.inl ha)).of_same rfl rfl rfl
  refine hr.execute ?_
  rw [modify_died, died_setState _ _ (by decide)]
  exact ha

lemma Undead.killPid (h : s.Undead) {c r : ℤ} (hp : ∀ p, s.findByPid pd = some p → s.ParentAlive p)
    (hs : s.killPid pd c = some (r, s')) : s'.Undead := by
  rw [Scheduler.killPid] at hs
  split at hs
  · exact (Prod.mk.inj (some.inj hs)).2 ▸ h
  next tr ht =>
  split_ifs at hs with hk
  · exact (Prod.mk.inj (some.inj hs)).2 ▸ h
  · exact (Prod.mk.inj (some.inj hs)).2 ▸ h
  obtain ⟨s1, hb, he⟩ := map_eq_some_iff.1 hs
  cases he
  exact h.of_judged hk (Judged.bury (D := fun _ => False) h.settled (hp tr ht) hb)

lemma Undead.reap (h : s.Undead) (parent c : Process n) : (s.reap parent c).Undead := by
  have hr := ((h.modify parent (.unlinkChild c)).modify c fun i =>
    { i with parent := none }).setState (p := c) (by decide) (.inr (Eq.refl ProcState.terminated))
  exact hr.cleanupProcess c

lemma reap_current (s : Scheduler n) (pr c : Process n) : (s.reap pr c).current = s.current :=
  (Unqueued.cleanupProcess _ c).current

lemma reap_died (s : Scheduler n) (pr c : Process n) : (s.reap pr c).died = s.died := by
  rw [reap, (Unqueued.cleanupProcess _ c).died, died_setState _ c (by decide)]
  rfl

lemma Undead.waitpidRound (h : s.Undead) (hc : s.died s.current = false)
    (pd : BitVec 32) (u c nn : Bool) : (s.waitpidRound pd u c nn).Undead := by
  obtain ⟨s1, hs1⟩ := @exists_eq _ ((s.waitpid s.current pd u c).2.2)
  have hwa := hs1 ▸ s.waited s.current pd u c
  obtain ⟨h1, hc1, hd1⟩ : s1.Undead ∧ s1.current = s.current ∧ s1.died = s.died := by
    cases hwa with
    | same => exact ⟨h, rfl, rfl⟩
    | told child f => exact ⟨(h.modify child f).modify s.current _, rfl, rfl⟩
    | reaped child => exact ⟨h.reap _ child, reap_current s _ child, reap_died s _ child⟩
  have ha : s1.died s1.current = false := by
    rw [hd1, hc1]
    exact hc
  have hb : Undead ((s1.modify s1.current (.beginWait pd)).setState s1.current .waiting) :=
    (h1.modify s1.current (.beginWait pd)).setState (by decide) (.inl ha)
  simp only [Scheduler.waitpidRound, ← hs1]
  split_ifs
  · exact h1.modify s1.current _
  · exact hb
  · exact hb.of_same rfl rfl rfl

/-- A call of the scheduler that wakes no dead process. -/
def OpSpares (s : Scheduler n) : Op n → Prop
  | .execute p => s.died p = false
  | .markReady p => s.died p = false
  | .markStopped p _ => s.died p = false ∧ s.ParentAlive p
  | .markContinued p => s.ParentAlive p
  | .exit _ => s.current ≠ kernelProcess ∧ s.ParentAlive s.current
  | .procSwitch now _ => s.SparesDead now
  | _ => True

lemma Undead.step (h : s.Undead) {o : Op n} (hop : s.OpSpares o)
    (hs : s.step o = some s') : s'.Undead := by
  cases o with
  | execute p => exact some.inj hs ▸ h.execute hop
  | markReady p => exact h.of_lives (Lives.markReady (D := fun _ => False) h.settled hop hs)
  | markStopped p signo =>
    exact h.of_lives (Lives.markStopped (D := fun _ => False) h.settled hop.1 hop.2 hs)
  | markContinued p => exact h.of_lives (Lives.markContinued (D := fun _ => False) h.settled hop hs)
  | requestYield => exact some.inj hs ▸ h.of_same rfl rfl rfl
  | requestSleep now d =>
    cases hs
    rw [requestSleep]
    split_ifs
    · exact h.of_same rfl rfl rfl
    · exact h.of_same rfl rfl rfl
  | requestBlock => exact some.inj hs ▸ h.of_same rfl rfl rfl
  | signalSend p signo => exact h.of_lives (Lives.signalSend (D := (· = p)) h.settled rfl hs)
  | exit c => exact h.of_judged hop.1 (Judged.bury (D := fun _ => False) h.settled hop.2 hs)
  | procSwitch now cp =>
    obtain ⟨hse, hk⟩ := procSwitch_settled h.settled h.kernel hop hs
    exact ⟨hse, hk⟩
  | configure info procs => exact some.inj hs ▸ h.of_same rfl rfl rfl
end Scheduler

namespace Machine
variable {n : ℕ} {k k' : Machine n}
open Scheduler

/-! ## Runs -/

/-- An event that wakes no dead process. The number of a child is free: its memory was
never used or has been freed. -/
def Spares (k : Machine n) : LifeEvent n → Prop
  | .machine (.exec _) =>
    ∀ x, (k.place k.sched.current).writes k.sched.current = some x → k.sched.died x = false
  | .machine (.sched op) => k.sched.OpSpares op
  | .machine _ => True
  | .fork _ child _ _ =>
    child ≠ kernelProcess ∧ (k.sched.state child = .new ∨ k.sched.state child = .terminated)
  | .killPid pid _ => ∀ p, k.sched.findByPid pid = some p → k.sched.ParentAlive p
  | .waitpid _ _ _ _ => k.sched.died k.sched.current = false
  | .resume => k.sched.died k.sched.current = false

lemma undead_of_effect {s s' : Scheduler n} {w : Option (Process n)} (h : s.Undead)
    (hwr : ∀ x, w = some x → s.died x = false) (he : Effect s w s') : s'.Undead := by
  cases he with
  | same => exact h
  | yield => exact h.of_same rfl rfl rfl
  | state hx hst =>
    refine h.setState ?_ (.inl (hwr _ hx))
    rcases hst with rfl | rfl | rfl <;> decide
  | ready hx hr => exact h.of_lives (Lives.markReady (D := fun _ => False) h.settled (hwr _ hx) hr)

lemma undead_lifeStep (h : k.sched.Undead) {e : LifeEvent n} (he : k.Spares e)
    (hk : k.lifeStep e = some k') : k'.sched.Undead := by
  cases e with
  | machine e =>
    cases e with
    | call c => exact some.inj hk ▸ h
    | exec allocated => exact undead_of_effect h he (execAt_effect hk)
    | setInterrupts o => exact some.inj hk ▸ h
    | sched op =>
      obtain ⟨s, hs, rfl⟩ := map_eq_some_iff.1 hk
      exact h.step he hs
  | fork parent child pid q =>
    obtain ⟨s, hs, rfl⟩ := map_eq_some_iff.1 hk
    exact h.fork he.1 hs
  | killPid pid cd =>
    obtain ⟨r, hs, rfl⟩ := map_eq_some_iff.1 hk
    exact h.killPid he hs
  | waitpid pid u continued nn => exact some.inj hk ▸ h.waitpidRound he pid u continued nn
  | resume => exact some.inj hk ▸ h.setState (by decide) (.inl he)

/-- The states of a life whose events satisfy `ok`. It begins with
`scheduler_initialize`, when no process has a parent or a child. -/
inductive Lived (ok : Machine n → LifeEvent n → Prop) : Machine n → Prop
  | start {k : Machine n} (s : Scheduler n) (quantum : UInt64) (pid : BitVec 32) (h : k.Initial)
      (hs : k.sched = s.schedulerInitialize quantum pid)
      (hlinks : ∀ p, (s.info p).parent = none ∧ (s.info p).children = []) : Lived ok k
  | step {k k' : Machine n} {e : LifeEvent n} (h : Lived ok k) (hok : ok k e)
      (hk : k.lifeStep e = some k') : Lived ok k'

lemma undead_initial (s : Scheduler n) (q : UInt64) (pi : BitVec 32) :
    (s.schedulerInitialize q pi).Undead := by
  have hdi : (s.schedulerInitialize q pi).died = fun _ => false := died_setState _ _ (by decide)
  refine ⟨⟨rfl, fun p hp => ?_⟩, ?_⟩
  · rw [hdi] at hp
    cases hp
  · rw [hdi]

lemma Lived.undead (h : Lived Spares k) : k.sched.Undead := by
  induction h with
  | start s q pid _ hs _ => exact hs ▸ undead_initial s q pid
  | step _ hok hk ih => exact undead_lifeStep ih hok hk

/-- **The dead stay dead.** In every state of a life whose events wake no dead process,
nobody who has been a zombie was ever made READY or RUNNING again, and so `proc_switch`
has never selected such a process. -/
theorem dead_stay_dead (h : Lived Spares k) : k.sched.revived = false ∧ ∀ p, k.sched.died p = true →
      k.sched.state p ≠ .ready ∧ k.sched.state p ≠ .running := by
  refine ⟨h.undead.settled.revived, fun p hp => ?_⟩
  rcases h.undead.settled.dead p hp with hst | hst
  · rw [hst]
    exact ⟨by decide, by decide⟩
  rw [hst]
  exact ⟨by decide, by decide⟩

/-! ## A process that is killed in its sleep -/

/-- The events one after another. -/
def lifeRun (k : Machine n) (es : List (LifeEvent n)) : Option (Machine n) := es.foldlM lifeStep k

lemma lived_idle (o : Machine 1 → LifeEvent 1 → Prop) : Lived o idle :=
  .start Scheduler.oneProcess 0 0 initial_idle rfl fun _ => ⟨rfl, rfl⟩

lemma Lived.lifeRun (h : Lived (fun _ _ => True) k) {e : List (LifeEvent n)}
    (hk : k.lifeRun e = some k') : Lived (fun _ _ => True) k' :=
  foldlM_inv (Lived fun _ _ => True) h (fun _ _ _ h hk => h.step trivial hk) hk

/-- A new process is killed before it has run, and its parent goes on. -/
theorem dead_stay_dead_killed :
    ∃ k : Machine 1, Lived Spares k ∧ k.sched.died 1 = true ∧ k.sched.revived = false ∧
      k.sched.state 1 ≠ .ready ∧ k.sched.state 1 ≠ .running := by
  have hfo : (idle.lifeStep (.fork 0 1 1 0)).map (fun k => ((k.sched.info 1).parent,
      (k.sched.info 0).waitpidWaiting, k.sched.findByPid 1)) = some (some 0, false, some 1) := by
    decide +kernel
  have hk : (idle.lifeRun [.fork 0 1 1 0, .killPid 1 9]).map (fun k => k.sched.died 1) =
      some true := by
    decide +kernel
  obtain ⟨k1, hk1, hf⟩ := map_eq_some_iff.1 hfo
  simp only [Prod.mk.injEq] at hf
  obtain ⟨hpar, hwa, hfi⟩ := hf
  obtain ⟨k2, hk2, hdi⟩ := map_eq_some_iff.1 hk
  have hst : k1.lifeStep (.killPid 1 9) = some k2 := by
    rw [Machine.lifeRun, List.foldlM_cons, hk1] at hk2
    simpa using hk2
  have hsp : idle.Spares (.fork 0 1 1 0) := ⟨by decide, .inl rfl⟩
  have h1 : Lived Spares k1 := (lived_idle Spares).step hsp hk1
  have hs1 : k1.Spares (.killPid 1 9) := by
    intro p hp x hx hw
    obtain rfl : 1 = p := some.inj (hfi.symm.trans hp)
    obtain rfl : 0 = x := some.inj (hpar.symm.trans hx)
    exact absurd (hwa.symm.trans hw) (by simp)
  have h2 : Lived Spares k2 := h1.step hs1 hst
  obtain ⟨hr, hde⟩ := dead_stay_dead h2
  exact ⟨k2, h2, hdi, hr, hde 1 hdi⟩

/-- A thread of the kernel (number 1, pid 1) is started and sleeps until the time 11. It is
killed at the time 2, and the switch at the time 20 makes the zombie the running
process. -/
theorem zombie_runs_again :
    ∃ k k' : Machine 1, Lived (fun _ _ => True) k ∧ k.sched.state 1 = .zombie ∧
      k.lifeStep (.machine (.sched (.procSwitch 20 fun _ => true))) = some k' ∧
      k'.sched.current = 1 ∧ k'.sched.state 1 = .running ∧ k'.sched.revived = true := by
  have hsl : (idle.lifeRun [
      .machine (.sched (.configure
        (fun p => if p = 1 then { idle.sched.info 1 with pid := 1 } else idle.sched.info p)
        fun slot => if slot = 0 then some 0 else if slot = 1 then some 1 else none)),
      .machine (.sched (.execute 1)), .machine (.sched (.procSwitch 1 fun _ => true)),
      .machine (.sched (.requestSleep 1 10)), .machine (.sched (.procSwitch 2 fun _ => true)),
      .killPid 1 9]).map (fun k => (k.sched.state 1,
        (k.lifeStep (.machine (.sched (.procSwitch 20 fun _ => true)))).map fun k' =>
          (k'.sched.current, k'.sched.state 1, k'.sched.revived))) =
      some (.zombie, some (1, .running, true)) := by
    decide +kernel
  obtain ⟨k, hk, hf⟩ := map_eq_some_iff.1 hsl
  obtain ⟨hz, hne⟩ := Prod.mk.inj hf
  obtain ⟨k', hk', hf'⟩ := map_eq_some_iff.1 hne
  simp only [Prod.mk.injEq] at hf'
  exact ⟨k, k', (lived_idle _).lifeRun hk, hz, hk', hf'⟩
end Machine
end Menios.Proc
