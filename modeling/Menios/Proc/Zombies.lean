import Menios.Proc.Waiting

/-!
# Dead processes

A process is dead when it has been a zombie. `Settled` says that the dead are zombies or
have been reaped, and that none was made READY or RUNNING again.

Results:

* `Lives`: what a function does that kills nobody and revives nobody; one lemma for each
  function of the scheduler, on the condition that the process it writes to is alive.
* `Judged`: what `proc_signal_handle_pending` does to a process, which may die of it.
* `Mortal`: the condition under which the signals of a set of processes kill nobody whose
  death wakes a dead parent.
-/

namespace Menios.Proc
open Common Threads ProcInfo Option

namespace Queues
variable {n : ℕ} {qs q' : Queues n} {p x : Process n}
/-! ## The sleep queue -/

/-- The process is on the sleep queue, which may have become a circle. -/
def Asleep (qs : Queues n) (x : Process n) : Prop := Reach qs.next qs.sleepHead x

lemma asleep_of_sleepRemove (h : qs.sleepRemove p = some q') (hx : q'.Asleep x) : qs.Asleep x := by
  rw [sleepRemove] at h
  split at h
  · cases h
  · exact some.inj h ▸ hx
  next prev hf =>
  cases h
  have hle : ∀ c, prev = some c → qs.next c = some p := fun _ => findPrev_prev hf
  simp only [Asleep] at hx ⊢
  split_ifs at hx with hp
  · -- the first sleeper has gone
    have hh : qs.sleepHead = some p := by
      rcases (findPrev_leads hf).2 with ⟨-, hh⟩ | ⟨c, hc, -⟩
      · exact hh
      · exact absurd (hp.symm.trans hc) (by simp)
    rw [hh]
    exact .step (hx.of_unlinkNext hle)
  · exact hx.of_unlinkNext hle

lemma asleep_of_readyRemoveFrom {qu : List Priority}
    (h : qs.readyRemoveFrom p qu = some q') (hx : q'.Asleep x) : qs.Asleep x := by
  induction qu with
  | nil => exact some.inj h ▸ hx
  | cons q qu ih =>
    rw [readyRemoveFrom] at h
    split at h
    · cases h
    · exact ih h
    next prev hf =>
    cases h
    exact Reach.of_unlinkNext (fun _ => findPrev_prev hf) hx

lemma asleep_of_push {q : Priority} (hx : (qs.push q p).Asleep x) : qs.Asleep x ∨ x = p :=
  Reach.of_pushNext hx

lemma asleep_of_popSleeper (hh : qs.sleepHead = some p) (hx : (qs.popSleeper p).Asleep x) :
    qs.Asleep x := by
  have hr : Reach (unlinkNext qs.next none p) (qs.next p) x := hx
  rw [Asleep, hh]
  exact .step (hr.of_unlinkNext (by simp))
end Queues

namespace Scheduler
variable {n : ℕ} {s s' s'' : Scheduler n} {p : Process n}
/-! ## Dead processes -/

/-- Nobody has been revived, and the dead are zombies or have been reaped. -/
structure Settled (s : Scheduler n) : Prop where
  revived : s.revived = false
  dead : ∀ p, s.died p = true → s.state p = .zombie ∨ s.state p = .terminated

/-- No process on the sleep queue that is to be woken at the time `now` is dead. -/
def Calm (s : Scheduler n) (now : UInt64) : Prop :=
  ∀ x, s.queues.Asleep x → (s.info x).sleepUntil ≤ now → s.died x = false

lemma Settled.alive (h : s.Settled) (hz : s.state p ≠ .zombie) (ht : s.state p ≠ .terminated) :
    s.died p = false := by
  by_contra hne
  rcases h.dead p (by simpa using hne) with hst | hst
  · exact hz hst
  · exact ht hst

lemma Settled.setState (h : s.Settled) {st : ProcState}
    (hp : s.died p = false ∨ st = .zombie ∨ st = .terminated) : (s.setState p st).Settled where
  revived := by rcases hp with hp | rfl | rfl <;> simp [Scheduler.setState, h.revived, *]
  dead x hx := by
    by_cases hxp : x = p
    · subst hxp
      rw [setState_state_self]
      rcases hp with hp | hp
      · simpa [Scheduler.setState, hp] using .inl (by simpa [Scheduler.setState, hp] using hx)
      · exact hp
    rw [setState_state_of_ne _ _ _ hxp]
    exact h.dead x (by simpa [Scheduler.setState, hxp] using hx)

lemma died_setState (s : Scheduler n) (p : Process n) {st : ProcState} (h : st ≠ .zombie) :
    (s.setState p st).died = s.died := by
  have hz : (st == .zombie) = false := by simpa using h
  simp [Scheduler.setState, hz]

/-- What the functions leave alone besides. Signals become pending only for processes in
`D`, and no process begins to wait for a child. -/
structure Traits (D : Process n → Prop) (s s' : Scheduler n) : Prop where
  current : s'.current = s.current
  sleep : s'.sleep = s.sleep
  procs : s'.procs = s.procs
  parent : ∀ p, (s'.info p).parent = (s.info p).parent
  userMode : ∀ p, (s'.info p).userMode = (s.info p).userMode
  timer : ∀ p, (s'.info p).timer = (s.info p).timer
  waiting : ∀ p, (s'.info p).waitpidWaiting = true → (s.info p).waitpidWaiting = true
  pending : ∀ p, (s'.info p).signalPending ≠ 0#32 → (s.info p).signalPending ≠ 0#32 ∨ D p

namespace Traits
variable {D : Process n → Prop}
lemma of_info (hc : s'.current = s.current) (hsl : s'.sleep = s.sleep)
    (hp : s'.procs = s.procs) (hin : s'.info = s.info) : Traits D s s' :=
  ⟨hc, hsl, hp, fun _ => by rw [hin], fun _ => by rw [hin],
    fun _ => by rw [hin], fun _ h => by rwa [hin] at h, fun _ h => .inl (by rwa [hin] at h)⟩

lemma refl (s : Scheduler n) : Traits D s s := of_info rfl rfl rfl rfl

lemma trans (h : Traits D s s') (h' : Traits D s' s'') : Traits D s s'' where
  current := h'.current.trans h.current
  sleep := h'.sleep.trans h.sleep
  procs := h'.procs.trans h.procs
  parent p := (h'.parent p).trans (h.parent p)
  userMode p := (h'.userMode p).trans (h.userMode p)
  timer p := (h'.timer p).trans (h.timer p)
  waiting p hw := h.waiting p (h'.waiting p hw)
  pending p hp := by
    rcases h'.pending p hp with hp' | hp'
    · exact h.pending p hp'
    · exact .inr hp'

/-- The fields that `Traits` speaks about. -/
def fields (i : ProcInfo n) : Option (Process n) × Bool × Itimer × Bool × BitVec 32 :=
  (i.parent, i.userMode, i.timer, i.waitpidWaiting, i.signalPending)

lemma modify (s : Scheduler n) (p : Process n) (f : ProcInfo n → ProcInfo n)
    (hf : ∀ i, fields (f i) = fields i) : Traits D s (s.modify p f) := by
  have hfi : ∀ x, fields ((s.modify p f).info x) = fields (s.info x) := s.modify_field p f fields hf
  simp only [fields, Prod.mk.injEq] at hfi
  exact ⟨rfl, rfl, rfl, fun x => (hfi x).1, fun x => (hfi x).2.1, fun x => (hfi x).2.2.1,
    fun x hx => (hfi x).2.2.2.1 ▸ hx, fun x hx => .inl ((hfi x).2.2.2.2 ▸ hx)⟩

lemma readyQueuePush (s : Scheduler n) (p : Process n) : Traits D s (s.readyQueuePush p) :=
  .trans (modify s p (withPriority (UInt8.ofNat (s.queueOf p))) fun _ => rfl)
    (of_info rfl rfl rfl rfl)

lemma endWait (s : Scheduler n) (p : Process n) : Traits D s (s.modify p .endWait) := by
  refine ⟨rfl, rfl, rfl, s.modify_field p ProcInfo.endWait ProcInfo.parent fun _ => rfl,
    s.modify_field p ProcInfo.endWait ProcInfo.userMode fun _ => rfl,
    s.modify_field p ProcInfo.endWait ProcInfo.timer fun _ => rfl, fun x hx => ?_, fun x hx => ?_⟩
  · by_cases hxp : x = p
    · subst hxp
      simp [ProcInfo.endWait] at hx
    · rwa [modify_info_of_ne _ _ _ hxp] at hx
  have hsa := s.modify_field p ProcInfo.endWait ProcInfo.signalPending (fun _ => rfl) x
  exact .inl (hsa ▸ hx)

lemma clearPending (s : Scheduler n) (p : Process n) (b : BitVec 32) :
    Traits D s (s.modify p (.clearPending b)) := by
  refine ⟨rfl, rfl, rfl, s.modify_field p (ProcInfo.clearPending b) ProcInfo.parent fun _ => rfl,
    s.modify_field p (ProcInfo.clearPending b) ProcInfo.userMode fun _ => rfl,
    s.modify_field p (ProcInfo.clearPending b) ProcInfo.timer fun _ => rfl, fun x hx => ?_,
    fun x hx => ?_⟩
  · have hsa := s.modify_field p (ProcInfo.clearPending b) ProcInfo.waitpidWaiting (fun _ => rfl) x
    exact hsa ▸ hx
  by_cases hxp : x = p
  · subst hxp
    refine .inl fun hz => hx ?_
    rw [modify_info_self, ProcInfo.clearPending, hz, BitVec.zero_and]
  rw [modify_info_of_ne _ _ _ hxp] at hx
  exact .inl hx
end Traits

/-- Nobody dies and nobody is revived. -/
structure Lives (D : Process n → Prop) (s s' : Scheduler n) : Prop where
  settled : s'.Settled
  died : s'.died = s.died
  calm : ∀ now, s.Calm now → s'.Calm now
  traits : Traits D s s'

/-- The parent of the process, if it waits for it, is alive and another process. -/
def ParentAlive (s : Scheduler n) (p : Process n) : Prop :=
  ∀ x, (s.info p).parent = some x → (s.info x).waitpidWaiting = true → s.died x = false ∧ x ≠ p

namespace Lives
variable {D : Process n → Prop}
lemma refl (h : s.Settled) : Lives D s s := ⟨h, rfl, fun _ hc => hc, Traits.refl s⟩

lemma trans (h : Lives D s s') (h' : Lives D s' s'') : Lives D s s'' :=
  ⟨h'.settled, h'.died.trans h.died, fun nw hc => h'.calm nw (h.calm nw hc),
    h.traits.trans h'.traits⟩

variable (h : s.Settled)
include h
lemma of_same (hst : s'.state = s.state) (hdi : s'.died = s.died)
    (hr : s'.revived = s.revived) (hq : s'.queues = s.queues)
    (hdue : ∀ x, s.died x = true → (s'.info x).sleepUntil = (s.info x).sleepUntil)
    (ht : Traits D s s') : Lives D s s' := by
  refine ⟨⟨hr.trans h.revived, ?_⟩, hdi, fun nw hc x hx hnow => ?_, ht⟩
  · rw [hst, hdi]
    exact h.dead
  rw [hq] at hx
  rw [hdi]
  by_contra hde
  rw [hdue x (by simpa using hde)] at hnow
  exact hde (hc x hx hnow)

lemma modify (p : Process n) (f : ProcInfo n → ProcInfo n)
    (hf : ∀ i, Traits.fields (f i) = Traits.fields i := by exact fun _ => rfl)
    (hdue : ∀ i, (f i).sleepUntil = i.sleepUntil := by exact fun _ => rfl) :
    Lives D s (s.modify p f) :=
  of_same h rfl rfl rfl rfl (fun x _ => s.modify_field p f sleepUntil hdue x)
    (Traits.modify s p f hf)

/-- Also the deadline of a process that is alive may be written. -/
lemma modify_alive (hp : s.died p = false) (f : ProcInfo n → ProcInfo n)
    (hf : ∀ i, Traits.fields (f i) = Traits.fields i) : Lives D s (s.modify p f) := by
  refine of_same h rfl rfl rfl rfl (fun x hx => ?_) (Traits.modify s p f hf)
  have hne : x ≠ p := by
    rintro rfl
    exact absurd (hp.symm.trans hx) (by simp)
  rw [modify_info_of_ne _ _ _ hne]

lemma force (b : Bool) : Lives D s { s with force := b } :=
  of_same h rfl rfl rfl rfl (fun _ _ => rfl) (Traits.of_info rfl rfl rfl rfl)

lemma setState (hp : s.died p = false) {st : ProcState} (hst : st ≠ .zombie) :
    Lives D s (s.setState p st) := by
  refine ⟨h.setState (.inl hp), died_setState s p hst, fun nw hc x hx hnow => ?_,
    Traits.of_info rfl rfl rfl rfl⟩
  rw [died_setState s p hst]
  exact hc x hx hnow

lemma readyQueuePush (hp : s.died p = false) : Lives D s (s.readyQueuePush p) := by
  refine ⟨{ h with }, rfl, fun nw hc x hx hnow => ?_, Traits.readyQueuePush s p⟩
  rcases Queues.asleep_of_push hx with hx | rfl
  · rw [s.readyQueuePush_field p sleepUntil (fun _ _ => rfl)] at hnow
    exact hc x hx hnow
  · exact hp

lemma setQueues {qs : Queues n}
    (hq : ∀ x, qs.Asleep x → s.queues.Asleep x) : Lives D s (s.setQueues qs) :=
  ⟨{ h with }, rfl, fun _ hc x hx hnow => hc x (hq x hx) hnow, Traits.of_info rfl rfl rfl rfl⟩

lemma markReady (hp : s.died p = false) (hs : s.markReady p = some s') : Lives D s s' := by
  rw [Scheduler.markReady] at hs
  split_ifs at hs
  · exact some.inj hs ▸ refl h
  obtain ⟨s1, hs1, rfl⟩ := map_eq_some_iff.1 hs
  obtain ⟨qs, hr, rfl⟩ := map_eq_some_iff.1 hs1
  have h1 : Lives D s (s.setQueues qs) := setQueues h fun x hx => Queues.asleep_of_sleepRemove hr hx
  have h2 : Lives D s ((s.setQueues qs).setState p .ready) :=
    h1.trans (setState h1.settled hp (by decide))
  have hp2 : ((s.setQueues qs).setState p .ready).died p = false := by
    rw [h2.died]
    exact hp
  have h3 : Lives D s (((s.setQueues qs).setState p .ready).modify p .madeReady) :=
    h2.trans (modify_alive h2.settled hp2 _ fun _ => rfl)
  have h4 := h3.trans (readyQueuePush (D := D) h3.settled hp2)
  exact h4.trans (force h4.settled true)

lemma wakeParent (hp : s.ParentAlive p) (hs : s.wakeParent p = some s') : Lives D s s' := by
  rw [Scheduler.wakeParent] at hs
  split at hs
  · exact some.inj hs ▸ refl h
  next x hx =>
  split_ifs at hs with hwa
  · have h1 : Lives D s (s.modify x .endWait) :=
      of_same h rfl rfl rfl rfl
        (fun y _ => s.modify_field x endWait sleepUntil (fun _ => rfl) y)
        (Traits.endWait s x)
    exact h1.trans (markReady h1.settled (hp x hx hwa.1).1 hs)
  · exact some.inj hs ▸ refl h

lemma unlink (hs : s.unlink p = some s') : Lives D s s' := by
  rw [Scheduler.unlink] at hs
  split_ifs at hs
  · obtain ⟨qs, hr, rfl⟩ := map_eq_some_iff.1 hs
    exact setQueues h fun x hx => Queues.asleep_of_sleepRemove hr hx
  · obtain ⟨qs, hr, rfl⟩ := map_eq_some_iff.1 hs
    exact setQueues h fun x hx => Queues.asleep_of_readyRemoveFrom hr hx
  · exact some.inj hs ▸ refl h
end Lives

lemma ParentAlive.of_lives {D : Process n → Prop} (h : s.ParentAlive p) (hl : Lives D s s') :
    s'.ParentAlive p := by
  intro x hx hw
  rw [hl.traits.parent] at hx
  rw [hl.died]
  exact h x hx (hl.traits.waiting x hw)

namespace Lives
variable {D : Process n → Prop} (h : s.Settled)
include h
lemma markStopped (hp : s.died p = false) (hpar : s.ParentAlive p) {sg : ℕ}
    (hs : s.markStopped p sg = some s') : Lives D s s' := by
  rw [Scheduler.markStopped] at hs
  split_ifs at hs
  · exact some.inj hs ▸ refl h
  split at hs
  · cases hs
  next s1 hu =>
  obtain ⟨s2, hwa, rfl⟩ := map_eq_some_iff.1 hs
  have h0 : Lives D s (s.modify p (.stoppedBy sg)) := modify h p _
  have h1 : Lives D s s1 := h0.trans (unlink h0.settled hu)
  have hp1 : s1.died p = false := h1.died ▸ hp
  have h2 : Lives D s ((s1.setState p .stopped).modify p .endSlice) := by
    have hst : Lives D s1 (s1.setState p .stopped) := setState h1.settled hp1 (by decide)
    refine h1.trans (hst.trans ?_)
    exact modify (h1.settled.setState (.inl hp1)) p _
  have h3 : Lives D s s2 := h2.trans (wakeParent h2.settled (hpar.of_lives h2) hwa)
  exact h3.trans (force h3.settled true)

lemma markContinued (hpar : s.ParentAlive p) (hs : s.markContinued p = some s') : Lives D s s' := by
  simp only [Scheduler.markContinued] at hs
  have h1 : Lives D s (s.modify p .continued) := modify h p _
  split_ifs at hs with hk hst
  · exact some.inj hs ▸ refl h
  · obtain ⟨s2, hr, hwa⟩ := Option.bind_eq_some_iff.1 hs
    have hp : s.died p = false := h.alive (by
      rw [modify_state] at hst
      rw [hst]
      decide) (by
      rw [modify_state] at hst
      rw [hst]
      decide)
    have h2 : Lives D s s2 := h1.trans (markReady h1.settled hp hr)
    exact h2.trans (wakeParent h2.settled (hpar.of_lives h2) hwa)
  · exact h1.trans (wakeParent h1.settled (hpar.of_lives h1) hs)

lemma signalWake (hs : s.signalWake p = some s') : Lives D s s' := by
  rw [Scheduler.signalWake] at hs
  split_ifs at hs with hse
  · have hp : s.died p = false := by
      rcases hse with hst | hst <;> exact h.alive (by rw [hst]; decide) (by rw [hst]; decide)
    exact markReady h hp hs
  · exact some.inj hs ▸ refl h

lemma signalEnqueue (hD : D p) (sg : ℕ) : Lives D s (s.signalEnqueue p sg) := by
  refine of_same h rfl rfl rfl rfl
    (fun x _ => s.modify_field p (addPending _) sleepUntil (fun _ => rfl) x) ⟨
    rfl, rfl, rfl, s.modify_field p (addPending _) parent fun _ => rfl,
    s.modify_field p (addPending _) userMode fun _ => rfl,
    s.modify_field p (addPending _) timer fun _ => rfl, fun x hx => ?_, fun x hx => ?_⟩
  · have hsa : ((s.signalEnqueue p sg).info x).waitpidWaiting = (s.info x).waitpidWaiting :=
      s.modify_field p (addPending _) waitpidWaiting (fun _ => rfl) x
    exact hsa ▸ hx
  by_cases hxp : x = p
  · exact .inr (hxp ▸ hD)
  rw [Scheduler.signalEnqueue, modify_info_of_ne _ _ _ hxp] at hx
  exact .inl hx

lemma signalPost (hD : D p) {sg : ℕ} (hs : s.signalPost p sg = some s') : Lives D s s' := by
  simp only [Scheduler.signalPost] at hs
  have h1 : Lives D s (s.signalEnqueue p sg) := signalEnqueue h hD sg
  split_ifs at hs
  · exact h1.trans (signalWake h1.settled hs)
  · exact some.inj hs ▸ h1

lemma signalSend (hD : D p) {sg : ℕ} (hs : s.signalSend p sg = some s') : Lives D s s' := by
  simp only [Scheduler.signalSend] at hs
  have h1 : Lives D s (s.modify p .endSignalWait) := modify h p _
  split_ifs at hs
  · exact some.inj hs ▸ refl h
  · exact signalPost h hD hs
  · exact h1.trans (signalWake h1.settled hs)
  · have h2 := h1.trans (signalEnqueue (D := D) h1.settled hD sg)
    exact h2.trans (signalWake h2.settled hs)
  · exact signalPost h hD hs
end Lives

/-! ## Signals that kill -/

/-- Signals are delivered to `p`, which may die of them. -/
structure Judged (D : Process n → Prop) (p : Process n) (s s' : Scheduler n) : Prop where
  settled : s'.Settled
  died : ∀ x, x ≠ p → s'.died x = s.died x
  calm : ∀ now, s.Calm now → ¬ s.queues.Asleep p → s'.Calm now
  traits : Traits D s s'

namespace Judged
variable {D : Process n → Prop}
lemma of_lives (h : Lives D s s') : Judged D p s s' :=
  ⟨h.settled, fun _ _ => by rw [h.died], fun nw hc _ => h.calm nw hc, h.traits⟩

lemma bury (h : s.Settled) (hp : s.ParentAlive p) {st : ℤ}
    (hs : s.bury p st = some s') : Judged D p s s' := by
  obtain ⟨s2, hwa, rfl⟩ := map_eq_some_iff.1 hs
  obtain ⟨s1, hs1⟩ := @exists_eq _ ((s.setState p .zombie).modify p (.exited st))
  rw [← hs1] at hwa
  have hse : (s.setState p .zombie).Settled := h.setState (.inr (.inl rfl))
  have hse1 : s1.Settled := hs1 ▸ { hse with }
  have hdi : ∀ x, x ≠ p → s1.died x = s.died x := by
    intro x hx
    rw [hs1]
    simp [Scheduler.setState, hx]
  have ht : Traits D s s1 := by
    have hz : Traits D s (s.setState p .zombie) := Traits.of_info rfl rfl rfl rfl
    rw [hs1]
    exact hz.trans (Traits.modify _ p (exited st) fun _ => rfl)
  have hp1 : s1.ParentAlive p := by
    intro x hx hw
    rw [ht.parent] at hx
    obtain ⟨ha, hne⟩ := hp x hx (ht.waiting x hw)
    exact ⟨(hdi x hne).trans ha, hne⟩
  have hl : Lives D s1 s2 := Lives.wakeParent hse1 hp1 hwa
  have hf : Lives D s1 { s2 with force := true } := hl.trans (Lives.force hl.settled true)
  refine ⟨hf.settled, fun x hx => ?_, fun nw hc has => hf.calm nw fun x hx hnow => ?_,
    ht.trans hf.traits⟩
  · rw [hf.died]
    exact hdi x hx
  have hx' : s.queues.Asleep x := by
    rw [hs1] at hx
    exact hx
  have hne : x ≠ p := fun he => has (he ▸ hx')
  rw [hs1, modify_info_of_ne _ _ _ hne] at hnow
  rw [hdi x hne]
  exact hc x hx' hnow

lemma deliver (h : s.Settled) (hp : s.died p = false) (hpar : s.ParentAlive p)
    (hcur : s.current = p) {c : Bool} {sg : List ℕ} {d : Delivery}
    (hs : deliver c p sg s = some (d, s')) : Judged D p s s' := by
  induction sg generalizing s with
  | nil => exact (Prod.mk.inj (some.inj hs)).2 ▸ of_lives (Lives.refl h)
  | cons signo sg ih =>
    rw [Scheduler.deliver] at hs
    split_ifs at hs
    · exact ih h hp hpar hcur hs
    obtain ⟨s1, hs1⟩ := @exists_eq _ (s.modify p (.clearPending (sigbit signo)))
    have h1 : Lives D s s1 :=
      hs1 ▸ Lives.of_same h rfl rfl rfl rfl
        (fun x _ => s.modify_field p (clearPending _) sleepUntil
          (fun _ => rfl) x)
        (Traits.clearPending s p _)
    have hp1 : s1.died p = false := h1.died ▸ hp
    have hpa1 := hpar.of_lives h1
    have hc1 := h1.traits.current.trans hcur
    have hq1 : s1.queues = s.queues := hs1 ▸ rfl
    -- what happens after the signal was taken happens from the beginning
    have hl : ∀ {s' : Scheduler n}, Judged D p s1 s' → Judged D p s s' := fun hj =>
      ⟨hj.settled, fun x hx => by rw [hj.died x hx, h1.died],
        fun nw hc ha => hj.calm nw (h1.calm nw hc) (by rwa [hq1]), h1.traits.trans hj.traits⟩
    simp only [← hs1] at hs
    split at hs
    · exact hl (ih h1.settled hp1 hpa1 hc1 hs)
    · obtain ⟨s2, hr, he⟩ := map_eq_some_iff.1 hs
      cases he
      exact hl (of_lives (Lives.markStopped h1.settled hp1 hpa1 hr))
    · obtain ⟨s2, hr, he⟩ := map_eq_some_iff.1 hs
      cases he
      exact hl (of_lives (Lives.markContinued h1.settled hpa1 hr))
    · obtain ⟨s2, hr, he⟩ := map_eq_some_iff.1 hs
      cases he
      rw [exitSignal, exitWithStatus, hc1] at hr
      exact hl (bury h1.settled hpa1 hr)
    · exact (Prod.mk.inj (some.inj hs)).2 ▸ of_lives h1
end Judged

/-! ## Who may die in a switch -/

/-- `D` are the processes that signals may kill. No child in `D` is waited for by a process
that is dead or may die. -/
structure Mortal (D : Process n → Prop) (s : Scheduler n) : Prop where
  settled : s.Settled
  kernel : s.died kernelProcess = false
  deliverable : ∀ p, s.Deliverable p → D p
  parents : ∀ c x, D c → (s.info c).parent = some x → (s.info x).waitpidWaiting = true →
    s.died x = false ∧ ¬ D x

namespace Mortal
variable {D D' : Process n → Prop} (h : s.Mortal D)
include h
lemma parentAlive (hp : D p) : s.ParentAlive p := by
  intro x hx hw
  obtain ⟨ha, hnot⟩ := h.parents p x hp hx hw
  exact ⟨ha, fun he => hnot (he ▸ hp)⟩

lemma of_traits (ht : Traits D' s s')
    (hD : ∀ p, D' p → (s.info p).userMode = true → D p) (hse : s'.Settled)
    (hdi : ∀ x, ¬ D x → s'.died x = s.died x) (hk : s'.died kernelProcess = false) :
    s'.Mortal D where
  settled := hse
  kernel := hk
  deliverable p hp := by
    have hu := hp.1
    rw [ht.userMode] at hu
    rcases ht.pending p hp.2.2 with hpe | hp'
    · exact h.deliverable p ⟨hu, hp.2.1, hpe⟩
    · exact hD p hp' hu
  parents c x hc hx hw := by
    rw [ht.parent] at hx
    obtain ⟨ha, hnot⟩ := h.parents c x hc hx (ht.waiting x hw)
    exact ⟨(hdi x hnot).trans ha, hnot⟩

lemma of_lives (hl : Lives D s s') : s'.Mortal D :=
  h.of_traits hl.traits (fun _ hp _ => hp) hl.settled (fun _ _ => by rw [hl.died])
    (by rw [hl.died]; exact h.kernel)

/-- A process in `D` may have died. -/
lemma of_judged (hp : D p) (hk : p ≠ kernelProcess) (hj : Judged D p s s') : s'.Mortal D := by
  refine h.of_traits hj.traits (fun _ hp _ => hp) hj.settled (fun x hx => ?_) ?_
  · exact hj.died x fun he => hx (he ▸ hp)
  rw [hj.died kernelProcess hk.symm]
  exact h.kernel

lemma of_same (hst : s'.state = s.state) (hin : s'.info = s.info)
    (hdi : s'.died = s.died) (hr : s'.revived = s.revived) : s'.Mortal D := by
  refine ⟨⟨hr.trans h.settled.revived, ?_⟩, ?_, ?_, ?_⟩
  · rw [hst, hdi]
    exact h.settled.dead
  · rw [hdi]
    exact h.kernel
  · simp only [Deliverable, hin]
    exact h.deliverable
  rw [hin, hdi]
  exact h.parents
end Mortal
end Scheduler
end Menios.Proc
