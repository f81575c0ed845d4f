import Menios.Proc.Delivery
import Menios.Proc.QueueRuns

/-!
# Stopped processes and `SIGKILL` and `SIGCONT`

A signal takes effect in two steps: `proc_signal_send` makes it pending and has to see to it
that the process will run, and when `proc_switch` selects the process,
`proc_signal_handle_pending` carries it out.

**Defect.** `proc_signal_send` (`src/kernel/proc/signal.c`, lines 259-303) calls
`proc_mark_ready` for processes that are SLEEPING or WAITING only. A STOPPED process is on no
queue, so that neither `SIGKILL` nor `SIGCONT` ever reaches it. The same holds for a process
that sleeps or waits while the signal is blocked. And when several signals are pending, the
one with the lowest number decides what happens first.

Results:

* `signalSend_result`: what `proc_signal_send` leaves behind.
* `handlePending_outcome`: what happens when it is selected.
* `signals_obeyed_iff`: both together.
* `stopped_stays_stopped`: a process that was stopped and gets `SIGCONT`.
-/

namespace Menios.Proc
open Common Threads ProcInfo Option

namespace ProcInfo
variable {n : ℕ}
/-- `sigwait` or `sigsuspend` waits for the signal (signal.c, lines 279-280). -/
def Awaits (i : ProcInfo n) (signo : ℕ) : Prop :=
  Scheduler.sigbit signo &&& Scheduler.unblockableMask = 0#32 ∧ i.signalWaitActive = true ∧
    i.signalWaitMask &&& Scheduler.sigbit signo ≠ 0#32

instance (i : ProcInfo n) (signo : ℕ) : Decidable (i.Awaits signo) :=
  inferInstanceAs (Decidable (_ ∧ _ ∧ _))

/-- The process is woken by the signal if it sleeps or waits. -/
def Wakes (i : ProcInfo n) (signo : ℕ) : Prop :=
  i.Awaits signo ∨ i.signalBlocked &&& Scheduler.sigbit signo = 0#32

instance (i : ProcInfo n) (signo : ℕ) : Decidable (i.Wakes signo) :=
  inferInstanceAs (Decidable (_ ∨ _))

/-- The fields that `proc_signal_send` writes. -/
def sent (signo : ℕ) (i : ProcInfo n) : ProcInfo n :=
  if i.Awaits signo then
    if i.signalWaitConsume then i.endSignalWait
    else i.endSignalWait.addPending (Scheduler.sigbit signo)
  else i.addPending (Scheduler.sigbit signo)

/-- What `proc_signal_handle_pending` looks at. -/
def signals (i : ProcInfo n) : Bool × BitVec 32 × BitVec 32 × (ℕ → SigAction) :=
  (i.userMode, i.signalPending, i.signalBlocked, i.signalActions)

lemma firstSignal_congr {i j : ProcInfo n} (h : i.signals = j.signals) (l : List ℕ) :
    i.firstSignal l = j.firstSignal l := by
  simp only [signals, Prod.mk.injEq] at h
  refine List.find?_congr fun a _ => ?_
  rw [decide_eq_decide, Effective, Effective, h.2.1, h.2.2.1, h.2.2.2]
end ProcInfo

namespace Scheduler
variable {n : ℕ} {s s' t t₀ : Scheduler n} {p : Process n} {signo : ℕ}
/-! ## Sending -/

lemma signalSend_eq (hb : sigbit signo ≠ 0#32) : s.signalSend p signo =
      if (s.info p).Wakes signo then (s.modify p (.sent signo)).signalWake p
      else some (s.modify p (.sent signo)) := by
  by_cases haw : (s.info p).Awaits signo
  · -- the branch of `sigwait`
    obtain ⟨hu, ha, hma⟩ := haw
    have hse : (s.modify p (.sent signo)).signalWake p =
        (if (s.info p).signalWaitConsume then s.modify p .endSignalWait
          else (s.modify p .endSignalWait).signalEnqueue p signo).signalWake p := by
      rw [modify, sent, if_pos ⟨hu, ha, hma⟩]
      split_ifs
      · rfl
      · rw [signalEnqueue, modify_modify]
        rfl
    have hwa : (s.info p).Wakes signo := .inl ⟨hu, ha, hma⟩
    rw [if_pos hwa, hse, signalSend, if_neg hb, if_neg (by simp [hu]), if_pos ⟨ha, hma⟩]
    simp only [modify_info_self]
    rfl
  have hse : s.modify p (.sent signo) = s.signalEnqueue p signo := by
    rw [modify, sent, if_neg haw]
    rfl
  have hp : s.signalSend p signo = s.signalPost p signo := by
    rw [signalSend, if_neg hb]
    split_ifs with hu hwt
    · rfl
    · exact absurd ⟨not_not.1 hu, hwt⟩ haw
    · rfl
  have hwa : (s.info p).Wakes signo ↔ (s.info p).signalBlocked &&& sigbit signo = 0#32 :=
    ⟨fun h => h.resolve_left haw, .inr⟩
  have hbl : ((s.signalEnqueue p signo).info p).signalBlocked = (s.info p).signalBlocked := by
    rw [signalEnqueue, modify_info_self]
    rfl
  rw [hp, signalPost, hse, hbl]
  simp only [hwa]

lemma markReady_field {β : Type*} {x : Process n} (f : ProcInfo n → β)
    (hr : ∀ i, f i.madeReady = f i) (hp : ∀ i priority, f (i.withPriority priority) = f i)
    (hs : s.markReady p = some s') : f (s'.info x) = f (s.info x) := by
  rw [markReady] at hs
  split_ifs at hs
  · exact some.inj hs ▸ rfl
  obtain ⟨s1, hs1, rfl⟩ := map_eq_some_iff.1 hs
  obtain ⟨q, -, rfl⟩ := map_eq_some_iff.1 hs1
  exact (readyQueuePush_field _ p f hp x).trans (modify_field _ p _ f hr x)

lemma ready_iff_reach (h : s.Good none) :
    (∃ q, Reach s.queues.next (s.queues.readyHead q) p) ↔ s.state p = .ready := by
  obtain ⟨lists, hl, ht⟩ := h
  have hr := ht.ready p
  simp only [ne_eq, reduceCtorEq, not_false_eq_true, and_true] at hr
  rw [← hr]
  refine exists_congr fun q => ?_
  have hls : IsList s.queues.next (s.queues.readyHead q) (lists (some q)) :=
    hl.threaded.list (some q)
  exact hls.reach_iff

/-- The process runs, or it will be made ready. -/
def Runs (s : Scheduler n) (p : Process n) (signo : ℕ) : Prop :=
  s.current = p ∨ s.state p = .ready ∨
    (s.state p = .sleeping ∨ s.state p = .waiting) ∧ (s.info p).Wakes signo

/-- What `proc_signal_send` leaves behind. -/
theorem signalSend_result (h : s.Good none) (hb : sigbit signo ≠ 0#32) :
    ∃ s', s.signalSend p signo = some s' ∧ s'.Good none ∧ s'.current = s.current ∧
      (s'.info p).signals = ((s.info p).sent signo).signals ∧
      (s'.state p = .ready ↔ s.state p = .ready ∨
        (s.state p = .sleeping ∨ s.state p = .waiting) ∧ (s.info p).Wakes signo) := by
  obtain ⟨s', hrun, hgood, hf, -⟩ := signalSend_spec h p signo
  refine ⟨s', hrun, hgood, hf.current, ?_⟩
  obtain ⟨s1, hs1⟩ := @exists_eq _ (s.modify p (.sent signo))
  have hi1 : s1.info p = (s.info p).sent signo := hs1 ▸ modify_info_self ..
  have hst1 : s1.state p = s.state p := hs1 ▸ rfl
  rw [signalSend_eq hb, ← hs1] at hrun
  rw [← hi1, ← hst1]
  split_ifs at hrun with hwa
  · rw [signalWake] at hrun
    split_ifs at hrun with ha
    · refine ⟨markReady_field signals (fun _ => rfl) (fun _ _ => rfl) hrun, ?_⟩
      have hre : s'.state p = .ready :=
        markReady_state hrun (by rcases ha with hst | hst <;> simp [hst])
      exact ⟨fun _ => .inr ⟨ha, hwa⟩, fun _ => hre⟩
    · cases hrun
      exact ⟨rfl, .inl, fun hst => hst.resolve_right fun hr => ha hr.1⟩
  cases hrun
  exact ⟨rfl, .inl, fun hst => hst.resolve_right fun hr => hwa hr.2⟩

/-! ## Being selected -/

/-- `proc_switch` takes the process off its ready queue (lines 618-634). -/
structure Takes (p : Process n) (t₀ t : Scheduler n) : Prop where
  intact : t₀.Intact
  parent : (t₀.info p).parent ≠ some p
  popped : ∃ t₁, t₀.popHighest = some (some p, t₁) ∧ t = { t₁ with current := p }

lemma Takes.selected (h : Takes p t₀ t) :
    t.Good (some p) ∧ t.current = p ∧ t.state p = .ready ∧ t.info = t₀.info := by
  obtain ⟨t1, hp, rfl⟩ := h.popped
  rcases popHighest_spec (intact_iff_good.1 h.intact) with ⟨x, q, hr, hre, hgood⟩ | ⟨hr, -⟩
  · obtain ⟨hx, rfl⟩ := Prod.mk.inj (some.inj (hp.symm.trans hr))
    cases hx
    exact ⟨hgood, rfl, hre, rfl⟩
  · exact absurd (hp.symm.trans hr) (by simp)

/-- The delivery that a verdict leads to. -/
def Verdict.delivery : Verdict → Delivery
  | .ignore => .none
  | .stop => .stopped
  | .resume => .handled
  | .exit => .terminated
  | .handle => .handled

lemma act_delivery {c : Bool} {d : Delivery} (hs : act c p signo s = some (d, s')) :
    d = (verdict c signo ((s.info p).signalActions signo)).delivery := by
  rw [act] at hs
  cases hv : verdict c signo ((s.info p).signalActions signo) with
  | ignore | handle =>
    rw [hv] at hs
    exact (Prod.mk.inj (some.inj hs)).1.symm
  | stop | resume | exit =>
    rw [hv] at hs
    obtain ⟨s1, -, he⟩ := map_eq_some_iff.1 hs
    exact (Prod.mk.inj he).1.symm

/-- The process can run, and its parent can learn that it was continued. -/
def Continued (p : Process n) (d : Delivery) (t' : Scheduler n) : Prop :=
  d = .handled ∧ t'.state p = .ready ∧ (t'.info p).continuedPending = true ∧
    (t'.info p).continueStatus = 0xffff

/-- The process has died and is passed over. -/
def Killed (p : Process n) (d : Delivery) (t' : Scheduler n) : Prop :=
  d = .terminated ∧ t'.state p = .zombie

lemma markContinued_status (hp : p ≠ kernelProcess) (hst : s.state p ≠ .stopped)
    (hs : s.markContinued p = some s') :
    (s'.info p).continuedPending = true ∧ (s'.info p).continueStatus = 0xffff := by
  simp only [markContinued] at hs
  rw [if_neg hp, if_neg (by exact hst), wakeParent] at hs
  have hse : ((s.modify p .continued).info p).continuedPending = true ∧
      ((s.modify p .continued).info p).continueStatus = 0xffff := by
    rw [modify_info_self]
    exact ⟨rfl, rfl⟩
  obtain ⟨s1, hs1⟩ := @exists_eq _ (s.modify p .continued)
  rw [← hs1] at hs hse
  split at hs
  · exact some.inj hs ▸ hse
  next x hx =>
  split_ifs at hs
  · rw [markReady_field continuedPending (fun _ => rfl) (fun _ _ => rfl) hs,
      markReady_field continueStatus (fun _ => rfl) (fun _ _ => rfl) hs,
      s1.modify_field x endWait continuedPending fun _ => rfl,
      s1.modify_field x endWait continueStatus fun _ => rfl]
    exact hse
  · exact some.inj hs ▸ hse

/-- When the process is selected, the first effective signal decides. -/
theorem handlePending_outcome (h : Takes p t₀ t) (hp : p ≠ kernelProcess)
    (hu : (t₀.info p).userMode = true) (c : Bool) : ∃ d t', t.handlePending p c = some (d, t') ∧
      (Killed p d t' ↔ ∃ j, (t₀.info p).firstSignal allSignals = some j ∧
        verdict c j ((t₀.info p).signalActions j) = .exit) ∧
      ((∃ j, (t₀.info p).firstSignal allSignals = some j ∧
        verdict c j ((t₀.info p).signalActions j) = .resume) → Continued p d t') ∧
      (Continued p d t' → (t₀.info p).continuedPending = false →
        ∃ j, (t₀.info p).firstSignal allSignals = some j ∧
          verdict c j ((t₀.info p).signalActions j) = .resume) := by
  obtain ⟨hgood, hc, hre, hin⟩ := h.selected
  rw [← hin]
  obtain ⟨d, t', hr, -, hse, -⟩ := handlePending_selected c hgood hc (hin ▸ h.parent) hre
  refine ⟨d, t', hr, ?_⟩
  obtain ⟨pending, he, -⟩ := handlePending_eq (s := t) c (hin ▸ hu) hp
  rw [he] at hr
  obtain ⟨t1, ht1⟩ := @exists_eq _ (t.modify p (.withPending pending))
  have hr1 : t1.state p ≠ .stopped := by
    rw [ht1, modify_state, hre]
    decide
  have ha : (t1.info p).signalActions = (t.info p).signalActions := by
    rw [ht1, modify_info_self]
    rfl
  have hco : (t1.info p).continuedPending = (t.info p).continuedPending := by
    rw [ht1, modify_info_self]
    rfl
  rw [← ht1] at hr
  cases hf : (t.info p).firstSignal allSignals with
  | none =>
    rw [hf, obey] at hr
    cases hr
    simp [Killed, Continued]
  | some j =>
    rw [hf, obey] at hr
    have hd := act_delivery hr
    rw [ha] at hd
    simp only [Option.some.injEq, exists_eq_left']
    rw [act, ha] at hr
    cases hv : verdict c j ((t.info p).signalActions j) with
    | ignore | stop =>
      rw [hv] at hd
      simp [hd, Killed, Continued, Verdict.delivery]
    | exit =>
      rw [hv] at hd
      subst hd
      cases hse with
      | terminated _ hst => simp [Killed, Continued, hst, Verdict.delivery]
    | handle =>
      rw [hv] at hd hr
      obtain ⟨-, rfl⟩ := Prod.mk.inj (some.inj hr)
      simp only [hd, Killed, Continued, Verdict.delivery, hco]
      simp_all
    | resume =>
      rw [hv] at hd hr
      subst hd
      obtain ⟨t2, hma, ht⟩ := map_eq_some_iff.1 hr
      cases ht
      obtain ⟨hpe, hss⟩ := markContinued_status hp hr1 hma
      cases hse with
      | handled _ hst => simp [Killed, Continued, hst, hpe, hss, Verdict.delivery]

/-! ## The signals are obeyed -/

/-- After `proc_signal_send` the process runs or is on a ready queue, and when it is
selected (no other signal was sent to it in between) the result is as demanded. -/
def Answers (s : Scheduler n) (p : Process n) (signo : ℕ)
    (Result : Delivery → Scheduler n → Prop) : Prop :=
  ∃ s', s.signalSend p signo = some s' ∧
    (s'.current = p ∨ ∃ q, Reach s'.queues.next (s'.queues.readyHead q) p) ∧
    ∀ t₀ t copied, Takes p t₀ t → (t₀.info p).signals = (s'.info p).signals →
      ∃ d t', t.handlePending p copied = some (d, t') ∧ Result d t'

/-- The process alone on the ready queue with the highest priority. -/
def lonely (p : Process n) (i : ProcInfo n) : Scheduler n where
  state x := if x = p then .ready else .running
  info _ := i
  queues :=
    { next := fun _ => none
      readyHead := fun q => if q = Fin.last 4 then some p else none
      readyTail := fun q => if q = Fin.last 4 then some p else none
      sleepHead := none }
  force := false
  sleep := false
  current := kernelProcess
  lastExec := 0
  procs _ := none
  died _ := false
  revived := false

lemma intact_lonely (p : Process n) (i : ProcInfo n) : (lonely p i).Intact := by
  refine ⟨fun o => if o = some (Fin.last 4) then [p] else [], ⟨⟨fun o => ?_, fun o o' a ha ha' => ?_⟩,
    fun q => ?_⟩, fun x => ⟨?_, ?_⟩⟩
  · cases o with
    | none => rfl
    | some q =>
      by_cases hq : q = Fin.last 4
      · subst hq
        exact ⟨rfl, rfl⟩
      · simp only [Option.some.injEq, hq, if_false, lonely, Queues.heads]
        rfl
  · split_ifs at ha ha' with ho ho'
    · exact ho.trans ho'.symm
    · cases ha'
    · cases ha
    · cases ha
  · by_cases hq : q = 4 <;> simp [hq, lonely]
  · by_cases hx : x = p
    · simp [hx, lonely]
    · simp [hx, lonely]
  · by_cases hx : x = p <;> simp [hx, lonely]

lemma takes_lonely {i : ProcInfo n} (hpa : i.parent ≠ some p) : ∃ t, Takes p (lonely p i) t := by
  have hp : (lonely p i).popHighest =
      some (some p, (lonely p i).setQueues ((lonely p i).queues.popReady 4 p)) := by
    rw [popHighest, popFrom, walkLimit, popAtPriority]
    simp [lonely]
  exact ⟨_, intact_lonely p i, hpa, _, hp, rfl⟩

/-- The signal ends the process: default action or no restorer. -/
def Fatal (i : ProcInfo n) (j : ℕ) : Prop :=
  i.signalActions j = .handler false ∨
    i.signalActions j = .default ∧ j ≠ sigstop ∧ j ≠ sigtstp ∧ j ≠ sigcont

lemma fatal_iff (i : ProcInfo n) (j : ℕ) :
    Fatal i j ↔ ∀ copied, verdict copied j (i.signalActions j) = .exit := by
  rw [Bool.forall_bool, Fatal]
  cases i.signalActions j with
  | ignore =>
    simp only [verdict]
    split_ifs <;> simp
  | default =>
    simp only [verdict]
    split_ifs with hst hc
    · rcases hst with rfl | rfl <;> simp
    · simp [hc]
    rw [not_or] at hst
    simp [hst, hc]
  | handler restorer => cases restorer <;> simp [verdict]

lemma always_killed_iff {i : ProcInfo n} (hp : p ≠ kernelProcess) (hu : i.userMode = true)
    (hpa : i.parent ≠ some p) : (∀ t₀ t copied, Takes p t₀ t → (t₀.info p).signals = i.signals →
      ∃ d t', t.handlePending p copied = some (d, t') ∧ Killed p d t') ↔
    ∃ j, i.firstSignal allSignals = some j ∧ Fatal i j := by
  constructor
  · intro ha
    obtain ⟨t, ht⟩ := takes_lonely hpa
    have he : ∀ copied, ∃ j, i.firstSignal allSignals = some j ∧
        verdict copied j (i.signalActions j) = .exit := by
      intro copied
      obtain ⟨d, t', hr, hk⟩ := ha (lonely p i) t copied ht rfl
      obtain ⟨d', t'', hr', hiff, -⟩ := handlePending_outcome ht hp hu copied
      cases hr.symm.trans hr'
      exact hiff.1 hk
    obtain ⟨j, hj, htr⟩ := he true
    obtain ⟨j', hj', hf⟩ := he false
    cases hj.symm.trans hj'
    exact ⟨j, hj, (fatal_iff i j).2 (Bool.forall_bool.2 ⟨hf, htr⟩)⟩
  rintro ⟨j, hj, hft⟩ t₀ t copied ht hsa
  have hs' := hsa
  simp only [signals, Prod.mk.injEq] at hs'
  obtain ⟨d, t', hr, hiff, -⟩ := handlePending_outcome ht hp (hs'.1.trans hu) copied
  refine ⟨d, t', hr, hiff.2 ⟨j, ?_, ?_⟩⟩
  · rw [firstSignal_congr hsa, hj]
  rw [hs'.2.2.2]
  exact (fatal_iff i j).1 hft copied

lemma always_continued_iff {i : ProcInfo n} (hp : p ≠ kernelProcess) (hu : i.userMode = true)
    (hpa : i.parent ≠ some p) (hde : i.signalActions sigcont = .default) :
    (∀ t₀ t copied, Takes p t₀ t → (t₀.info p).signals = i.signals →
      ∃ d t', t.handlePending p copied = some (d, t') ∧ Continued p d t') ↔
    i.firstSignal allSignals = some sigcont := by
  constructor
  · intro ha
    -- the parent may have asked for an earlier status in between
    obtain ⟨i', hi'⟩ : ∃ i', i' = { i with continuedPending := false } := ⟨_, rfl⟩
    have hsa : i'.signals = i.signals := hi' ▸ rfl
    obtain ⟨t, ht⟩ := takes_lonely (p := p) (i := i') (hi' ▸ hpa)
    obtain ⟨d, t', hr, hc⟩ := ha (lonely p i') t true ht hsa
    obtain ⟨d', t'', hr', -, -, hre⟩ :=
      handlePending_outcome ht hp (show i'.userMode = true from hi' ▸ hu) true
    cases hr.symm.trans hr'
    obtain ⟨j, hj, hv⟩ := hre hc (show i'.continuedPending = false from hi' ▸ rfl)
    obtain ⟨-, rfl⟩ := (verdict_resume_iff ..).1 hv
    exact (firstSignal_congr hsa allSignals).symm.trans hj
  intro hf t₀ t copied ht hsa
  have hs' := hsa
  simp only [signals, Prod.mk.injEq] at hs'
  obtain ⟨d, t', hr, -, hre, -⟩ := handlePending_outcome ht hp (hs'.1.trans hu) copied
  refine ⟨d, t', hr, hre ⟨sigcont, ?_, ?_⟩⟩
  · rw [firstSignal_congr hsa, hf]
  rw [hs'.2.2.2, verdict_resume_iff]
  exact ⟨hde, rfl⟩

/-- What a result demands of the state before `proc_signal_send`. -/
lemma answers_iff (h : s.Intact) (hb : sigbit signo ≠ 0#32)
    {Result : Delivery → Scheduler n → Prop} {Cond : Prop}
    (hr : ∀ s' : Scheduler n, (s'.info p).signals = ((s.info p).sent signo).signals →
      ((∀ t₀ t copied, Takes p t₀ t → (t₀.info p).signals = (s'.info p).signals →
        ∃ d t', t.handlePending p copied = some (d, t') ∧ Result d t') ↔ Cond)) :
    s.Answers p signo Result ↔ s.Runs p signo ∧ Cond := by
  obtain ⟨s', hrun, hgood, hc, hsi, hre⟩ := signalSend_result (p := p) (intact_iff_good.1 h) hb
  have hru : (s'.current = p ∨ ∃ q, Reach s'.queues.next (s'.queues.readyHead q) p) ↔
      s.Runs p signo := by
    rw [hc, ready_iff_reach hgood, hre, Runs]
  constructor
  · rintro ⟨s'', hr', hp, hob⟩
    cases hrun.symm.trans hr'
    exact ⟨hru.1 hp, (hr s' hsi).1 hob⟩
  rintro ⟨hp, hco⟩
  exact ⟨s', hrun, hru.2 hp, (hr s' hsi).2 hco⟩

/-- **Signals to stopped and other processes.** `SIGKILL` is obeyed exactly when the process
runs or is made ready and the first effective signal ends it, and `SIGCONT` exactly when
the process runs or is made ready and it is the first effective signal. -/
theorem signals_obeyed_iff (h : s.Intact) (hp : p ≠ kernelProcess)
    (huser : (s.info p).userMode = true) (hparent : (s.info p).parent ≠ some p) :
    (s.Answers p sigkill (Killed p) ↔ s.Runs p sigkill ∧
      ∃ j, ((s.info p).sent sigkill).firstSignal allSignals = some j ∧ Fatal (s.info p) j) ∧
    ((s.info p).signalActions sigcont = .default →
      (s.Answers p sigcont (Continued p) ↔ s.Runs p sigcont ∧
        ((s.info p).sent sigcont).firstSignal allSignals = some sigcont)) := by
  have hse : ∀ signo, ((s.info p).sent signo).userMode = true ∧
      ((s.info p).sent signo).parent ≠ some p ∧
      ((s.info p).sent signo).signalActions = (s.info p).signalActions := by
    intro signo
    rw [sent]
    split_ifs
    · exact ⟨huser, hparent, rfl⟩
    · exact ⟨huser, hparent, rfl⟩
    · exact ⟨huser, hparent, rfl⟩
  constructor
  · obtain ⟨hu', hp', ha⟩ := hse sigkill
    have hf : ∀ j, Fatal ((s.info p).sent sigkill) j ↔ Fatal (s.info p) j := by
      intro j
      rw [Fatal, Fatal, ha]
    simp only [← hf]
    refine answers_iff h (by decide) fun s' hsi => ?_
    rw [hsi]
    exact always_killed_iff hp hu' hp'
  intro hde
  obtain ⟨hu', hp', ha⟩ := hse sigcont
  refine answers_iff h (by decide) fun s' hsi => ?_
  rw [hsi]
  exact always_continued_iff hp hu' hp' (by rw [ha]; exact hde)

/-! ## A process that was stopped -/

/-- A process in user mode that nobody waits for. -/
def userInfo : ProcInfo 1 := { oneProcess.info (Fin.last 1) with userMode := true }

/-- Process 1 is one in user mode. -/
def oneUser (p : Process 1) : ProcInfo 1 :=
  if p = Fin.last 1 then userInfo else (oneProcess.schedulerInitialize 0 0).info p

/-- A ready process obeys both signals. -/
theorem signals_obeyed_ready : (lonely 1 userInfo).Answers 1 sigkill (Killed 1) ∧
      (lonely 1 userInfo).Answers 1 sigcont (Continued 1) := by
  have hp : ((lonely 1 userInfo).info 1).parent ≠ some 1 := by decide
  obtain ⟨hk, hc⟩ := signals_obeyed_iff (intact_lonely 1 userInfo) (by decide) rfl hp
  refine ⟨hk.2 ⟨.inr (.inl rfl), sigkill, ?_, .inr ⟨rfl, ?_⟩⟩, (hc rfl).2 ⟨.inr (.inl rfl), ?_⟩⟩
  · decide +kernel
  · decide
  · decide +kernel

lemma not_answers {Result : Delivery → Scheduler n → Prop} {s' : Scheduler n}
    (hs : s.signalSend p signo = some s') (hc : s'.current ≠ p)
    (he : ∀ q, s'.queues.readyHead q = none) : ¬ s.Answers p signo Result := by
  rintro ⟨s'', hs'', hp, -⟩
  cases hs.symm.trans hs''
  rcases hp with hp | ⟨q, hr⟩
  · exact hc hp
  rw [he q] at hr
  cases hr

/-- Process 1 runs in user mode, gets `SIGSTOP` and is stopped by the next switch. Neither
`SIGCONT` nor `SIGKILL` brings it back on a ready queue. -/
theorem stopped_stays_stopped : ∃ s, (oneProcess.schedulerInitialize 0 0).run
        [.configure oneUser (fun _ => none), .execute 1,
          .procSwitch 1 fun _ => true, .signalSend 1 sigstop, .procSwitch 2 fun _ => true] =
        some s ∧
      s.state 1 = .stopped ∧ ¬ s.Answers 1 sigcont (Continued 1) ∧
      ¬ s.Answers 1 sigkill (Killed 1) := by
  have he : ((oneProcess.schedulerInitialize 0 0).run
      [.configure oneUser (fun _ => none), .execute 1,
        .procSwitch 1 fun _ => true, .signalSend 1 sigstop, .procSwitch 2 fun _ => true]).map
      (fun s => (s.state 1,
        (s.signalSend 1 sigcont).map fun s' =>
          (s'.current, decide (∀ q, s'.queues.readyHead q = none)),
        (s.signalSend 1 sigkill).map fun s' =>
          (s'.current, decide (∀ q, s'.queues.readyHead q = none)))) =
      some (.stopped, some (0, true), some (0, true)) := by
    decide +kernel
  obtain ⟨s, hr, hf⟩ := map_eq_some_iff.1 he
  simp only [Prod.mk.injEq] at hf
  obtain ⟨hst, hc, hk⟩ := hf
  obtain ⟨s1, hs1, hf1⟩ := map_eq_some_iff.1 hc
  obtain ⟨s2, hs2, hf2⟩ := map_eq_some_iff.1 hk
  simp only [Prod.mk.injEq, decide_eq_true_eq] at hf1 hf2
  refine ⟨s, hr, hst, not_answers hs1 ?_ hf1.2, not_answers hs2 ?_ hf2.2⟩
  · rw [hf1.1]
    decide
  rw [hf2.1]
  decide
end Scheduler
end Menios.Proc
