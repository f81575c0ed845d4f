import Menios.Common.Loop
import Menios.Proc.Integrity

/-!
# Process switches and the queues

`proc_switch` (`src/kernel/proc/proc.c`, lines 507-721) keeps the queues if the running
process is where the function expects it (`SwitchSafe`).

Results:

* `wakeSleepers_spec`, `checkItimers_spec`, `popHighest_spec`, `switchAway_spec`: the
  parts of the function.
* `selectNext_spec`: the loop that selects the next process ends. A process turns up in
  it at most once, and once more if a child wakes it (`totalWeight_decrease`).
* `procSwitch_spec`: the whole function.
-/

namespace Menios.Proc
open Common Threads Finset Function

lemma Queues.Linked.first_sleeper {n : ℕ} {p : Process n} {q : Queues n}
    {ls : Option Priority → List (Process n)} (h : q.Linked ls) (hh : q.sleepHead = some p) :
    ∃ l, ls none = p :: l := by
  have hli : IsList q.next q.sleepHead (ls none) := h.threaded.list none
  rw [hh] at hli
  cases hl : ls none with
  | nil =>
    rw [hl] at hli
    cases hli
  | cons b l =>
    rw [hl] at hli
    obtain rfl : p = b := Option.some.inj hli.1
    exact ⟨l, rfl⟩

namespace Scheduler
variable {n : ℕ} {s : Scheduler n} {p : Process n}
/-! ## Sleepers and timers -/

/-- The processes that sleep. -/
def sleepers (s : Scheduler n) : Finset (Process n) :=
  Finset.univ.filter fun p => s.state p = .sleeping

lemma wakeFirst_spec (h : s.Good none) (hh : s.queues.sleepHead = some p) :
    s.state p = .sleeping ∧ (s.wakeFirst p).Good none ∧ Frame s (s.wakeFirst p) := by
  obtain ⟨lists, hli, ht⟩ := h
  obtain ⟨l, hl⟩ := hli.first_sleeper hh
  have hmem : p ∈ lists none := by simp [hl]
  have hsl := ((ht.sleeping p).1 hmem).1
  have hnot : p ∉ l := by
    have hnd := (hli.threaded.list none).nodup
    rw [hl] at hnd
    exact (List.nodup_cons.1 hnd).1
  -- between the two queues it is on none
  have hgood : Good ((s.setQueues (s.queues.popSleeper p)).setState p .waiting) none := by
    refine ⟨_, Queues.popSleeper_spec hli hl, ht.move (fun x hx i => ?_) ?_ ?_ fun x _ => Iff.rfl⟩
    · by_cases hi : i = none
      · subst hi
        simp [hl, hx]
      · rw [update_of_ne hi]
    · have hout : ∀ q, p ∉ lists (some q) := fun q => hli.not_mem (by simp) hmem
      simp [hout]
    · simp [hnot]
  refine ⟨hsl, hgood.push (by simp) (by simp) _ ?_ rfl, ?_⟩
  · simp [wakeFirst, setState]
  refine .trans ?_ (Frame.readyQueuePush _ p)
  refine .trans ?_ (Frame.modify _ p)
  refine .trans ?_ (Frame.setState _ p (by decide))
  exact Frame.setQueues s _

theorem wakeSleepers_spec (nw : UInt64) {f : ℕ} (h : s.Good none) (hfu : s.sleepers.card < f) :
    ∃ s', wakeSleepers nw f s = some s' ∧ s'.Good none ∧ Frame s s' ∧
      ∀ x, s.state x ≠ .sleeping → s'.state x = s.state x := by
  induction f generalizing s with
  | zero => omega
  | succ f ih =>
    rw [wakeSleepers]
    cases hh : s.queues.sleepHead with
    | none => exact ⟨s, rfl, h, Frame.refl s, fun _ _ => rfl⟩
    | some p =>
      simp only []
      split_ifs
      · obtain ⟨hsl, hgood, hf⟩ := wakeFirst_spec h hh
        have hst : ∀ x, x ≠ p → (s.wakeFirst p).state x = s.state x := by
          intro x hx
          simp [wakeFirst, hx]
        -- one sleeper less
        have hle : (s.wakeFirst p).sleepers ⊂ s.sleepers := by
          refine (ssubset_iff_of_subset fun x hx => ?_).2 ⟨p, ?_, ?_⟩
          · simp only [sleepers, mem_filter_univ] at hx ⊢
            exact hf.asleep x hx
          · simp [sleepers, hsl]
          · have hre : (s.wakeFirst p).state p = .ready := by simp [wakeFirst]
            simp [sleepers, hre]
        have := card_lt_card hle
        obtain ⟨s', hr, hg', hf', hsa⟩ := ih hgood (by omega)
        refine ⟨s', hr, hg', hf.trans hf', fun x hx => ?_⟩
        have hxp : x ≠ p := fun he => hx (he ▸ hsl)
        rw [hsa x (by rwa [hst x hxp]), hst x hxp]
      · exact ⟨s, rfl, h, Frame.refl s, fun _ _ => rfl⟩

lemma sleepers_card_lt (s : Scheduler n) : s.sleepers.card < walkLimit n := by
  have hle := card_le_univ s.sleepers
  rw [Fintype.card_fin] at hle
  rw [walkLimit]
  omega

/-- What the timers keep: only sleepers and waiting processes are woken. -/
structure TimerFrame (s s' : Scheduler n) : Prop where
  good : s'.Good none
  frame : Frame s s'
  same : ∀ x, s.state x ≠ .sleeping → s.state x ≠ .waiting → s'.state x = s.state x

lemma checkItimer_spec (nw : UInt64) (h : s.Good none) (sl : Fin 16) :
    ∃ s', checkItimer nw s sl = some s' ∧ TimerFrame s s' := by
  rw [checkItimer]
  cases s.procs sl with
  | none => exact ⟨s, rfl, h, Frame.refl s, fun _ _ _ => rfl⟩
  | some p =>
    simp only []
    split_ifs
    · exact ⟨s, rfl, h, Frame.refl s, fun _ _ _ => rfl⟩
    obtain ⟨s', hr, hgood, hf, hsa⟩ := signalSend_spec h p sigalrm
    rw [hr]
    refine ⟨_, rfl, hgood, hf.trans (Frame.modify s' p), fun x hs hw => ?_⟩
    exact hsa x (.inr ⟨hs, hw⟩)

theorem checkItimers_spec (nw : UInt64) (h : s.Good none) :
    ∃ s', s.checkItimers nw = some s' ∧ TimerFrame s s' := by
  refine foldlM_some (TimerFrame s) _ ⟨h, Frame.refl s, fun _ _ _ => rfl⟩ fun slot s1 h1 => ?_
  obtain ⟨s2, hr, h2⟩ := checkItimer_spec nw h1.good slot
  refine ⟨s2, hr, h2.good, h1.frame.trans h2.frame, fun x hs hw => ?_⟩
  have he := h1.same x hs hw
  rw [h2.same x (by rwa [he]) (by rwa [he]), he]

/-! ## The next process -/

lemma popFrom_spec {ls : Option Priority → List (Process n)} (hln : s.queues.Linked ls)
    (ht : Tracks s.state none ls) (qu : List Priority) :
    (∃ p qs, s.popFrom qu = some (some p, s.setQueues qs) ∧ s.state p = .ready ∧
      (s.setQueues qs).Good (some p)) ∨
    s.popFrom qu = some (none, s) ∧ ∀ q ∈ qu, ls (some q) = [] := by
  induction qu with
  | nil => exact .inr ⟨rfl, by simp⟩
  | cons q qu ih =>
    have hli : IsList s.queues.next (s.queues.readyHead q) (ls (some q)) :=
      hln.threaded.list (some q)
    rw [popFrom, walkLimit, popAtPriority]
    cases hl : ls (some q) with
    | nil =>
      rw [hl] at hli
      have hh : s.queues.readyHead q = none := hli
      rw [hh]
      rcases ih with ⟨p, qs, hr, hre, hgd⟩ | ⟨hr, he⟩
      · exact .inl ⟨p, qs, hr, hre, hgd⟩
      refine .inr ⟨hr, fun q' hq' => ?_⟩
      rcases List.mem_cons.1 hq' with rfl | hq'
      · exact hl
      · exact he q' hq'
    | cons p l =>
      rw [hl] at hli
      have hmem : p ∈ ls (some q) := by simp [hl]
      have hre := ((ht.ready p).1 ⟨q, hmem⟩).1
      have : p ∉ l := (List.nodup_cons.1 hli.nodup).1
      refine .inl ⟨p, s.queues.popReady q p, ?_, hre, ?_⟩
      · simp [hli.1, hre]
      have hst : update s.state p (s.state p) = s.state := update_eq_self _ _
      have hout : ∀ i, p ∉ update ls (some q) l i := by
        intro i
        by_cases hi : i = some q
        · subst hi
          rwa [update_self]
        rw [update_of_ne hi]
        exact hln.not_mem hi hmem
      refine ⟨_, Queues.popReady_spec hln hl, hst ▸ ht.move (fun x hx i => ?_) ?_ ?_ fun x hx => ?_⟩
      · by_cases hi : i = some q
        · subst hi
          simp [hl, hx]
        · rw [update_of_ne hi]
      · simp [hout]
      · have hno := hout none
        rw [update_of_ne (by simp)] at hno ⊢
        simp [hno]
      · simp [Ne.symm hx]

theorem popHighest_spec (h : s.Good none) :
    (∃ p qs, s.popHighest = some (some p, s.setQueues qs) ∧ s.state p = .ready ∧
      (s.setQueues qs).Good (some p)) ∨
    s.popHighest = some (none, s) ∧ ∀ p, s.state p ≠ .ready := by
  obtain ⟨lists, hl, ht⟩ := h
  rcases popFrom_spec hl ht [4, 3, 2, 1, 0] with hp | ⟨hr, he⟩
  · exact .inl hp
  refine .inr ⟨hr, fun p hre => ?_⟩
  obtain ⟨q, hq⟩ := (ht.ready p).2 ⟨hre, by simp⟩
  have ha : q ∈ [(4 : Priority), 3, 2, 1, 0] := by fin_cases q <;> simp
  rw [he q ha] at hq
  simp at hq

/-- What the switches need besides the queues: the kernel process does not sleep, no
process waits, and none is its own parent. -/
structure Sane (s : Scheduler n) : Prop where
  kernel : s.state kernelProcess ≠ .sleeping
  waiting : ∀ p, s.state p ≠ .waiting
  parent : ∀ p, (s.info p).parent ≠ some p

lemma Sane.of_frame {s' : Scheduler n} (h : Sane s) (hf : Frame s s') : Sane s' where
  kernel hs := h.kernel (hf.asleep _ hs)
  waiting p hw := h.waiting p (hf.waits p hw)
  parent p := hf.parent_ne (h.parent p)

/-- The process that was selected can be made the running one. -/
def Selectable (s : Scheduler n) : Prop :=
  s.Good (some s.current) ∨
    s.Good none ∧ s.state s.current ≠ .ready ∧ s.state s.current ≠ .sleeping

lemma Selectable.run (h : s.Selectable) : (s.setState s.current .running).Good none := by
  rcases h with h | ⟨h, hst⟩
  · exact h.setState (.inr rfl) (.inr rfl) (by decide)
  · exact h.setState (.inl rfl) (.inl hst) (by decide)

lemma handlePending_selected (c : Bool) (h : s.Good (some p)) (hcurrent : s.current = p)
    (hpar : (s.info p).parent ≠ some p) (hst : s.state p = .ready) :
    ∃ d s', s.handlePending p c = some (d, s') ∧ Affects s s' p ∧ Selected s' p d ∧
      (p = kernelProcess → d = .none) := by
  rw [handlePending]
  split_ifs with hmo hpe
  · exact ⟨.none, s, rfl, Affects.refl s p, .none h hst, fun _ => rfl⟩
  · exact ⟨.none, s, rfl, Affects.refl s p, .none h hst, fun _ => rfl⟩
  have hp : p ≠ kernelProcess := fun he => hmo (.inr he)
  obtain ⟨d, s', hr, ha, hse⟩ := deliver_selected c hp (List.range' 1 31) h hcurrent hpar hst
  exact ⟨d, s', hr, ha, hse, fun he => absurd he hp⟩

/-- The sum of the weights; it bounds the rounds of the loop in `proc_switch`. -/
def totalWeight (s : Scheduler n) : ℕ := ∑ p, s.weight p

lemma totalWeight_lt (s : Scheduler n) : s.totalWeight < walkLimit n := by
  have hle : s.totalWeight ≤ ∑ _p : Process n, 2 := by
    refine sum_le_sum fun p _ => ?_
    rw [weight]
    split_ifs <;> omega
  rw [sum_const, card_univ, Fintype.card_fin, nsmul_eq_mul, Nat.cast_id] at hle
  rw [walkLimit]
  omega

/-- A process that dies or stops does not turn up again. -/
theorem totalWeight_decrease {s' : Scheduler n} (h : Affects s s' p) (hr : s.state p = .ready)
    (hnot : s'.state p ≠ .ready) : s'.totalWeight < s.totalWeight := by
  have hp : s'.weight p < s.weight p := by
    simp only [weight, hr, hnot, h.waiting, if_true, if_false]
    omega
  refine sum_lt_sum (fun x _ => ?_) ⟨p, mem_univ p, hp⟩
  by_cases hx : x = p
  · exact hx ▸ hp.le
  · exact h.weight x hx

theorem selectNext_spec (c : ℕ → Bool) {f : ℕ} (h : s.Good none) (hsa : s.Sane)
    (hf : s.totalWeight < f) : ∃ s', selectNext c f s = some s' ∧ s'.Selectable ∧ s'.Sane := by
  induction f generalizing s with
  | zero => omega
  | succ f ih =>
    rw [selectNext]
    rcases popHighest_spec h with ⟨p, q, hpop, hre, hgood⟩ | ⟨hpop, hno⟩
    · obtain ⟨s1, hs1⟩ : ∃ s1, s1 = { s.setQueues q with current := p } := ⟨_, rfl⟩
      have hg1 : s1.Good (some p) := hs1 ▸ hgood
      have hc1 : s1.current = p := hs1 ▸ rfl
      have hr1 : s1.state p = .ready := hs1 ▸ hre
      have hsa1 : s1.Sane := hs1 ▸ { hsa with }
      have : s1.totalWeight = s.totalWeight := hs1 ▸ rfl
      obtain ⟨d, s2, hr, ha, hse, hk⟩ := handlePending_selected (c f) hg1 hc1 (hsa1.parent p) hr1
      have hc2 : s2.current = p := ha.frame.current.trans hc1
      have hs2 := hsa1.of_frame ha.frame
      -- the next round, for a process that died or stopped
      have hag : s2.Good none → s2.state p ≠ .ready →
          ∃ s', selectNext c f s2 = some s' ∧ s'.Selectable ∧ s'.Sane := by
        intro hg2 hnot
        have := totalWeight_decrease ha hr1 hnot
        exact ih hg2 hs2 (by omega)
      have hab : s2.Good (some p) → s2.Selectable := fun hg2 => .inl (hc2 ▸ hg2)
      rw [hpop]
      simp only [Option.getD_some, ← hs1, hr, hc2]
      cases hse with
      | stopped hg2 hst =>
        have hp : p ≠ kernelProcess := fun he => absurd (hk he) (by decide)
        rw [if_pos ⟨.inl rfl, hp⟩, if_neg (by simp)]
        exact hag hg2 (by simp [hst])
      | terminated hg2 hst =>
        have hp : p ≠ kernelProcess := fun he => absurd (hk he) (by decide)
        rw [if_pos ⟨.inr rfl, hp⟩, if_neg (by simp [hst])]
        exact hag hg2 (by simp [hst])
      | none hg2 hst =>
        simp only [hst]
        exact ⟨s2, rfl, hab hg2, hs2⟩
      | handled hg2 hst =>
        simp only [hst]
        exact ⟨s2, rfl, hab hg2, hs2⟩
    rw [hpop]
    -- the kernel process has no signals
    have hid : ∀ s' : Scheduler n, s'.handlePending kernelProcess (c f) =
        some (.none, s') := fun s' => if_pos (.inr rfl)
    simp only [Option.getD_none, hid]
    refine ⟨{ s with current := kernelProcess }, by simp, .inr ⟨h, hno _, hsa.kernel⟩, { hsa with }⟩

/-! ## A whole switch -/

lemma handlePending_running (c : Bool) (h : s.Good none) (hcurrent : s.current = p)
    (hp : (s.info p).parent ≠ some p)
    (hst : s.state p = .ready ∨ s.state p = .sleeping → ¬ s.Deliverable p) :
    ∃ d s', s.handlePending p c = some (d, s') ∧ s'.Good none ∧ Frame s s' ∧
      (s.state p ≠ .ready → (s.state p = .stopped → ¬ s.Deliverable p) → s'.state p ≠ .ready) := by
  by_cases hde : s.Deliverable p
  · have hq : s.state p ≠ .ready ∧ s.state p ≠ .sleeping :=
      ⟨fun he => hst (.inl he) hde, fun he => hst (.inr he) hde⟩
    obtain ⟨d, s', hr, hgood, hf, hre⟩ :=
      deliver_running c hde.2.1 (List.range' 1 31) h hcurrent hp hq
    rw [handlePending_of_deliverable hde]
    exact ⟨d, s', hr, hgood, hf, fun _ hsp => hre fun he => hsp he hde⟩
  · exact ⟨.none, s, handlePending_of_not_deliverable hde c, h, Frame.refl s, fun hne _ => hne⟩

/-- When `proc_switch` keeps the queues: no signal is delivered to a process that is on a
queue while it runs; and if a sleep was requested, the process that will sleep is
not the kernel process, is on no queue and is not continued by a signal. -/
structure SwitchSafe (s : Scheduler n) : Prop where
  signals : s.state s.current = .ready ∨ s.state s.current = .sleeping → ¬ s.Deliverable s.current
  kernel : s.sleep = true → s.current ≠ kernelProcess
  queued : s.sleep = true → s.state s.current ≠ .ready ∧ s.state s.current ≠ .sleeping
  stopped : s.sleep = true → s.state s.current = .stopped → ¬ s.Deliverable s.current

lemma switchEvents_spec (nw : UInt64) (c : Bool) (h : s.Good none) (hsn : s.Sane)
    (hsa : s.SwitchSafe) : ∃ s', s.switchEvents nw c = some s' ∧ s'.Good none ∧ Frame s s' ∧
      (s.sleep = true → s'.state s.current ≠ .ready) := by
  obtain ⟨d, s1, hr1, hg1, hf1, hre1⟩ :=
    handlePending_running c h rfl (hsn.parent s.current) hsa.signals
  obtain ⟨s2, hr2, hg2, hf2, hs2⟩ := wakeSleepers_spec nw hg1 s1.sleepers_card_lt
  obtain ⟨s3, hr3, hg3, hf3, hs3⟩ := checkItimers_spec nw hg2
  have hsn2 := (hsn.of_frame hf1).of_frame hf2
  simp only [switchEvents, hr1, hr2]
  refine ⟨s3, hr3, hg3, hf1.trans (hf2.trans hf3), fun hsl => ?_⟩
  -- neither the sleepers nor the timers make the running process ready
  have ha : s.state s.current ≠ .sleeping := (hsa.queued hsl).2
  have ha1 : s1.state s.current ≠ .sleeping := fun he => ha (hf1.asleep _ he)
  have ha2 : s2.state s.current ≠ .sleeping := fun he => ha1 (hf2.asleep _ he)
  rw [hs3 _ ha2 (hsn2.waiting _), hs2 _ ha1]
  exact hre1 (hsa.queued hsl).1 (hsa.stopped hsl)

lemma sleepEnqueue_spec (h : s.Good none) (hp : s.state p ≠ .ready ∧ s.state p ≠ .sleeping) :
    ∃ q, (s.setState p .sleeping).sleepEnqueue p = some ((s.setState p .sleeping).setQueues q) ∧
      ((s.setState p .sleeping).setQueues q).Good none := by
  obtain ⟨lists, hli, ht⟩ := h
  have hnot := ht.not_mem (.inl hp)
  obtain ⟨q, l1, l2, hin, hl, hl'⟩ := Queues.sleepInsert_spec hli
    (fun p => (s.info p).sleepUntil) hnot
  refine ⟨q, ?_, _, hl', ht.move (fun x hx i => ?_) ?_ ?_ fun x _ => Iff.rfl⟩
  · rw [sleepEnqueue, setState_queues, setState_info, hin]
    rfl
  · by_cases hi : i = none
    · subst hi
      simp [hl, hx]
    · rw [update_of_ne hi]
  · simp [hnot]
  · simp

theorem switchAway_spec (t : Bool) (h : s.Good none) (hsa : s.Sane)
    (hk : t = true → s.current ≠ kernelProcess)
    (hq : t = true → s.state s.current ≠ .ready ∧ s.state s.current ≠ .sleeping) :
    ∃ s', s.switchAway t = some s' ∧ s'.Good none ∧ s'.Sane := by
  simp only [switchAway]
  split_ifs with hsl ht hru hcurrent
  · obtain ⟨q, hr, hgood⟩ := sleepEnqueue_spec h (hq hsl)
    refine ⟨_, hr, hgood, ?_, fun p => ?_, hsa.parent⟩
    · rw [setQueues_state, setState_state_of_ne _ _ _ (hk hsl).symm]
      exact hsa.kernel
    · rw [setQueues_state]
      by_cases hp : p = s.current
      · simp [hp]
      · rw [setState_state_of_ne _ _ _ hp]
        exact hsa.waiting p
  · refine ⟨_, rfl, ?_⟩
    rw [cleanupProcess, tableRemove]
    split_ifs
    · exact ⟨h, hsa⟩
    · split
      · exact ⟨h, hsa⟩
      · exact ⟨h, hsa.kernel, hsa.waiting, hsa.parent⟩
  · refine ⟨_, rfl, h.push (by simp) (by simp [hru]) _ rfl rfl, hsa.of_frame ?_⟩
    refine .trans ?_ (Frame.readyQueuePush _ _)
    refine .trans ?_ (Frame.modify _ _)
    exact Frame.setState s _ (by decide)
  · exact ⟨_, rfl, h, hsa.of_frame (Frame.modify s _)⟩
  · exact ⟨s, rfl, h, hsa⟩

lemma switchTo_spec (t : Bool) (c : ℕ → Bool) (h : s.Good none) (hsa : s.Sane)
    (hk : t = true → s.current ≠ kernelProcess)
    (hq : t = true → s.state s.current ≠ .ready ∧ s.state s.current ≠ .sleeping) :
    ∃ s', s.switchTo t c = some s' ∧ s'.Good none ∧ s'.Sane := by
  obtain ⟨s1, hr1, hg1, hs1⟩ := switchAway_spec t h hsa hk hq
  obtain ⟨s2, hr2, hab, hs2⟩ := selectNext_spec c hg1 hs1 s1.totalWeight_lt
  rw [switchTo, hr1]
  simp only [hr2]
  refine ⟨_, rfl, hab.run, hs2.of_frame ?_⟩
  refine .trans ?_ (Frame.modify _ _)
  exact Frame.setState s2 _ (by decide)

lemma account_frame (s : Scheduler n) (d : UInt64) :
    Frame s (s.account d) ∧ (s.account d).state = s.state ∧ (s.account d).queues = s.queues := by
  rw [account]
  split_ifs
  · exact ⟨Frame.modify s _, rfl, rfl⟩
  · exact ⟨Frame.refl s, rfl, rfl⟩

lemma reschedule_spec (f t : Bool) (c : ℕ → Bool) (h : s.Good none)
    (hsa : s.Sane) (hk : t = true → s.current ≠ kernelProcess)
    (hq : t = true → s.state s.current ≠ .ready ∧ s.state s.current ≠ .sleeping) :
    ∃ s', s.reschedule f t c = some s' ∧ s'.Good none ∧ s'.Sane := by
  rw [reschedule]
  split_ifs
  · exact ⟨s, rfl, h, hsa⟩
  · exact switchTo_spec t c h hsa hk hq

theorem procSwitch_spec (nw : UInt64) (c : ℕ → Bool) (h : s.Good none) (hsn : s.Sane)
    (hsa : s.SwitchSafe) : ∃ s', s.procSwitch nw c = some s' ∧ s'.Good none ∧ s'.Sane := by
  obtain ⟨s1, hr1, hg1, hf1, hre1⟩ :=
    switchEvents_spec (s := { s with lastExec := nw }) nw (c (walkLimit n)) h
      { hsn with }
      { hsa with }
  have hsa1 : s1.Sane := Sane.of_frame (s := { s with lastExec := nw }) { hsn with } hf1
  have hs1 : s1.sleep = s.sleep := hf1.sleep
  simp only [procSwitch, hr1]
  generalize (nw - if s.lastExec = 0 then nw else s.lastExec) = diff
  obtain ⟨ha, hst, hq⟩ := account_frame s1.clearActions diff
  have hg2 : (s1.clearActions.account diff).Good none := by
    rw [Good, hst, hq]
    exact hg1
  have hs2 : (s1.clearActions.account diff).Sane := Sane.of_frame (s := s1.clearActions)
    { hsa1 with } ha
  have hcurrent : (s1.clearActions.account diff).current = s.current := ha.current.trans hf1.current
  refine reschedule_spec s1.force s1.sleep c hg2 hs2 (fun hsl => ?_) fun hsl => ?_
  · rw [hcurrent]
    exact hsa.kernel (hs1 ▸ hsl)
  rw [hcurrent, hst]
  have hs0 : s.sleep = true := hs1 ▸ hsl
  exact ⟨hre1 hs0, fun he => (hsa.queued hs0).2 (hf1.asleep _ he)⟩
end Scheduler
end Menios.Proc
