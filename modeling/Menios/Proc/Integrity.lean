import Menios.Proc.Queues

/-!
# Queues and states

What the functions of `src/kernel/proc/proc.c` and `signal.c` that change the state of a
process do to the queues. `Good s out` says that the members of the queues are the READY
and the SLEEPING processes, apart from `out`, a process that was taken off its queue and
not yet put anywhere.

Results: one lemma for each function. It returns, its result is `Good` again, and
`Frame` and `Affects` say what it leaves alone.
-/

namespace Menios.Proc
open Common Threads Function

namespace Scheduler
variable {n : ℕ}
/-! ## States and lists -/

/-- A process is on a ready queue exactly when it is ready, and on the sleep queue exactly
when it sleeps; `out` is on no queue. -/
structure Tracks (state : Process n → ProcState) (out : Option (Process n))
    (lists : Option Priority → List (Process n)) : Prop where
  ready : ∀ p, (∃ q, p ∈ lists (some q)) ↔ state p = .ready ∧ out ≠ some p
  sleeping : ∀ p, p ∈ lists none ↔ state p = .sleeping ∧ out ≠ some p

namespace Tracks
variable {s : Process n → ProcState} {o o' : Option (Process n)}
  {l l' : Option Priority → List (Process n)} {p : Process n} {st : ProcState}
lemma not_mem (h : Tracks s o l)
    (hp : s p ≠ .ready ∧ s p ≠ .sleeping ∨ o = some p) (i : Option Priority) : p ∉ l i := by
  intro hmem
  cases i with
  | none =>
    have := (h.sleeping p).1 hmem
    rcases hp with hp | hp
    · exact hp.2 this.1
    · exact this.2 hp
  | some q =>
    have := (h.ready p).1 ⟨q, hmem⟩
    rcases hp with hp | hp
    · exact hp.1 this.1
    · exact this.2 hp

lemma move (h : Tracks s o l) (hmem : ∀ x, x ≠ p → ∀ i, x ∈ l' i ↔ x ∈ l i)
    (hr : (∃ q, p ∈ l' (some q)) ↔ st = .ready ∧ o' ≠ some p)
    (hsl : p ∈ l' none ↔ st = .sleeping ∧ o' ≠ some p)
    (hout : ∀ x, x ≠ p → (o' ≠ some x ↔ o ≠ some x)) : Tracks (update s p st) o' l' where
  ready x := by
    by_cases hx : x = p
    · subst hx
      rw [update_self]
      exact hr
    rw [update_of_ne hx, hout x hx, ← h.ready x]
    exact exists_congr fun q => hmem x hx (some q)
  sleeping x := by
    by_cases hx : x = p
    · subst hx
      rw [update_self]
      exact hsl
    rw [update_of_ne hx, hout x hx, ← h.sleeping x]
    exact hmem x hx none
end Tracks

/-- The queues are lists that fit the states. -/
def Good (s : Scheduler n) (out : Option (Process n)) : Prop :=
  ∃ lists, s.queues.Linked lists ∧ Tracks s.state out lists

section
variable {s : Scheduler n} {ot : Option (Process n)} {p : Process n}
lemma Good.setState (h : s.Good ot) (hout : ot = none ∨ ot = some p)
    (hp : s.state p ≠ .ready ∧ s.state p ≠ .sleeping ∨ ot = some p) {st : ProcState}
    (hst : st ≠ .ready ∧ st ≠ .sleeping) : (s.setState p st).Good none := by
  obtain ⟨lists, hl, ht⟩ := h
  have hnot := ht.not_mem hp
  refine ⟨lists, hl, ht.move (fun x _ i => Iff.rfl) ?_ ?_ fun x hx => ?_⟩
  · simp [hnot, hst.1]
  · simp [hnot, hst.2]
  rcases hout with rfl | rfl
  · simp
  · simp [Ne.symm hx]

lemma Good.push (h : s.Good ot) (hout : ot ≠ some p)
    (hp : s.state p ≠ .ready ∧ s.state p ≠ .sleeping) (q : Priority) {s' : Scheduler n}
    (hst : s'.state = update s.state p .ready)
    (hq : s'.queues = s.queues.push q p) : s'.Good ot := by
  obtain ⟨lists, hl, ht⟩ := h
  have hnot := ht.not_mem (.inl hp)
  refine ⟨_, hq ▸ Queues.push_spec hl q hnot, hst ▸ ht.move (fun x hx i => ?_)
    ?_ ?_ fun x _ => Iff.rfl⟩
  · by_cases hi : i = some q
    · subst hi
      simp [hx]
    · rw [update_of_ne hi]
  · refine ⟨fun _ => ⟨rfl, hout⟩, fun _ => ⟨q, ?_⟩⟩
    rw [update_self]
    simp
  rw [update_of_ne (by simp)]
  simp [hnot]
end

/-! ## What stays -/

/-- Fields that most functions leave alone; only `proc_switch` puts a process to sleep,
and none of them writes the state WAITING. -/
structure Frame (s s' : Scheduler n) : Prop where
  current : s'.current = s.current
  sleep : s'.sleep = s.sleep
  parent : ∀ p, (s'.info p).parent = (s.info p).parent
  asleep : ∀ p, s'.state p = .sleeping → s.state p = .sleeping
  waits : ∀ p, s'.state p = .waiting → s.state p = .waiting

namespace Frame
variable {s s' s'' : Scheduler n}
section
variable (s : Scheduler n)
lemma refl : Frame s s := ⟨rfl, rfl, fun _ => rfl, fun _ h => h, fun _ h => h⟩

variable {s} in
lemma trans (h : Frame s s') (h' : Frame s' s'') : Frame s s'' :=
  ⟨h'.current.trans h.current, h'.sleep.trans h.sleep,
    fun p => (h'.parent p).trans (h.parent p), fun p hp => h.asleep p (h'.asleep p hp),
    fun p hp => h.waits p (h'.waits p hp)⟩

lemma modify (p : Process n) {f : ProcInfo n → ProcInfo n}
    (hp : ∀ i, (f i).parent = i.parent := by exact fun _ => rfl) : Frame s (s.modify p f) :=
  ⟨rfl, rfl, s.modify_field p f ProcInfo.parent hp, fun _ h => h, fun _ h => h⟩

lemma setState (p : Process n) {st : ProcState}
    (h : st ≠ .sleeping ∧ st ≠ .waiting) : Frame s (s.setState p st) := by
  -- the other processes keep their state
  have hold : ∀ x st', st' ≠ st → (s.setState p st).state x = st' → s.state x = st' := by
    intro x st' hst hx
    by_cases he : x = p
    · subst he
      rw [setState_state_self] at hx
      exact absurd hx.symm hst
    · rwa [setState_state_of_ne _ _ _ he] at hx
  exact ⟨rfl, rfl, fun _ => rfl, fun x => hold x _ h.1.symm, fun x => hold x _ h.2.symm⟩

lemma setQueues (q : Queues n) : Frame s (s.setQueues q) :=
  ⟨rfl, rfl, fun _ => rfl, fun _ h => h, fun _ h => h⟩

lemma force (b : Bool) : Frame s { s with force := b } :=
  ⟨rfl, rfl, fun _ => rfl, fun _ h => h, fun _ h => h⟩

lemma readyQueuePush (p : Process n) : Frame s (s.readyQueuePush p) := by
  refine .trans ?_ (setQueues _ _)
  exact modify s p
end

lemma parent_ne {p : Process n} (h : Frame s s') (hp : (s.info p).parent ≠ some p) :
    (s'.info p).parent ≠ some p := by
  rw [h.parent]
  exact hp
end Frame

/-- How often a process can still turn up in the loop of `proc_switch`: once if it is
ready, and once more if a child can wake it. -/
def weight (s : Scheduler n) (p : Process n) : ℕ :=
  (if s.state p = .ready then 1 else 0) + if (s.info p).waitpidWaiting then 1 else 0

/-! ## One lemma for each function -/
section
variable {s : Scheduler n} {ou : Option (Process n)} {p : Process n}
lemma markReady_state {s' : Scheduler n} (hs : s.markReady p = some s')
    (hp : s.state p ≠ .terminated) : s'.state p = .ready := by
  rw [markReady] at hs
  split_ifs at hs with hst
  · exact Option.some.inj hs ▸ hst.resolve_left hp
  obtain ⟨s1, -, rfl⟩ := Option.map_eq_some_iff.1 hs
  exact setState_state_self ..

lemma markReady_spec (h : s.Good ou) (hout : ou ≠ some p) :
    ∃ s', s.markReady p = some s' ∧ s'.Good ou ∧ Frame s s' ∧
      (∀ x, x ≠ p → s'.state x = s.state x) ∧
      (∀ x, (s'.info x).waitpidWaiting = (s.info x).waitpidWaiting) := by
  rw [markReady]
  split_ifs with hsk
  · exact ⟨s, rfl, h, Frame.refl s, fun _ _ => rfl, fun _ => rfl⟩
  rw [not_or] at hsk
  obtain ⟨lists, hl, ht⟩ := h
  obtain ⟨qs, hr, hl'⟩ := Queues.sleepRemove_spec hl p
  -- the process leaves the sleep queue first, if it is on it
  have hnd := (hl.threaded.list none).nodup
  have hgood : Good ((s.setQueues qs).setState p .waiting) ou := by
    refine ⟨_, hl', ht.move (fun x hx i => ?_) ?_ ?_ fun x _ => Iff.rfl⟩
    · by_cases hi : i = none
      · subst hi
        rw [update_self, List.mem_erase_of_ne hx]
      · rw [update_of_ne hi]
    · constructor
      · rintro ⟨q, hq⟩
        rw [update_of_ne (by simp)] at hq
        exact absurd ((ht.ready p).1 ⟨q, hq⟩).1 hsk.2
      · rintro ⟨hst, -⟩
        cases hst
    rw [update_self]
    exact ⟨fun hmem => absurd hmem hnd.not_mem_erase, fun hst => absurd hst.1 (by decide)⟩
  rw [sleepQueueRemove, hr]
  refine ⟨_, rfl, ?_, ?_, fun x hx => ?_, fun x => ?_⟩
  · refine hgood.push hout ?_ _ ?_ rfl
    · rw [setState_state_self]
      decide
    · simp [setState]
  · refine .trans ?_ (Frame.force _ true)
    refine .trans ?_ (Frame.readyQueuePush _ p)
    refine .trans ?_ (Frame.modify _ p)
    refine .trans ?_ (Frame.setState _ p (by decide))
    exact Frame.setQueues s qs
  · simp [hx]
  refine (readyQueuePush_field _ p ProcInfo.waitpidWaiting (fun _ _ => rfl) x).trans ?_
  exact modify_field _ p ProcInfo.madeReady ProcInfo.waitpidWaiting (fun _ => rfl) x

lemma wakeParent_spec (h : s.Good ou) (hout : ∀ x, (s.info p).parent = some x → ou ≠ some x) :
    ∃ s', s.wakeParent p = some s' ∧ s'.Good ou ∧ Frame s s' ∧
      (∀ x, (s.info p).parent ≠ some x → s'.state x = s.state x ∧
        (s'.info x).waitpidWaiting = (s.info x).waitpidWaiting) ∧
      ∀ x, s'.weight x ≤ s.weight x := by
  rw [wakeParent]
  cases hp : (s.info p).parent with
  | none => exact ⟨s, rfl, h, Frame.refl s, fun _ _ => ⟨rfl, rfl⟩, fun _ => le_rfl⟩
  | some parent =>
    simp only []
    split_ifs with hwt
    · obtain ⟨s', hr, hgood, hf, hst, hwa⟩ :=
        markReady_spec (s := s.modify parent .endWait) h (hout parent hp)
      have hf1 : Frame s (s.modify parent .endWait) := Frame.modify s parent
      refine ⟨s', hr, hgood, hf1.trans hf, fun x hx => ?_, fun x => ?_⟩
      · have hne : x ≠ parent := fun he => hx (by rw [he])
        exact ⟨hst x hne, by simp [hwa x, hne]⟩
      · by_cases hne : x = parent
        · subst hne
          have hoff : (s'.info x).waitpidWaiting = false := by simp [hwa x, ProcInfo.endWait]
          have : s'.weight x ≤ 1 := by
            simp only [weight, hoff]
            split_ifs <;> simp_all
          have : 1 ≤ s.weight x := by simp [weight, hwt.1]
          omega
        · simp [weight, hst x hne, hwa x, hne]
    · exact ⟨s, rfl, h, Frame.refl s, fun _ _ => ⟨rfl, rfl⟩, fun _ => le_rfl⟩

/-- A change to one process, whose parent may be woken. -/
structure Affects (s s' : Scheduler n) (p : Process n) : Prop where
  frame : Frame s s'
  weight : ∀ x, x ≠ p → s'.weight x ≤ s.weight x
  waiting : (s'.info p).waitpidWaiting = (s.info p).waitpidWaiting

lemma Affects.refl (s : Scheduler n) (p : Process n) : Affects s s p :=
  ⟨Frame.refl s, fun _ _ => le_rfl, rfl⟩

lemma Affects.trans {s1 : Scheduler n} (h : Affects s s1 p) (h1 : Affects s1 s' p) : Affects s s' p :=
  ⟨h.frame.trans h1.frame, fun x hx => (h1.weight x hx).trans (h.weight x hx),
    h1.waiting.trans h.waiting⟩

lemma affects_wakeParent {s1 : Scheduler n} (hgood : s1.Good ou) (hf : Frame s s1)
    (hot : ∀ x, x ≠ p → s1.state x = s.state x)
    (hwa : ∀ x, (s1.info x).waitpidWaiting = (s.info x).waitpidWaiting)
    (hp : (s.info p).parent ≠ some p) (hout : ou = none ∨ ou = some p) :
    ∃ s', s1.wakeParent p = some s' ∧ s'.Good ou ∧ Affects s s' p ∧ s'.state p = s1.state p := by
  have hp1 := hf.parent_ne hp
  obtain ⟨s', hr, hg', hf', hsa, hwe⟩ := wakeParent_spec (p := p) hgood (by
    rintro x hx he
    rcases hout with rfl | rfl
    · simp at he
    · exact hp1 (hx.trans he.symm))
  refine ⟨s', hr, hg', ⟨hf.trans hf', fun x hx => ?_, ?_⟩, ?_⟩
  · have hle := hwe x
    simp only [weight, hot x hx, hwa x] at hle ⊢
    exact hle
  · rw [(hsa p hp1).2, hwa p]
  · exact (hsa p hp1).1

section
variable (h : s.Good ou)
include h
/-- The process is taken off the queue it is on (lines 1193-1197). -/
lemma unlink_spec (hout : ou = none ∨ ou = some p) : ∃ qs, s.unlink p = some (s.setQueues qs) ∧
      ((s.setQueues qs).setState p .stopped).Good none := by
  rw [unlink]
  obtain ⟨lists, hl, ht⟩ := h
  have hou : ∀ x, x ≠ p → ((none : Option (Process n)) ≠ some x ↔ ou ≠ some x) := by
    intro x hx
    rcases hout with rfl | rfl
    · simp
    · simp [Ne.symm hx]
  -- afterwards it is on no queue, and the others are where they were
  have hf : ∀ {qs : Queues n} {i : Option Priority},
      qs.Linked (update lists i ((lists i).erase p)) →
      (∀ j, j ≠ i → p ∉ lists j) → ((s.setQueues qs).setState p .stopped).Good none := by
    intro qs i hl' hnot
    have hnd := (hl.threaded.list i).nodup
    have hgone : ∀ j, p ∉ update lists i ((lists i).erase p) j := by
      intro j
      by_cases hj : j = i
      · subst hj
        rw [update_self]
        exact hnd.not_mem_erase
      rw [update_of_ne hj]
      exact hnot j hj
    refine ⟨_, hl', ht.move (fun x hx j => ?_) ?_ ?_ hou⟩
    · by_cases hj : j = i
      · subst hj
        rw [update_self, List.mem_erase_of_ne hx]
      · rw [update_of_ne hj]
    · simp [hgone]
    · simp [hgone]
  by_cases hin : ∃ i, p ∈ lists i
  · obtain ⟨i, hi⟩ := hin
    have hnot : ∀ j, j ≠ i → p ∉ lists j := fun j hj => hl.not_mem hj hi
    cases i with
    | none =>
      obtain ⟨qs, hr, hl'⟩ := Queues.sleepRemove_spec hl p
      refine ⟨qs, ?_, hf hl' hnot⟩
      rw [if_pos ((ht.sleeping p).1 hi).1, sleepQueueRemove, hr]
      rfl
    | some q =>
      have hrd := ((ht.ready p).1 ⟨q, hi⟩).1
      obtain ⟨qs, hr, hl'⟩ := Queues.readyRemove_of_mem hl hi
      refine ⟨qs, ?_, hf hl' hnot⟩
      rw [hrd, if_neg (by decide), if_pos rfl, readyQueueRemove, hr]
      rfl
  have hnot : ∀ i, p ∉ lists i := not_exists.1 hin
  have hsa : s.queues.Linked (update lists none ((lists none).erase p)) := by
    rw [List.erase_of_not_mem (hnot none), update_eq_self]
    exact hl
  refine ⟨s.queues, ?_, hf hsa fun j _ => hnot j⟩
  split_ifs
  · rw [sleepQueueRemove, Queues.sleepRemove_of_not_mem hl (hnot none)]
    rfl
  · rw [readyQueueRemove, Queues.readyRemove_of_not_mem hl fun q => hnot (some q)]
    rfl
  · rfl

lemma markStopped_spec (hout : ou = none ∨ ou = some p)
    (hp : p ≠ kernelProcess) (hpa : (s.info p).parent ≠ some p) (sg : ℕ) :
    ∃ s', s.markStopped p sg = some s' ∧ s'.Good none ∧ Affects s s' p ∧ s'.state p = .stopped := by
  rw [markStopped, if_neg hp]
  obtain ⟨q, hu, hgood⟩ := unlink_spec (s := s.modify p (.stoppedBy sg)) h hout
  obtain ⟨s1, hs1⟩ := @exists_eq _
    ((((s.modify p (.stoppedBy sg)).setQueues q).setState p .stopped).modify p .endSlice)
  have hf : Frame s s1 := by
    rw [hs1]
    refine .trans ?_ (Frame.modify _ p)
    refine .trans ?_ (Frame.setState _ p (by decide))
    refine .trans ?_ (Frame.setQueues _ q)
    exact Frame.modify s p
  have hwa : ∀ x, (s1.info x).waitpidWaiting = (s.info x).waitpidWaiting := by
    intro x
    rw [hs1]
    exact (modify_field _ p ProcInfo.endSlice ProcInfo.waitpidWaiting (fun _ => rfl) x).trans
      (s.modify_field p (ProcInfo.stoppedBy sg) ProcInfo.waitpidWaiting (fun _ => rfl) x)
  have hg1 : s1.Good none := hs1 ▸ hgood
  obtain ⟨s', hwk, hg', ha, hst⟩ := affects_wakeParent (p := p) hg1 hf
    (fun x hx => by simp [hs1, hx]) hwa hpa (.inl rfl)
  rw [hu]
  simp only [← hs1, hwk]
  refine ⟨_, rfl, hg', { ha with frame := ha.frame.trans (Frame.force _ true) }, hst.trans ?_⟩
  simp [hs1]

lemma bury_spec (hout : ou = none ∨ ou = some p)
    (hp : s.state p ≠ .ready ∧ s.state p ≠ .sleeping ∨ ou = some p)
    (hpa : (s.info p).parent ≠ some p) (status : ℤ) :
    ∃ s', s.bury p status = some s' ∧ s'.Good none ∧ Affects s s' p ∧ s'.state p = .zombie := by
  obtain ⟨s1, hs1⟩ := @exists_eq _ ((s.setState p .zombie).modify p (.exited status))
  have hgood : (s.setState p .zombie).Good none := h.setState hout hp (by decide)
  have hg1 : s1.Good none := hs1 ▸ hgood
  have hf : Frame s s1 := by
    rw [hs1]
    refine .trans ?_ (Frame.modify _ p)
    exact Frame.setState s p (by decide)
  have hwa : ∀ x, (s1.info x).waitpidWaiting = (s.info x).waitpidWaiting := by
    intro x
    rw [hs1]
    exact modify_field _ p (ProcInfo.exited status) ProcInfo.waitpidWaiting (fun _ => rfl) x
  obtain ⟨s', hwk, hg', ha, hst⟩ := affects_wakeParent (p := p) hg1 hf
    (fun x hx => by simp [hs1, hx]) hwa hpa (.inl rfl)
  rw [bury, ← hs1, hwk]
  refine ⟨_, rfl, hg', { ha with frame := ha.frame.trans (Frame.force _ true) }, hst.trans ?_⟩
  simp [hs1]

/-- `proc_mark_continued` for a process that is not stopped. -/
lemma markContinued_of_ne (hout : ou = none ∨ ou = some p)
    (hp : (s.info p).parent ≠ some p) (hse : s.state p ≠ .stopped) :
    ∃ s', s.markContinued p = some s' ∧ s'.Good ou ∧ Affects s s' p ∧ s'.state p = s.state p := by
  have hf : Frame s (s.modify p .continued) := Frame.modify s p
  have hgood : (s.modify p .continued).Good ou := h
  simp only [markContinued]
  split_ifs with hk hst
  · exact ⟨s, rfl, h, Affects.refl s p, rfl⟩
  · exact absurd hst hse
  exact affects_wakeParent hgood hf (fun _ _ => rfl)
    (s.modify_field p ProcInfo.continued ProcInfo.waitpidWaiting fun _ => rfl) hp hout
end

lemma markContinued_spec (h : s.Good none) (hp : (s.info p).parent ≠ some p) :
    ∃ s', s.markContinued p = some s' ∧ s'.Good none ∧ Frame s s' ∧
      (s.state p ≠ .stopped → s'.state p = s.state p) := by
  by_cases hst : s.state p = .stopped
  · simp only [markContinued]
    split_ifs with hk hsp
    · exact ⟨s, rfl, h, Frame.refl s, fun _ => rfl⟩
    · have hf1 : Frame s (s.modify p .continued) := Frame.modify s p
      obtain ⟨s2, hr2, hg2, hf2, -, -⟩ :=
        markReady_spec (s := s.modify p .continued) (p := p) h (by simp)
      obtain ⟨s', hr', hg', hf', -, -⟩ := wakeParent_spec (p := p) hg2 (by simp)
      rw [hr2]
      exact ⟨s', hr', hg', hf1.trans (hf2.trans hf'), fun hne => absurd hst hne⟩
    · exact absurd hst hsp
  obtain ⟨s', hr, hgood, ha, hsa⟩ := markContinued_of_ne h (.inl rfl) hp hst
  exact ⟨s', hr, hgood, ha.frame, fun _ => hsa⟩

/-! ## Signals -/

lemma signalWake_spec (h : s.Good none) (p : Process n) :
    ∃ s', s.signalWake p = some s' ∧ s'.Good none ∧ Frame s s' ∧
      ∀ x, x ≠ p ∨ s.state x ≠ .sleeping ∧ s.state x ≠ .waiting → s'.state x = s.state x := by
  rw [signalWake]
  split_ifs with hst
  · obtain ⟨s', hr, hgood, hf, hot, -⟩ := markReady_spec (p := p) h (by simp)
    refine ⟨s', hr, hgood, hf, fun x hx => ?_⟩
    by_cases hxp : x = p
    · subst hxp
      have hx' := hx.resolve_left fun hne => hne rfl
      exact absurd hst (by simp [hx'.1, hx'.2])
    · exact hot x hxp
  · exact ⟨s, rfl, h, Frame.refl s, fun _ _ => rfl⟩

lemma frame_signalEnqueue (s : Scheduler n) (p : Process n) (sg : ℕ) :
    Frame s (s.signalEnqueue p sg) :=
  Frame.modify s p

lemma signalPost_spec (h : s.Good none) (p : Process n) (sg : ℕ) :
    ∃ s', s.signalPost p sg = some s' ∧ s'.Good none ∧ Frame s s' ∧
      ∀ x, x ≠ p ∨ s.state x ≠ .sleeping ∧ s.state x ≠ .waiting → s'.state x = s.state x := by
  have hgood : (s.signalEnqueue p sg).Good none := h
  simp only [signalPost]
  split_ifs
  · obtain ⟨s', hr, hg', hf, hsa⟩ := signalWake_spec hgood p
    exact ⟨s', hr, hg', (frame_signalEnqueue s p sg).trans hf, hsa⟩
  · exact ⟨_, rfl, hgood, frame_signalEnqueue s p sg, fun _ _ => rfl⟩

lemma signalSend_spec (h : s.Good none) (p : Process n) (sg : ℕ) :
    ∃ s', s.signalSend p sg = some s' ∧ s'.Good none ∧ Frame s s' ∧
      ∀ x, x ≠ p ∨ s.state x ≠ .sleeping ∧ s.state x ≠ .waiting → s'.state x = s.state x := by
  simp only [signalSend]
  split_ifs with hb hma hwa hc
  · exact ⟨s, rfl, h, Frame.refl s, fun _ _ => rfl⟩
  · exact signalPost_spec h p sg
  · have hf : Frame s (s.modify p .endSignalWait) := Frame.modify s p
    obtain ⟨s', hr, hg', hf', hsa⟩ := signalWake_spec (s := s.modify p .endSignalWait) h p
    exact ⟨s', hr, hg', hf.trans hf', hsa⟩
  · have hf : Frame s (s.modify p .endSignalWait) := Frame.modify s p
    have hf1 := hf.trans (frame_signalEnqueue _ p sg)
    obtain ⟨s', hr, hg', hf', hsa⟩ :=
      signalWake_spec (s := (s.modify p .endSignalWait).signalEnqueue p sg) h p
    exact ⟨s', hr, hg', hf1.trans hf', hsa⟩
  · exact signalPost_spec h p sg

variable (c : Bool)
/-- An invariant `I` of the loop over the signals, and what it gives when the loop ends. -/
lemma deliver_rule {I : Scheduler n → Prop} {Q : Delivery → Scheduler n → Prop}
    (hc : ∀ t bit, I t → I (t.modify p (.clearPending bit)))
    (he : ∀ t, I t → Q .none t ∧ Q .handled t)
    (hst : ∀ t signo, I t → ∃ t', t.markStopped p signo = some t' ∧ Q .stopped t')
    (hre : ∀ t, I t → ∃ t', t.markContinued p = some t' ∧ Q .handled t')
    (hex : ∀ t signo, I t → ∃ t', t.exitSignal signo = some t' ∧ Q .terminated t')
    (sg : List ℕ) (h : I s) : ∃ d s', deliver c p sg s = some (d, s') ∧ Q d s' := by
  induction sg generalizing s with
  | nil => exact ⟨.none, s, rfl, (he s h).1⟩
  | cons signo sg ih =>
    rw [deliver]
    split_ifs with hsk
    · exact ih h
    have h1 := hc s (sigbit signo) h
    dsimp only
    split
    · exact ih h1
    · obtain ⟨s', hr, hs'⟩ := hst _ signo h1
      rw [hr]
      exact ⟨_, s', rfl, hs'⟩
    · obtain ⟨s', hr, hs'⟩ := hre _ h1
      rw [hr]
      exact ⟨_, s', rfl, hs'⟩
    · obtain ⟨s', hr, hs'⟩ := hex _ signo h1
      rw [hr]
      exact ⟨_, s', rfl, hs'⟩
    · exact ⟨_, _, rfl, (he _ h1).2⟩

lemma deliver_running (hp : p ≠ kernelProcess) (sg : List ℕ)
    (h : s.Good none) (hc : s.current = p) (hpa : (s.info p).parent ≠ some p)
    (hse : s.state p ≠ .ready ∧ s.state p ≠ .sleeping) :
    ∃ d s', deliver c p sg s = some (d, s') ∧ s'.Good none ∧ Frame s s' ∧
      (s.state p ≠ .stopped → s'.state p ≠ .ready) := by
  refine deliver_rule c (I := fun t => t.Good none ∧ Frame s t ∧ t.state p = s.state p)
    (Q := fun _ t => t.Good none ∧ Frame s t ∧ (s.state p ≠ .stopped → t.state p ≠ .ready))
    ?_ ?_ ?_ ?_ ?_ sg ⟨h, Frame.refl s, rfl⟩
  · rintro t bit ⟨hgood, hf, hst⟩
    exact ⟨hgood, hf.trans (Frame.modify t p), hst⟩
  · rintro t ⟨hgood, hf, hst⟩
    rw [← hst] at hse
    exact ⟨⟨hgood, hf, fun _ => hse.1⟩, hgood, hf, fun _ => hse.1⟩
  · rintro t signo ⟨hgood, hf, -⟩
    obtain ⟨t', hr, hg', ha, hst⟩ := markStopped_spec hgood (.inl rfl) hp (hf.parent_ne hpa) signo
    exact ⟨t', hr, hg', hf.trans ha.frame, fun _ => by rw [hst]; decide⟩
  · rintro t ⟨hgood, hf, hst⟩
    obtain ⟨t', hr, hg', hf', hsa⟩ := markContinued_spec hgood (hf.parent_ne hpa)
    rw [hst] at hsa
    exact ⟨t', hr, hg', hf.trans hf', fun hne => hsa hne ▸ hse.1⟩
  rintro t signo ⟨hgood, hf, hst⟩
  rw [← hst] at hse
  obtain ⟨t', hr, hg', ha, hs'⟩ := bury_spec (p := p) hgood (.inl rfl)
    (.inl hse) (hf.parent_ne hpa) (signo % 128 : ℕ)
  rw [exitSignal, exitWithStatus, hf.current, hc]
  exact ⟨t', hr, hg', hf.trans ha.frame, fun _ => by rw [hs']; decide⟩

/-- A ready process that was taken off its queue dies or stops, or it can run. -/
inductive Selected (s' : Scheduler n) (p : Process n) : Delivery → Prop
  | stopped (hgood : s'.Good none) (hstate : s'.state p = .stopped) : Selected s' p .stopped
  | terminated (hgood : s'.Good none) (hstate : s'.state p = .zombie) : Selected s' p .terminated
  | none (hgood : s'.Good (some p)) (hstate : s'.state p = .ready) : Selected s' p .none
  | handled (hgood : s'.Good (some p)) (hstate : s'.state p = .ready) : Selected s' p .handled

lemma deliver_selected (hp : p ≠ kernelProcess) (sg : List ℕ)
    (h : s.Good (some p)) (hc : s.current = p) (hpa : (s.info p).parent ≠ some p)
    (hse : s.state p = .ready) :
    ∃ d s', deliver c p sg s = some (d, s') ∧ Affects s s' p ∧ Selected s' p d := by
  refine deliver_rule c (I := fun t => t.Good (some p) ∧ Affects s t p ∧ t.state p = .ready)
    (Q := fun d t => Affects s t p ∧ Selected t p d) ?_ ?_ ?_ ?_ ?_ sg
    ⟨h, Affects.refl s p, hse⟩
  · rintro t bit ⟨hgood, ha, hst⟩
    have hwa := t.modify_field p (ProcInfo.clearPending bit) ProcInfo.waitpidWaiting fun _ => rfl
    refine ⟨hgood, ha.trans ⟨Frame.modify t p, fun x _ => ?_, hwa p⟩, hst⟩
    rw [weight, weight, hwa, modify_state]
  · rintro t ⟨hgood, ha, hst⟩
    exact ⟨⟨ha, .none hgood hst⟩, ha, .handled hgood hst⟩
  · rintro t signo ⟨hgood, ha, -⟩
    obtain ⟨t', hr, hg', ha', hst⟩ :=
      markStopped_spec hgood (.inr rfl) hp (ha.frame.parent_ne hpa) signo
    exact ⟨t', hr, ha.trans ha', .stopped hg' hst⟩
  · rintro t ⟨hgood, ha, hst⟩
    obtain ⟨t', hr, hg', ha', hsa⟩ := markContinued_of_ne hgood (.inr rfl)
      (ha.frame.parent_ne hpa) (by rw [hst]; decide)
    exact ⟨t', hr, ha.trans ha', .handled hg' (hsa.trans hst)⟩
  rintro t signo ⟨hgood, ha, -⟩
  obtain ⟨t', hr, hg', ha', hst⟩ := bury_spec (p := p) hgood (.inr rfl) (.inr rfl)
    (ha.frame.parent_ne hpa) (signo % 128 : ℕ)
  rw [exitSignal, exitWithStatus, ha.frame.current, hc]
  exact ⟨t', hr, ha.trans ha', .terminated hg' hst⟩
end
end Scheduler
end Menios.Proc
