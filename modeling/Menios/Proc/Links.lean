import Menios.Proc.Flow
import Menios.Proc.Lifecycle

/-!
# Processes that the scheduler can still reach

A process is absent when its memory was never used or has been freed.
`PROC_STATE_TERMINATED` is written at one place, directly before
`scheduler_cleanup_process` frees the process (`src/kernel/proc/proc.c`, lines 1784-1787).

Results:

* `Queues.Held`: the processes that can be reached from the queues; one lemma for each
  operation on the queues, which need not be intact.
* `Carries`: what all functions of the scheduler do that free nobody.
* `Attached`: nothing that is linked is absent; kept by `proc_switch`.
-/

namespace Menios.Proc
open Common Threads ProcInfo Function Option

namespace Queues
variable {n : ℕ} {qs qs' : Queues n} {p x : Process n}
/-- The process can be reached from a queue. -/
def Held (qs : Queues n) (x : Process n) : Prop :=
  Reach qs.next qs.sleepHead x ∨ ∃ q, Reach qs.next (qs.readyHead q) x

lemma Held.extend {a b : Process n} (h : qs.Held a) (hb : qs.next a = some b) : qs.Held b := by
  rcases h with h | ⟨q, h⟩
  · exact .inl (h.extend hb)
  · exact .inr ⟨q, h.extend hb⟩

lemma Held.of_sleepHead (h : qs.sleepHead = some x) : qs.Held x := .inl (h ▸ .here)

lemma Held.of_readyHead {q : Priority} (h : qs.readyHead q = some x) : qs.Held x :=
  .inr ⟨q, h ▸ .here⟩

/-- A set that contains the heads and is closed under `next` contains all that is held. -/
lemma Held.mem {T : Process n → Prop} (h : qs.Held x) (hsl : ∀ a, qs.sleepHead = some a → T a)
    (hr : ∀ q a, qs.readyHead q = some a → T a)
    (hne : ∀ a, T a → ∀ b, qs.next a = some b → T b) : T x := by
  rcases h with h | ⟨q, h⟩
  · exact h.mem hsl hne
  · exact h.mem (hr q) hne

/-- `p` was taken out behind a node that leads to it, or it was a head. -/
lemma held_of_unlinkNext {pr : Option (Process n)} (hx : qs'.Held x)
    (hpr : ∀ c, pr = some c → qs.next c = some p) (hp : qs.Held p)
    (hne : qs'.next = unlinkNext qs.next pr p)
    (hsl : qs'.sleepHead = qs.sleepHead ∨ qs'.sleepHead = qs.next p)
    (hr : ∀ q, qs'.readyHead q = qs.readyHead q ∨ qs'.readyHead q = qs.next p) : qs.Held x := by
  refine hx.mem (T := qs.Held) (fun a ha => ?_) (fun q a ha => ?_) fun c hc b hb => ?_
  · rcases hsl with h | h
    · exact .of_sleepHead (h ▸ ha)
    · exact hp.extend (h ▸ ha)
  · rcases hr q with h | h
    · exact .of_readyHead (h ▸ ha)
    · exact hp.extend (h ▸ ha)
  rw [hne] at hb
  have hrc : Reach qs.next (some c) b := by
    have hst : Reach (unlinkNext qs.next pr p) (some c) b := .step (hb ▸ .here)
    exact hst.of_unlinkNext hpr
  exact hrc.mem (T := qs.Held) (fun a ha => some.inj ha ▸ hc) fun a ha b hb => ha.extend hb

lemma held_of_sleepRemove (h : qs.sleepRemove p = some qs') (hx : qs'.Held x) : qs.Held x := by
  rw [sleepRemove] at h
  split at h
  · cases h
  · exact some.inj h ▸ hx
  next prev hf =>
  cases h
  have hp : qs.Held p := .inl (findPrev_leads hf).1
  refine held_of_unlinkNext hx (fun _ => findPrev_prev hf) hp rfl ?_ fun _ => .inl rfl
  exact (ite_eq_or_eq ..).symm

lemma held_of_readyRemoveFrom {qu : List Priority}
    (h : qs.readyRemoveFrom p qu = some qs') (hx : qs'.Held x) : qs.Held x := by
  induction qu with
  | nil => exact some.inj h ▸ hx
  | cons q qu ih =>
    rw [readyRemoveFrom] at h
    split at h
    · cases h
    · exact ih h
    next prev hf =>
    cases h
    have hp : qs.Held p := .inr ⟨q, (findPrev_leads hf).1⟩
    refine held_of_unlinkNext hx (fun _ => findPrev_prev hf) hp rfl (.inl rfl) fun q' => ?_
    by_cases hpr : prev = none
    · simp only [hpr, if_true]
      by_cases hq : q' = q
      · exact .inr (by rw [hq, update_self])
      · exact .inl (update_of_ne hq ..)
    · simp only [hpr, if_false, true_or]

lemma held_of_push {q : Priority} (hx : (qs.push q p).Held x) : qs.Held x ∨ x = p := by
  refine hx.mem (T := fun x => qs.Held x ∨ x = p) (fun a ha => ?_) (fun q' a ha => ?_)
    fun c hc b hb => ?_
  · exact .inl (.of_sleepHead ha)
  · simp only [push] at ha
    split_ifs at ha
    · by_cases hq : q' = q
      · rw [hq, update_self] at ha
        exact .inr (some.inj ha).symm
      · rw [update_of_ne hq] at ha
        exact .inl (.of_readyHead ha)
    · exact .inl (.of_readyHead ha)
  rcases pushNext_leads hb with rfl | ⟨hne, hnx⟩
  · exact .inr rfl
  · exact .inl ((hc.resolve_right hne).extend hnx)

lemma held_of_popSleeper (hh : qs.sleepHead = some p) (hx : (qs.popSleeper p).Held x) :
    qs.Held x := by
  have hno : ∀ c, (none : Option (Process n)) = some c → qs.next c = some p := by simp
  exact held_of_unlinkNext hx hno (.of_sleepHead hh) rfl (.inr rfl) fun _ => .inl rfl

lemma held_of_popReady {q : Priority} (hh : qs.readyHead q = some p)
    (hx : (qs.popReady q p).Held x) : qs.Held x := by
  have hno : ∀ c, (none : Option (Process n)) = some c → qs.next c = some p := by simp
  refine held_of_unlinkNext hx hno (.of_readyHead hh) rfl (.inl rfl) fun q' => ?_
  by_cases hq : q' = q
  · exact .inr (by rw [popReady, hq]; exact update_self ..)
  · exact .inl (update_of_ne hq ..)

/-- `p` was put behind a node that is held, or in front of the sleep queue. -/
lemma held_of_insertNext (hd pr : Option (Process n)) (hx : qs'.Held x)
    (hh : ∀ a, hd = some a → qs.Held a) (hp : ∀ a, pr = some a → qs.Held a)
    (hnx : qs'.next = insertNext qs.next hd pr p)
    (hsl : qs'.sleepHead = qs.sleepHead ∨ qs'.sleepHead = some p)
    (hr : qs'.readyHead = qs.readyHead) : qs.Held x ∨ x = p := by
  refine hx.mem (T := fun x => qs.Held x ∨ x = p) (fun a ha => ?_) (fun q a ha => ?_)
    fun c hc b hb => ?_
  · rcases hsl with h | h
    · exact .inl (.of_sleepHead (h ▸ ha))
    · exact .inr (some.inj (ha.symm.trans h))
  · exact .inl (.of_readyHead (hr ▸ ha))
  rw [hnx] at hb
  rcases insertNext_leads hb with rfl | ⟨hne, hst⟩ | ⟨-, ⟨-, hb'⟩ | ⟨t, ht, hb'⟩⟩
  · exact .inr rfl
  · exact .inl ((hc.resolve_right hne).extend hst)
  · exact .inl (hh b hb')
  · exact .inl ((hp t ht).extend hb')

lemma sleepPlace_held {su : Process n → UInt64} {d : UInt64} {f : ℕ}
    {a b : Process n} (ha : qs.Held a) (h : qs.sleepPlace su d f a = some b) : qs.Held b := by
  induction f generalizing a with
  | zero => cases h
  | succ f ih =>
    rw [sleepPlace] at h
    split at h
    · exact some.inj h ▸ ha
    next c hc =>
    split_ifs at h
    · exact ih (ha.extend hc) h
    · exact some.inj h ▸ ha

lemma held_of_sleepInsert {su : Process n → UInt64}
    (h : qs.sleepInsert su p = some qs') (hx : qs'.Held x) : qs.Held x ∨ x = p := by
  rw [sleepInsert] at h
  split at h
  · next hnn =>
    cases h
    exact held_of_insertNext none none hx (by simp) (by simp) rfl (.inr rfl) rfl
  next head hhd =>
  have hh : ∀ a, some head = some a → qs.Held a := fun a ha => .of_sleepHead (hhd.trans ha)
  split_ifs at h
  · cases h
    exact held_of_insertNext (some head) none hx hh (by simp) rfl (.inr rfl) rfl
  obtain ⟨node, hp, rfl⟩ := map_eq_some_iff.1 h
  have hno : qs.Held node := sleepPlace_held (hh head rfl) hp
  exact held_of_insertNext (some head) (some node) hx hh
    (fun a ha => some.inj ha ▸ hno) rfl (.inl rfl) rfl
end Queues

namespace Scheduler
variable {n : ℕ} {s s' s'' : Scheduler n} {p : Process n} {nw : UInt64}
/-! ## Functions that free nobody -/

/-- The memory of the process was never used or has been freed. -/
def Absent (s : Scheduler n) (p : Process n) : Prop := s.state p = .new ∨ s.state p = .terminated

/-- Nobody is freed or comes back, only processes that are present get on a queue, and the
family links stay. -/
structure Carries (s s' : Scheduler n) : Prop where
  freed : ∀ x, s'.state x = .terminated ↔ s.state x = .terminated
  absent : ∀ x, s'.Absent x → s.Absent x
  held : ∀ x, s'.queues.Held x → s.queues.Held x ∨ ¬ s'.Absent x
  current : s'.current = s.current
  parent : ∀ x, (s'.info x).parent = (s.info x).parent
  children : ∀ x, (s'.info x).children = (s.info x).children

namespace Carries
/-- The states, the queues, `current` and the family links are as before. -/
lemma of_same (hst : s'.state = s.state) (hq : s'.queues = s.queues) (hc : s'.current = s.current)
    (hp : ∀ x, (s'.info x).parent = (s.info x).parent := by exact fun _ => rfl)
    (hch : ∀ x, (s'.info x).children = (s.info x).children := by exact fun _ => rfl) :
    Carries s s' where
  freed x := by rw [hst]
  absent x hx := by rwa [Absent, hst] at hx
  held x hx := .inl (hq ▸ hx)
  current := hc
  parent := hp
  children := hch

lemma refl (s : Scheduler n) : Carries s s := of_same rfl rfl rfl

lemma trans (h : Carries s s') (h' : Carries s' s'') : Carries s s'' where
  freed x := (h'.freed x).trans (h.freed x)
  absent x hx := h.absent x (h'.absent x hx)
  held x hx := by
    rcases h'.held x hx with hx' | hx'
    · rcases h.held x hx' with hx'' | hx''
      · exact .inl hx''
      · exact .inr fun hab => hx'' (h'.absent x hab)
    · exact .inr hx'
  current := h'.current.trans h.current
  parent x := (h'.parent x).trans (h.parent x)
  children x := (h'.children x).trans (h.children x)

lemma modify (s : Scheduler n) (p : Process n) (f : ProcInfo n → ProcInfo n)
    (hp : ∀ i, (f i).parent = i.parent := by exact fun _ => rfl)
    (hc : ∀ i, (f i).children = i.children := by exact fun _ => rfl) : Carries s (s.modify p f) :=
  of_same rfl rfl rfl (s.modify_field p f ProcInfo.parent hp)
    (s.modify_field p f ProcInfo.children hc)

lemma force (s : Scheduler n) (b : Bool) : Carries s { s with force := b } := of_same rfl rfl rfl

lemma setState (s : Scheduler n) (st : ProcState) (hp : s.state p ≠ .terminated)
    (hnew : st ≠ .new) (ht : st ≠ .terminated) : Carries s (s.setState p st) where
  freed x := by
    by_cases hx : x = p
    · subst hx
      simp [hp, ht]
    · rw [setState_state_of_ne _ _ _ hx]
  absent x hab := by
    by_cases hx : x = p
    · subst hx
      rw [Absent, setState_state_self] at hab
      exact absurd hab (by simp [hnew, ht])
    · rwa [Absent, setState_state_of_ne _ _ _ hx] at hab
  held _ hx := .inl hx
  current := rfl
  parent _ := rfl
  children _ := rfl

/-- Only `p` gets on a queue, and it is present. -/
lemma setQueues {qs : Queues n} (h : ∀ x, qs.Held x → s.queues.Held x ∨ ¬ s.Absent x) :
    Carries s (s.setQueues qs) where
  freed _ := Iff.rfl
  absent _ hx := hx
  held x hx := h x hx
  current := rfl
  parent _ := rfl
  children _ := rfl

lemma readyQueuePush (s : Scheduler n) (hp : ¬ s.Absent p) : Carries s (s.readyQueuePush p) := by
  have hpr : Carries s (s.modify p (.withPriority (UInt8.ofNat (s.queueOf p)))) := modify s p _
  refine hpr.trans (setQueues fun x hx => ?_)
  rcases Queues.held_of_push hx with hx' | rfl
  · exact .inl hx'
  · exact .inr hp

lemma not_absent_ready (s : Scheduler n) (p : Process n) : ¬ (s.setState p .ready).Absent p := by
  simp [Absent]

lemma markReady (hs : s.markReady p = some s') : Carries s s' := by
  rw [Scheduler.markReady] at hs
  split_ifs at hs with hst
  · exact some.inj hs ▸ refl s
  obtain ⟨s1, hs1, rfl⟩ := map_eq_some_iff.1 hs
  obtain ⟨qs, hr, rfl⟩ := map_eq_some_iff.1 hs1
  rw [not_or] at hst
  have h1 : Carries s (s.setQueues qs) :=
    setQueues fun x hx => .inl (Queues.held_of_sleepRemove hr hx)
  have h2 := h1.trans (setState (s.setQueues qs) .ready hst.1 (by decide) (by decide))
  have h3 := h2.trans (modify _ p madeReady)
  have h4 := h3.trans (readyQueuePush _ (not_absent_ready (s.setQueues qs) p))
  exact h4.trans (force _ true)

lemma unlink (hs : s.unlink p = some s') : Carries s s' := by
  rw [Scheduler.unlink] at hs
  split_ifs at hs
  · obtain ⟨qs, hr, rfl⟩ := map_eq_some_iff.1 hs
    exact setQueues fun x hx => .inl (Queues.held_of_sleepRemove hr hx)
  · obtain ⟨qs, hr, rfl⟩ := map_eq_some_iff.1 hs
    exact setQueues fun x hx => .inl (Queues.held_of_readyRemoveFrom hr hx)
  · exact some.inj hs ▸ refl s

lemma flow : Flow (fun s p => s.state p ≠ .terminated) (Carries (n := n)) where
  refl := refl
  trans := trans
  keeps h hp hf := hp ((h.freed _).1 hf)
  modify := @modify n
  force := force
  setState st hp hst := setState _ st hp (by rcases hst with rfl | rfl <;> decide)
    (by rcases hst with rfl | rfl <;> decide)
  markReady := markReady
  unlink := unlink

lemma sleepEnqueue (hp : ¬ s.Absent p) (hs : s.sleepEnqueue p = some s') : Carries s s' := by
  obtain ⟨qs, hin, rfl⟩ := map_eq_some_iff.1 hs
  refine setQueues fun x hx => ?_
  rcases Queues.held_of_sleepInsert hin hx with hx' | rfl
  · exact .inl hx'
  · exact .inr hp

lemma requestYield (s : Scheduler n) : Carries s s.requestYield :=
  .trans (modify s s.current endSlice) (force _ true)

lemma requestBlock (s : Scheduler n) : Carries s s.requestBlock :=
  .trans (modify s s.current (sleepsUntil 0xffffffffffffffff))
    (of_same rfl rfl rfl)

lemma execute (hp : s.state p ≠ .terminated) : Carries s (s.execute p) := by
  have h1 := setState s .ready hp (by decide) (by decide)
  have h2 := h1.trans (modify _ p newSlice)
  exact h2.trans (readyQueuePush _ (not_absent_ready s p))
end Carries

/-! ## Taking from the ready queues -/

/-- Queues, the table of processes or flags were written only. -/
structure SameLife (s s' : Scheduler n) : Prop where
  state : s'.state = s.state
  info : s'.info = s.info
  died : s'.died = s.died
  revived : s'.revived = s.revived

lemma SameLife.sleepEnqueue (hs : s.sleepEnqueue p = some s') : SameLife s s' := by
  obtain ⟨qs, -, rfl⟩ := map_eq_some_iff.1 hs
  exact ⟨rfl, rfl, rfl, rfl⟩

/-- Besides, nobody got on a queue. -/
structure Unqueued (s s' : Scheduler n) : Prop extends SameLife s s' where
  current : s'.current = s.current
  held : ∀ x, s'.queues.Held x → s.queues.Held x

namespace Unqueued
lemma refl (s : Scheduler n) : Unqueued s s := ⟨⟨rfl, rfl, rfl, rfl⟩, rfl, fun _ hx => hx⟩

lemma trans (h : Unqueued s s') (h' : Unqueued s' s'') : Unqueued s s'' :=
  ⟨⟨h'.state.trans h.state, h'.info.trans h.info, h'.died.trans h.died,
    h'.revived.trans h.revived⟩, h'.current.trans h.current, fun x hx => h.held x (h'.held x hx)⟩

lemma cleanupProcess (s : Scheduler n) (p : Process n) : Unqueued s (s.cleanupProcess p) := by
  rw [Scheduler.cleanupProcess, tableRemove]
  split_ifs
  · exact refl s
  split
  · exact refl s
  · exact ⟨⟨rfl, rfl, rfl, rfl⟩, rfl, fun _ hx => hx⟩

lemma carries (h : Unqueued s s') : Carries s s' where
  freed x := by rw [h.state]
  absent x hx := by rwa [Absent, h.state] at hx
  held x hx := .inl (h.held x hx)
  current := h.current
  parent x := by rw [h.info]
  children x := by rw [h.info]
end Unqueued

lemma popAtPriority_same {q : Priority} {f : ℕ} {pp : Option (Process n)}
    (hs : popAtPriority q f s = some (pp, s')) : Unqueued s s' ∧
      ∀ p, pp = some p → s.queues.Held p ∧ s.state p ≠ .zombie ∧ s.state p ≠ .terminated := by
  induction f generalizing s with
  | zero => cases hs
  | succ f ih =>
    rw [popAtPriority] at hs
    split at hs
    · cases hs
      exact ⟨.refl _, fun p hp => absurd hp (by simp)⟩
    next p hh =>
    have hpop : Unqueued s (s.setQueues (s.queues.popReady q p)) :=
      ⟨⟨rfl, rfl, rfl, rfl⟩, rfl, fun x hx => Queues.held_of_popReady hh hx⟩
    -- the queue was popped and something more was done before the next round
    have hne : ∀ {s1 : Scheduler n}, Unqueued s s1 →
        popAtPriority q f s1 = some (pp, s') → Unqueued s s' ∧ ∀ p, pp = some p →
          s.queues.Held p ∧ s.state p ≠ .zombie ∧ s.state p ≠ .terminated := by
      intro s1 h1 hs1
      obtain ⟨hsa, hpo⟩ := ih hs1
      rw [h1.state] at hpo
      exact ⟨h1.trans hsa, fun p hp => ⟨h1.held p (hpo p hp).1, (hpo p hp).2⟩⟩
    simp only at hs
    split at hs
    · exact hne hpop hs
    · exact hne (hpop.trans (.cleanupProcess _ p)) hs
    · split at hs
      · cases hs
      · next s1 hs1 =>
        obtain ⟨qs, hin, rfl⟩ := map_eq_some_iff.1 hs1
        refine hne ?_ hs
        refine ⟨⟨rfl, rfl, rfl, rfl⟩, rfl, fun x hx => ?_⟩
        rcases Queues.held_of_sleepInsert hin hx with hx | rfl
        · exact hpop.held x hx
        · exact .of_readyHead hh
    · exact hne hpop hs
    next hz ht _ _ =>
    cases hs
    refine ⟨hpop, fun x hx => ?_⟩
    cases hx
    exact ⟨.of_readyHead hh, hz, ht⟩

lemma popFrom_same {qu : List Priority} {pp : Option (Process n)}
    (hs : s.popFrom qu = some (pp, s')) : Unqueued s s' ∧
      ∀ p, pp = some p → s.queues.Held p ∧ s.state p ≠ .zombie ∧ s.state p ≠ .terminated := by
  induction qu generalizing s with
  | nil =>
    cases hs
    exact ⟨.refl _, fun p hp => absurd hp (by simp)⟩
  | cons q qu ih =>
    rw [popFrom] at hs
    split at hs
    · cases hs
    · next p s1 hpop =>
      cases hs
      exact popAtPriority_same hpop
    next s1 hpop =>
    obtain ⟨h1, -⟩ := popAtPriority_same hpop
    obtain ⟨hsa, hpo⟩ := ih hs
    rw [h1.state] at hpo
    exact ⟨h1.trans hsa, fun p hp => ⟨h1.held p (hpo p hp).1, (hpo p hp).2⟩⟩

/-- What every turn of the loops of `proc_switch` keeps holds behind them. The process that
is selected is the kernel or has not ended. -/
lemma selectNext_inv {I : Scheduler n → Prop} {cp : ℕ → Bool} {f : ℕ}
    (hc : ∀ s p, I s → I (s.cleanupProcess p))
    (ht : ∀ {s s1 s2 : Scheduler n} {popped cp d}, I s → s.popHighest = some (popped, s1) →
      handlePending { s1 with current := popped.getD kernelProcess } (popped.getD kernelProcess)
        cp = some (d, s2) → I s2)
    (h : I s) (hs : selectNext cp f s = some s') : I s' ∧ (s'.current ≠ kernelProcess →
      s'.state s'.current ≠ .zombie ∧ s'.state s'.current ≠ .terminated) := by
  induction f generalizing s with
  | zero => cases hs
  | succ f ih =>
    rw [selectNext] at hs
    split at hs
    · cases hs
    next popped s1 hp =>
    simp only at hs
    split at hs
    · cases hs
    next d s2 hpe =>
    have h2 := ht h hp hpe
    split_ifs at hs with _ _ hde _
    · exact ih (hc s2 _ h2) hs
    · exact ih h2 hs
    · exact ih (hc s2 _ h2) hs
    · exact ih h2 hs
    cases hs
    exact ⟨h2, fun hk => not_or.1 fun he => hde ⟨he, hk⟩⟩

lemma wakeSleepers_inv {I : Scheduler n → Prop} {f : ℕ}
    (ht : ∀ {s p}, I s → s.queues.sleepHead = some p → (s.info p).sleepUntil ≤ nw →
      I (s.wakeFirst p)) (h : I s) (hs : wakeSleepers nw f s = some s') : I s' := by
  induction f generalizing s with
  | zero => cases hs
  | succ f ih =>
    rw [wakeSleepers] at hs
    split at hs
    · exact some.inj hs ▸ h
    next p hh =>
    split_ifs at hs with hnow
    · exact ih (ht h hh hnow) hs
    · exact some.inj hs ▸ h

/-! ## Nothing that is linked is absent -/

/-- Whoever is on a queue, runs, is a parent or a child is present. -/
structure Attached (s : Scheduler n) : Prop where
  queued : ∀ x, s.queues.Held x → ¬ s.Absent x
  current : ¬ s.Absent s.current
  kernel : ¬ s.Absent kernelProcess
  parent : ∀ x y, s.state x ≠ .terminated → (s.info x).parent = some y → ¬ s.Absent y
  child : ∀ x c, c ∈ (s.info x).children → ¬ s.Absent c ∧ (s.info c).parent = some x
  nodup : ∀ x, (s.info x).children.Nodup
  root : (s.info kernelProcess).parent = none

namespace Attached
section
variable (h : s.Attached)
include h
lemma of_carries (hc : Carries s s') : s'.Attached where
  queued x hx := by
    rcases hc.held x hx with hx' | hx'
    · exact fun hab => h.queued x hx' (hc.absent x hab)
    · exact hx'
  current hab := h.current (hc.current ▸ hc.absent _ hab)
  kernel hab := h.kernel (hc.absent _ hab)
  parent x y hl hx hab :=
    h.parent x y (fun hst => hl ((hc.freed x).2 hst)) (hc.parent x ▸ hx) (hc.absent y hab)
  child x c hx := by
    rw [hc.children] at hx
    rw [hc.parent]
    exact ⟨fun hab => (h.child x c hx).1 (hc.absent c hab), (h.child x c hx).2⟩
  nodup x := hc.children x ▸ h.nodup x
  root := (hc.parent kernelProcess).trans h.root

lemma current_not_freed : s.state s.current ≠ .terminated := fun hst => h.current (.inr hst)

/-- Another process becomes `current`. -/
lemma setCurrent (hp : ¬ s.Absent p) : Attached { s with current := p } := { h with current := hp }

lemma wakeFirst (hh : s.queues.sleepHead = some p) : Carries s (s.wakeFirst p) := by
  have hp : s.state p ≠ .terminated := fun hst => h.queued p (.of_sleepHead hh) (.inr hst)
  have h1 : Carries s (s.setQueues (s.queues.popSleeper p)) :=
    .setQueues fun x hx => .inl (Queues.held_of_popSleeper hh hx)
  have h2 := h1.trans (.setState (s.setQueues (s.queues.popSleeper p)) .ready hp (by decide)
    (by decide))
  have h3 := h2.trans (.modify _ p newSlice)
  exact h3.trans (.readyQueuePush _
    (Carries.not_absent_ready (s.setQueues (s.queues.popSleeper p)) p))

lemma wakeSleepers {f : ℕ} (hs : wakeSleepers nw f s = some s') : Carries s s' :=
  wakeSleepers_inv (I := Carries s)
    (fun h1 hh _ => h1.trans ((h.of_carries h1).wakeFirst hh)) (.refl s) hs

/-- Nothing that is linked is absent afterwards, and nobody was freed or came back. -/
structure Kept (s s' : Scheduler n) : Prop where
  attached : s'.Attached
  freed : ∀ x, s'.state x = .terminated ↔ s.state x = .terminated

lemma Kept.of_carries (hc : Carries s s') : Kept s s' := ⟨h.of_carries hc, hc.freed⟩
end

lemma Kept.trans (h : Kept s s') (h' : Kept s' s'') : Kept s s'' :=
  ⟨h'.attached, fun x => (h'.freed x).trans (h.freed x)⟩

variable {c : ℕ → Bool}
/-- The loop makes a process `current` that is present. -/
lemma selectNext (h : s.Attached) {f : ℕ} (hs : selectNext c f s = some s') : Kept s s' := by
  refine (selectNext_inv (I := Kept s) (fun s1 p h1 => ?_)
    (fun {s1 s2 s3 popped _ _} h1 hpop hpe => ?_) (.of_carries h (.refl s)) hs).1
  · exact h1.trans (.of_carries h1.attached (Unqueued.cleanupProcess s1 p).carries)
  obtain ⟨hsa, hpo⟩ := popFrom_same hpop
  have h2 : Kept s s2 := h1.trans (.of_carries h1.attached hsa.carries)
  have hp : ¬ s2.Absent (popped.getD kernelProcess) := by
    cases popped with
    | none => exact h2.attached.kernel
    | some p => exact fun hab => h1.attached.queued p (hpo p rfl).1 (hsa.carries.absent p hab)
  have hl : s2.state (popped.getD kernelProcess) ≠ .terminated := fun hst => hp (.inr hst)
  have hset := h2.attached.setCurrent hp
  exact Kept.trans ⟨hset, h2.freed⟩ (.of_carries hset (Carries.flow.handlePending hl hl hpe))

lemma switchAway (h : s.Attached) {t : Bool} (hs : s.switchAway t = some s') : Carries s s' := by
  have hsl := Carries.setState s .sleeping h.current_not_freed (by decide) (by decide)
  have hr := Carries.setState s .ready h.current_not_freed (by decide) (by decide)
  rw [Scheduler.switchAway] at hs
  split_ifs at hs
  · exact hsl.trans (.sleepEnqueue (by simp [Absent]) hs)
  · exact some.inj hs ▸ (Unqueued.cleanupProcess s s.current).carries
  · have hsc := hr.trans (.modify _ s.current newSlice)
    exact some.inj hs ▸ hsc.trans (.readyQueuePush _ (Carries.not_absent_ready s s.current))
  · exact some.inj hs ▸ .modify s s.current newSlice
  · exact some.inj hs ▸ .refl s

lemma reschedule (h : s.Attached) {f t : Bool} (hs : s.reschedule f t c = some s') : Kept s s' := by
  rw [Scheduler.reschedule] at hs
  split_ifs at hs
  · exact some.inj hs ▸ .of_carries h (.refl s)
  rw [switchTo] at hs
  split at hs
  · cases hs
  next s1 ha =>
  obtain ⟨s2, hse, rfl⟩ := map_eq_some_iff.1 hs
  have h1 : Kept s s1 := .of_carries h (h.switchAway ha)
  have h2 : Kept s s2 := h1.trans (h1.attached.selectNext hse)
  have hr := Carries.setState s2 .running h2.attached.current_not_freed (by decide) (by decide)
  exact h2.trans (.of_carries h2.attached (hr.trans (.modify _ s2.current newSlice)))

lemma procSwitch (h : s.Attached) (hs : s.procSwitch nw c = some s') : Kept s s' := by
  have hc : Carries s { s with lastExec := nw } := .of_same rfl rfl rfl
  have ha := h.of_carries hc
  rw [Scheduler.procSwitch] at hs
  split at hs
  · cases hs
  next s3 he =>
  rw [switchEvents] at he
  split at he
  · cases he
  next d s1 hde =>
  have h1 := hc.trans (Carries.flow.handlePending ha.current_not_freed ha.current_not_freed hde)
  split at he
  · cases he
  next s2 hwa =>
  have h2 := h1.trans ((h.of_carries h1).wakeSleepers hwa)
  have h3 := h2.trans (Carries.flow.checkItimers he)
  have hcr : Carries s3 s3.clearActions := .of_same rfl rfl rfl
  have h4 := (h3.trans hcr).trans
    (Carries.flow.account (nw - if s.lastExec = 0 then nw else s.lastExec))
  have hk := Kept.of_carries h h4
  exact hk.trans (hk.attached.reschedule hs)
end Attached
end Scheduler
end Menios.Proc
