import Menios.Proc.StopContinue
import Menios.Proc.Waiting

/-!
# Interval timers

`scheduler_check_itimers` (`src/kernel/proc/proc.c`, lines 421-467), for every table of processes.
The grid of a timer with the interval `i` is `expires + k * i`; the new expiry is computed with
one division, and with two tests for overflow.

Results:

* `Itimer.next_of_fits`: the new expiry is the next point of the grid, if it fits in 64 bits.
* `checkItimers_exact`: the timers that are due send one signal each and are set again; the
  others are left alone. The timer of the kernel process is never looked at.
-/

namespace Menios.Proc
open Common List Option

namespace Itimer
variable {timer : Itimer} {now : UInt64}
/-- The timer is active and has run out. -/
def Due (timer : Itimer) (now : UInt64) : Prop := timer.active = true ∧ timer.expiresUs ≤ now

/-- The `k`-th point of the grid is the first after `now`. -/
def FirstAfter (timer : Itimer) (now : UInt64) (k : ℕ) : Prop :=
  IsLeast {j | 1 ≤ j ∧ now.toNat < timer.expiresUs.toNat + j * timer.intervalUs.toNat} k

/-- A timer that was due is off if it has no interval, and else stands on the grid. -/
structure Renewed (old : Itimer) (now : UInt64) (new : Itimer) : Prop where
  once : old.intervalUs = 0 → new.active = false
  periodic : old.intervalUs ≠ 0 → ∀ k, old.FirstAfter now k →
    old.expiresUs.toNat + k * old.intervalUs.toNat < 2 ^ 64 →
      new.active = true ∧ new.intervalUs = old.intervalUs ∧
        new.expiresUs.toNat = old.expiresUs.toNat + k * old.intervalUs.toNat

lemma interval_pos (h : timer.intervalUs ≠ 0) : 0 < timer.intervalUs.toNat := by
  rw [Nat.pos_iff_ne_zero, Ne, ← UInt64.toNat_zero, UInt64.toNat_inj]
  exact h

variable (hdue : timer.expiresUs ≤ now)
include hdue
lemma firstAfter_eq (hiv : timer.intervalUs ≠ 0) {k : ℕ} (hk : timer.FirstAfter now k) :
    k = (now.toNat - timer.expiresUs.toNat) / timer.intervalUs.toNat + 1 := by
  have hpos := interval_pos hiv
  have : timer.expiresUs.toNat ≤ now.toNat := hdue
  refine hk.unique ⟨⟨Nat.le_add_left 1 _, ?_⟩, fun j hj => ?_⟩
  · have := Nat.lt_div_mul_add hpos (a := now.toNat - timer.expiresUs.toNat)
    rw [Nat.succ_mul]
    omega
  refine Nat.succ_le_of_lt ((Nat.div_lt_iff_lt_mul hpos).2 ?_)
  have := hj.2
  omega

/-- The new expiry is the next point of the grid. -/
theorem next_of_fits (hiv : timer.intervalUs ≠ 0) {k : ℕ} (hk : timer.FirstAfter now k)
    (hf : timer.expiresUs.toNat + k * timer.intervalUs.toNat < 2 ^ 64) :
    ∃ e : UInt64, timer.next now = { timer with expiresUs := e } ∧
      e.toNat = timer.expiresUs.toNat + k * timer.intervalUs.toNat := by
  have := hk.1.2
  have heq := firstAfter_eq hdue hiv hk
  have hpos := interval_pos hiv
  have : k ≤ k * timer.intervalUs.toNat := Nat.le_mul_of_pos_right k hpos
  have hp : k * timer.intervalUs.toNat < 2 ^ 64 := by omega
  -- neither the number of steps nor the sum wraps
  have hst : ((now - timer.expiresUs) / timer.intervalUs + 1).toNat = k := by
    rw [UInt64.toNat_add, UInt64.toNat_div, UInt64.toNat_sub_of_le _ _ hdue, UInt64.toNat_one,
      ← heq, Nat.mod_eq_of_lt (by omega)]
  have he : (timer.expiresUs +
      ((now - timer.expiresUs) / timer.intervalUs + 1) * timer.intervalUs).toNat =
      timer.expiresUs.toNat + k * timer.intervalUs.toNat := by
    rw [UInt64.toNat_add, UInt64.toNat_mul, hst, Nat.mod_eq_of_lt hp, Nat.mod_eq_of_lt hf]
  refine ⟨_, ?_, he⟩
  rw [next, if_neg hiv]
  rw [if_neg, if_pos hdue, if_neg]
  · rw [UInt64.le_iff_toNat_le, he]
    omega
  rintro ⟨-, hma⟩
  rw [gt_iff_lt, UInt64.lt_iff_toNat_lt, hst, UInt64.toNat_div, Nat.div_lt_iff_lt_mul hpos]
    at hma
  have : (0xffffffffffffffff : UInt64).toNat = 2 ^ 64 - 1 := by decide
  omega

lemma not_due_next : ¬ (timer.next now).Due now := by
  rintro ⟨ha, he⟩
  rw [next] at ha he
  dsimp only at ha he
  split_ifs at ha he with hiv hma hl hwr
  · have := interval_pos hiv
    have hmax : now ≤ 0xffffffffffffffff := Nat.le_of_lt_succ now.toNat_lt
    rw [UInt64.lt_iff_toNat_lt, UInt64.toNat_sub_of_le _ _ hmax] at hwr
    have hsum : (now + timer.intervalUs).toNat ≤ now.toNat := he
    rw [UInt64.toNat_add] at hsum
    have : (0xffffffffffffffff : UInt64).toNat = 2 ^ 64 - 1 := by decide
    omega
  · exact hl he
end Itimer

namespace Scheduler
variable {n : ℕ} {s s' : Scheduler n} {p : Process n} {now : UInt64}
/-- What is done for a timer that is due (lines 438-465). -/
def expire (now : UInt64) (s : Scheduler n) (p : Process n) : Option (Scheduler n) :=
  (s.signalSend p sigalrm).map fun s => s.modify p fun i => { i with timer := i.timer.next now }

lemma checkItimer_of_due {sl : Fin 16} (hp : s.procs sl = some p) (hk : p ≠ kernelProcess)
    (hdue : (s.info p).timer.Due now) : checkItimer now s sl = expire now s p := by
  have ht : ¬ (p = kernelProcess ∨ (s.info p).timer.active = false ∨
      now < (s.info p).timer.expiresUs) := by
    simp [hk, hdue.1, hdue.2]
  rw [checkItimer, hp]
  exact if_neg ht

lemma checkItimer_of_not_due {sl : Fin 16}
    (h : ∀ p, s.procs sl = some p → p ≠ kernelProcess → ¬ (s.info p).timer.Due now) :
    checkItimer now s sl = some s := by
  rw [checkItimer]
  split
  · rfl
  next p hp =>
  refine if_pos ?_
  by_contra ht
  simp only [not_or, Bool.not_eq_false, UInt64.not_lt] at ht
  exact h p hp ht.1 ht.2

lemma signalSend_keeps_timers (hs : s.signalSend p sigalrm = some s') :
    s'.procs = s.procs ∧ ∀ q, (s'.info q).timer = (s.info q).timer := by
  have hse : ∀ q, ((s.modify p (.sent sigalrm)).info q).timer = (s.info q).timer := by
    refine s.modify_field p _ ProcInfo.timer fun i => ?_
    rw [ProcInfo.sent]
    split_ifs <;> rfl
  rw [signalSend_eq (by decide)] at hs
  split_ifs at hs
  · rw [signalWake] at hs
    split_ifs at hs
    · refine ⟨(markReady_unchanged hs).2, fun q => Eq.trans ?_ (hse q)⟩
      exact markReady_field ProcInfo.timer (fun _ => rfl) (fun _ _ => rfl) hs
    · exact some.inj hs ▸ ⟨rfl, hse⟩
  · exact some.inj hs ▸ ⟨rfl, hse⟩

lemma expire_timers (hs : expire now s p = some s') :
    s'.procs = s.procs ∧ (s'.info p).timer = (s.info p).timer.next now ∧
      ∀ q, q ≠ p → (s'.info q).timer = (s.info q).timer := by
  obtain ⟨s1, hse, rfl⟩ := map_eq_some_iff.1 hs
  obtain ⟨hp, ht⟩ := signalSend_keeps_timers hse
  refine ⟨hp, ?_, fun q hq => ?_⟩
  · rw [modify_info_self, ht]
  · rw [modify_info_of_ne _ _ _ hq, ht]

/-- The loop over a part of the table. `D` are the processes whose timers are due; once its timer
was handled, a process that stands in the table twice is not in `D` any more. -/
lemma foldlM_checkItimer (now : UInt64) (pr : Fin 16 → Option (Process n))
    (sl : List (Fin 16)) (D : Process n → Prop) : ∃ due : List (Process n), due.Nodup ∧
      (∀ p, p ∈ due ↔ D p ∧ ∃ slot ∈ sl, pr slot = some p) ∧
      ∀ s, s.procs = pr → (∀ p, D p ↔ p ≠ kernelProcess ∧ (s.info p).timer.Due now) →
        sl.foldlM (checkItimer now) s = due.foldlM (expire now) s := by
  induction sl generalizing D with
  | nil => exact ⟨[], nodup_nil, by simp, fun _ _ _ => rfl⟩
  | cons slot sl ih =>
    by_cases h : ∃ p, pr slot = some p ∧ D p
    · obtain ⟨p, hp, hD⟩ := h
      obtain ⟨due, hnd, hmem, hr⟩ := ih fun q => D q ∧ q ≠ p
      refine ⟨p :: due, nodup_cons.2 ⟨fun h => ((hmem p).1 h).1.2 rfl, hnd⟩, fun q => ?_,
        fun s hs hdue => ?_⟩
      · by_cases hq : q = p
        · simp [hq, hD, hp]
        · simp [hq, hmem, hp, Ne.symm hq]
      · have hp' := (hdue p).1 hD
        rw [foldlM_cons, foldlM_cons, checkItimer_of_due (hs ▸ hp) hp'.1 hp'.2]
        cases hs1 : expire now s p with
        | none => rfl
        | some s1 =>
          obtain ⟨hpr, hse, hot⟩ := expire_timers hs1
          refine hr s1 (hpr.trans hs) fun q => ?_
          by_cases hq : q = p
          · subst hq
            simp [hse, Itimer.not_due_next hp'.2.2]
          · simp [hq, hot q hq, hdue]
    obtain ⟨due, hnd, hmem, hr⟩ := ih D
    refine ⟨due, hnd, fun q => ?_, fun s hs hdue => ?_⟩
    · rw [hmem]
      refine and_congr_right fun hq => ?_
      simpa using fun he => absurd ⟨q, he, hq⟩ h
    rw [foldlM_cons, checkItimer_of_not_due fun p hp hk ht => h ⟨p, hs ▸ hp, (hdue p).2 ⟨hk, ht⟩⟩]
    exact hr s hs hdue

lemma foldlM_expire_timers {d : List (Process n)} (hnd : d.Nodup)
    (hs : d.foldlM (expire now) s = some s') :
    (∀ p ∈ d, (s'.info p).timer = (s.info p).timer.next now) ∧
      (∀ p, p ∉ d → (s'.info p).timer = (s.info p).timer) ∧ s'.procs = s.procs := by
  induction d generalizing s with
  | nil => exact some.inj hs ▸ ⟨by simp, fun _ _ => rfl, rfl⟩
  | cons p d ih =>
    obtain ⟨s1, hs1, hr⟩ := Option.bind_eq_some_iff.1 hs
    obtain ⟨hp, hnd⟩ := nodup_cons.1 hnd
    obtain ⟨hpr, hse, hot⟩ := expire_timers hs1
    obtain ⟨hin, hout, hsa⟩ := ih hnd hr
    refine ⟨fun q hq => ?_, fun q hq => ?_, hsa.trans hpr⟩
    · rcases mem_cons.1 hq with rfl | hq
      · rw [hout q hp, hse]
      · rw [hin q hq, hot q fun he => hp (he ▸ hq)]
    · rw [hout q fun h => hq (mem_cons_of_mem _ h), hot q fun he => hq (he ▸ mem_cons_self)]

lemma checkItimers_due (s : Scheduler n) (now : UInt64) : ∃ due : List (Process n), due.Nodup ∧
    (∀ p, p ∈ due ↔ (p ≠ kernelProcess ∧ (s.info p).timer.Due now) ∧
      ∃ slot, s.procs slot = some p) ∧ s.checkItimers now = due.foldlM (expire now) s := by
  obtain ⟨due, hnd, hmem, hr⟩ := foldlM_checkItimer now s.procs (finRange 16)
    fun p => p ≠ kernelProcess ∧ (s.info p).timer.Due now
  exact ⟨due, hnd, by simpa using hmem, hr s rfl fun _ => Iff.rfl⟩

/-- Every timer that is due, but for the kernel process's, sends `SIGALRM` once and goes on on
its grid. No other timer is changed. The call ends if the queues are in order. -/
theorem checkItimers_exact (s : Scheduler n) (now : UInt64) : ∃ due : List (Process n), due.Nodup ∧
      (∀ p, p ∈ due ↔ (p ≠ kernelProcess ∧ (s.info p).timer.Due now) ∧
        ∃ slot, s.procs slot = some p) ∧
      s.checkItimers now = due.foldlM (expire now) s ∧
      (s.Good none → ∃ s', s.checkItimers now = some s') ∧
      ∀ s', s.checkItimers now = some s' →
        (∀ p ∈ due, (s.info p).timer.Renewed now (s'.info p).timer) ∧
        ∀ p, p ∉ due → (s'.info p).timer = (s.info p).timer := by
  obtain ⟨due, hnd, hmem, hf⟩ := s.checkItimers_due now
  refine ⟨due, hnd, hmem, hf, fun hgood => ?_, fun s' hs' => ?_⟩
  · obtain ⟨s', hs', -⟩ := checkItimers_spec now hgood
    exact ⟨s', hs'⟩
  rw [hf] at hs'
  obtain ⟨hin, hout, -⟩ := foldlM_expire_timers hnd hs'
  refine ⟨fun p hp => ?_, hout⟩
  have hdue := ((hmem p).1 hp).1.2.2
  rw [hin p hp]
  refine ⟨fun hz => ?_, fun hiv k hk hfi => ?_⟩
  · rw [Itimer.next, if_pos hz]
  obtain ⟨e, hne, he⟩ := Itimer.next_of_fits hdue hiv hk hfi
  rw [hne]
  exact ⟨((hmem p).1 hp).1.2.1, rfl, he⟩

/-- A process table with a timer of the kernel process, which is due at the time 0. -/
def kernelTimer : Scheduler 1 :=
  { oneProcess with
    info := fun p => { oneProcess.info p with timer := ⟨true, 0, 0⟩ }
    procs := fun _ => some kernelProcess }

theorem kernel_timer_ignored : (kernelTimer.info kernelProcess).timer.Due 0 ∧
      (∃ slot, kernelTimer.procs slot = some kernelProcess) ∧
      kernelTimer.checkItimers 0 = some kernelTimer :=
  ⟨⟨rfl, by decide⟩, ⟨⟨0, by decide⟩, rfl⟩, rfl⟩
end Scheduler
end Menios.Proc
