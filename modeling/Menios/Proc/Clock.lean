import Menios.Proc.Timers

/-!
# Timers and the wall clock

The system calls that set and read `ITIMER_REAL` (`src/kernel/syscall/syscall.c`, lines 2776-2943)
take the time from `realtime_now_us` (lines 258-265), which `clock_settime` shifts (lines
2699-2731). `scheduler_check_itimers` compares with `unix_time_us` (`proc.c`, lines 255-257).

Results:

* `timers_on_time_iff`: when a timer runs out on time, and when it is read correctly.

**Defect.** A timer that is set after `clock_settime` moved the clock by `x` runs out `x` late,
or early, and a reading is wrong by what the clock was moved since.
-/

namespace Menios.Proc
/-- `realtime_now_us` (lines 258-265), at the time `unixUs`. -/
def realtimeNowUs (unixUs : UInt64) (offset : Int64) : UInt64 :=
  let adjusted := unixUs.toInt64 + offset
  if adjusted < 0 then 0 else adjusted.toUInt64

/-- `struct timeval`. -/
structure Timeval where
  sec : Int64
  usec : Int64

/-- `timeval_to_microseconds` (lines 319-349). -/
def Timeval.toMicroseconds (tv : Timeval) : Option UInt64 :=
  if tv.sec < 0 ∨ tv.usec < 0 ∨ 1000000 ≤ tv.usec then none
  else
    let sec := tv.sec.toUInt64
    if 0xffffffffffffffff / 1000000 < sec ∨
        0xffffffffffffffff - sec * 1000000 < tv.usec.toUInt64 then none
    else some (sec * 1000000 + tv.usec.toUInt64)

namespace Itimer
/-- The timer that `setitimer` and `alarm` leave behind (lines 2830-2848 and 2921-2939). -/
def set (now valueUs intervalUs : UInt64) : Itimer :=
  if valueUs = 0 then ⟨false, 0, intervalUs⟩
  else ⟨true, if 0xffffffffffffffff - now ≤ valueUs then 0xffffffffffffffff else now + valueUs,
    intervalUs⟩

/-- The time that is left (lines 2875-2881). -/
def remaining (timer : Itimer) (now : UInt64) : UInt64 :=
  if timer.active ∧ now < timer.expiresUs then timer.expiresUs - now else 0

variable {tm : Itimer} {d i n : UInt64}
lemma set_expires (hd : d ≠ 0) : (set n d i).active = true ∧
    (set n d i).expiresUs.toNat = min (2 ^ 64 - 1) (n.toNat + d.toNat) := by
  have : (0xffffffffffffffff : UInt64).toNat = 2 ^ 64 - 1 := by decide
  have hnow := n.toNat_lt
  have hsub := UInt64.toNat_sub_of_le _ _ (show n ≤ 0xffffffffffffffff from Nat.le_of_lt_succ hnow)
  rw [set, if_neg hd]
  refine ⟨rfl, ?_⟩
  dsimp only
  split_ifs with h
  · rw [UInt64.le_iff_toNat_le, hsub] at h
    omega
  rw [UInt64.le_iff_toNat_le, hsub] at h
  rw [UInt64.toNat_add]
  omega

/-- The timer is due from the time `e` on, and at no earlier time, if it expires at `e`. -/
lemma due_iff_of_expires (ha : tm.active = true) {e : ℕ} :
    (∀ n, tm.Due n ↔ e ≤ n.toNat) ↔ tm.expiresUs.toNat = e := by
  refine ⟨fun h => ?_, fun h n => ?_⟩
  · have hle := (h _).1 ⟨ha, UInt64.le_refl _⟩
    have he : (UInt64.ofNat e).toNat = e :=
      UInt64.toNat_ofNat_of_lt' (hle.trans_lt tm.expiresUs.toNat_lt)
    have := UInt64.le_iff_toNat_le.1 ((h (.ofNat e)).2 he.ge).2
    omega
  rw [Due, UInt64.le_iff_toNat_le, h]
  exact and_iff_right ha
end Itimer

/-- The scheduler and `realtime_offset_us`. -/
structure Clock (n : ℕ) extends Scheduler n where
  offset : Int64

namespace Clock
variable {n : ℕ} {k k₁ k' : Clock n} {p : Process n} {t d now u : UInt64}
/-- The timer of `p` is set at the time `unixUs`. -/
def setTimer (k : Clock n) (p : Process n) (unixUs valueUs intervalUs : UInt64) : Clock n :=
  { k with toScheduler := k.modify p fun i =>
      { i with timer := .set (realtimeNowUs unixUs k.offset) valueUs intervalUs } }

/-- `syscall_setitimer_handler` (lines 2798-2850); `none` is `EINVAL`. -/
def setitimer (k : Clock n) (p : Process n) (unixUs : UInt64) (value interval : Timeval) :
    Option (Clock n) :=
  value.toMicroseconds.bind fun valueUs => interval.toMicroseconds.map fun intervalUs =>
    k.setTimer p unixUs valueUs intervalUs

/-- `syscall_alarm_handler` (lines 2909-2943), which also returns the seconds that were left. -/
def alarm (k : Clock n) (p : Process n) (unixUs : UInt64) (seconds : UInt32) : Clock n × UInt32 :=
  let delta := (k.info p).timer.remaining (realtimeNowUs unixUs k.offset)
  let left := delta / 1000000 + if delta % 1000000 ≠ 0 then 1 else 0
  (k.setTimer p unixUs (seconds.toUInt64 * 1000000) 0,
    if 0xffffffff < left then 0xffffffff else left.toUInt32)

/-- `syscall_getitimer_handler` (lines 2872-2883): the seconds and microseconds of `it_value`. -/
def getitimer (k : Clock n) (p : Process n) (unixUs : UInt64) : UInt64 × UInt64 :=
  let left := (k.info p).timer.remaining (realtimeNowUs unixUs k.offset)
  (left / 1000000, left % 1000000)

/-- `syscall_clock_settime_handler` (lines 2725-2727). -/
def clockSettime (k : Clock n) (unixUs desiredUs : UInt64) : Clock n :=
  { k with offset := desiredUs.toInt64 - unixUs.toInt64 }

/-- What is reached by setting the clock, and by looking at the timers before the time `e`. -/
inductive Reaches (e : ℕ) (k : Clock n) : Clock n → Prop
  | refl : Reaches e k k
  | clockSettime {k' : Clock n} (unixUs desiredUs) (h : Reaches e k k') :
      Reaches e k (k'.clockSettime unixUs desiredUs)
  | checkItimers {k' : Clock n} {now : UInt64} {s : Scheduler n} (h : Reaches e k k')
      (hnow : now.toNat < e) (hs : k'.checkItimers now = some s) :
      Reaches e k { k' with toScheduler := s }

/-- A timer is set at the time `t`, for `d` microseconds. -/
inductive Armed (k : Clock n) (p : Process n) (t : UInt64) : UInt64 → Clock n → Prop
  | setitimer {d : UInt64} {k₁ : Clock n} (value interval : Timeval)
      (hd : value.toMicroseconds = some d) (h : k.setitimer p t value interval = some k₁) :
      Armed k p t d k₁
  | alarm (seconds : UInt32) : Armed k p t (seconds.toUInt64 * 1000000) (k.alarm p t seconds).1

/-- The call for `now` sends `SIGALRM` to `p`. -/
def Fires (k : Clock n) (p : Process n) (now : UInt64) : Prop :=
  ∃ due : List (Process n), due.Nodup ∧ p ∈ due ∧
    (∀ q ∈ due, (k.info q).timer.Due now) ∧
    k.checkItimers now = due.foldlM (Scheduler.expire now) k.toScheduler

/-- The real-time clock shows the time `t`, or the timer stops at the largest number. -/
def OnTime (k : Clock n) (t d : UInt64) : Prop :=
  t.toNat + d.toNat < 2 ^ 64 ∧ (realtimeNowUs t k.offset = t ∨
    t.toNat + d.toNat = 2 ^ 64 - 1 ∧ t ≤ realtimeNowUs t k.offset)

lemma Armed.timer (h : Armed k p t d k₁) : k₁.procs = k.procs ∧
    ∃ interval, (k₁.info p).timer = .set (realtimeNowUs t k.offset) d interval := by
  have hset : ∀ v i, ((k.setTimer p t v i).info p).timer =
      .set (realtimeNowUs t k.offset) v i := fun v i => by
    rw [setTimer, Scheduler.modify_info_self]
  cases h with
  | setitimer value interval hd h =>
    rw [Clock.setitimer, hd] at h
    obtain ⟨i, -, rfl⟩ := Option.map_eq_some_iff.1 h
    exact ⟨rfl, i, hset d i⟩
  | alarm s => exact ⟨rfl, 0, hset _ 0⟩

lemma fires_iff (hsl : ∃ slot, k.procs slot = some p) (hp : p ≠ kernelProcess) :
    k.Fires p now ↔ (k.info p).timer.Due now := by
  refine ⟨fun ⟨_, _, hmem, hdue, _⟩ => hdue p hmem, fun h => ?_⟩
  obtain ⟨due, hnd, hmem, hr⟩ := k.checkItimers_due now
  exact ⟨due, hnd, (hmem p).2 ⟨⟨hp, h⟩, hsl⟩, fun q hq => ((hmem q).1 hq).1.2, hr⟩

/-- A timer is left alone as long as it is not due. -/
lemma Reaches.timer {e : ℕ} (hdue : ∀ now, (k.info p).timer.Due now → e ≤ now.toNat)
    (h : Reaches e k k') : k'.procs = k.procs ∧ (k'.info p).timer = (k.info p).timer := by
  induction h with
  | refl => exact ⟨rfl, rfl⟩
  | clockSettime _ _ _ ih => exact ih
  | @checkItimers k' now s _ hnow hs ih =>
    obtain ⟨due, hnd, hmem, hr⟩ := k'.checkItimers_due now
    obtain ⟨-, hout, hpr⟩ := Scheduler.foldlM_expire_timers hnd (hr.symm.trans hs)
    refine ⟨hpr.trans ih.1, (hout p fun hp => ?_).trans ih.2⟩
    exact (hdue now (ih.2 ▸ ((hmem p).1 hp).1.2)).not_gt hnow

/-- The clock is right exactly if it was not moved, up to the year 294247. -/
lemma realtimeNowUs_eq_iff {o : Int64} (hpos : 0 < t) (ht : t.toNat < 2 ^ 63) :
    realtimeNowUs t o = t ↔ o = 0 := by
  have hno : ¬ t.toInt64 < 0 := by
    rw [Int64.lt_iff_toInt_lt, Int64.toInt_zero, UInt64.toInt64, ← Int64.toInt_toBitVec,
      BitVec.toInt_eq_toNat_of_lt]
    · omega
    change 2 * t.toNat < 2 ^ 64
    omega
  rw [realtimeNowUs]
  refine ⟨fun h => ?_, ?_⟩
  · split_ifs at h with hneg
    · exact absurd (h ▸ hpos : (0 : UInt64) < 0) (by decide)
    · have he : t.toInt64 + o = t.toInt64 := congrArg UInt64.toInt64 h
      simpa using he
  rintro rfl
  rw [Int64.add_zero]
  exact if_neg hno

/-- The timer runs out on time exactly if the real-time clock was right when it was set, and then
it is read correctly exactly if the clock is right again. -/
theorem timers_on_time_iff (hslot : ∃ slot, k.procs slot = some p) (hp : p ≠ kernelProcess)
    (hd : d ≠ 0) (harmed : Armed k p t d k₁) :
    ((∀ k', Reaches (t.toNat + d.toNat) k₁ k' →
      ∀ now, k'.Fires p now ↔ t.toNat + d.toNat ≤ now.toNat) ↔ k.OnTime t d) ∧
    (k.OnTime t d → ∀ k', Reaches (t.toNat + d.toNat) k₁ k' →
      ∀ u : UInt64, u.toNat < t.toNat + d.toNat →
        ((k'.getitimer p u).1.toNat * 1000000 + (k'.getitimer p u).2.toNat =
          t.toNat + d.toNat - u.toNat ↔ realtimeNowUs u k'.offset = u)) ∧
    ∀ u : UInt64, 0 < u → u.toNat < 2 ^ 63 →
      ∀ offset, realtimeNowUs u offset = u ↔ offset = 0 := by
  obtain ⟨hpr, interval, ht⟩ := harmed.timer
  obtain ⟨ha, hex⟩ := @Itimer.set_expires d interval (realtimeNowUs t k.offset) hd
  rw [← ht] at ha hex
  have he : (k₁.info p).timer.expiresUs.toNat = t.toNat + d.toNat ↔ k.OnTime t d := by
    have hlt := (realtimeNowUs t k.offset).toNat_lt
    rw [hex, OnTime, ← UInt64.toNat_inj, UInt64.le_iff_toNat_le]
    omega
  have hdue := Itimer.due_iff_of_expires ha (e := t.toNat + d.toNat)
  refine ⟨⟨fun h => he.1 (hdue.1 fun now => ?_), fun hon k' hk' now => ?_⟩,
    fun hon k' hk' u hu => ?_, fun u hpos hu offset => realtimeNowUs_eq_iff hpos hu⟩
  · rw [← fires_iff (hpr ▸ hslot) hp]
    exact h k₁ .refl now
  · obtain ⟨hp', ht'⟩ := hk'.timer fun now => (hdue.2 (he.2 hon) now).1
    rw [fires_iff (hp' ▸ hpr ▸ hslot) hp, ht']
    exact hdue.2 (he.2 hon) now
  rw [getitimer, (hk'.timer fun now => (hdue.2 (he.2 hon) now).1).2]
  have := he.2 hon
  have hmi : (1000000 : UInt64).toNat = 1000000 := by decide
  rw [UInt64.toNat_div, UInt64.toNat_mod, hmi, Nat.div_add_mod', ← UInt64.toNat_inj,
    Itimer.remaining]
  split_ifs with h
  · have := UInt64.lt_iff_toNat_lt.1 h.2
    rw [UInt64.toNat_sub_of_le _ _ (UInt64.le_of_lt h.2)]
    omega
  have hnow : ¬ realtimeNowUs u k'.offset < _ := fun hlt => h ⟨ha, hlt⟩
  rw [UInt64.lt_iff_toNat_lt] at hnow
  rw [UInt64.toNat_zero]
  omega

/-- A process table with one process. -/
def oneTimer : Clock 1 := ⟨{ Scheduler.oneProcess with procs := fun _ => some (Fin.last 1) }, 0⟩

theorem alarm_on_time : (oneTimer.alarm 1 1 1).1.Fires 1 1000001 ∧
    ¬ (oneTimer.alarm 1 1 1).1.Fires 1 1000000 := by
  have h := (timers_on_time_iff ⟨0, rfl⟩ (by decide) (by decide) (.alarm 1)).1.2
    ⟨by decide, .inl rfl⟩ (oneTimer.alarm 1 1 1).1 .refl
  exact ⟨(h _).2 (by decide), fun hf => absurd ((h _).1 hf) (by decide)⟩

/-- The clock is set one hour ahead. -/
theorem alarm_late_after_clock_settime :
    ¬ ((oneTimer.clockSettime 1 3600000001).alarm 1 1 1).1.Fires 1 1000001 := by
  rw [fires_iff ⟨0, rfl⟩ (by decide)]
  exact fun h => absurd h.2 (by decide)
end Clock
end Menios.Proc
