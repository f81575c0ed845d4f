import Menios.Proc.Switch

/-!
# Which signal is delivered

`proc_signal_handle_pending` (`src/kernel/proc/signal.c`, lines 305-428) takes the signals in
ascending order and passes over those that are not pending, blocked or ignored. The first
one that is left decides what happens to the process.

Results:

* `deliver_eq`: the loop does what the first effective signal demands, and the other
  effective signals stay pending.
* `handlePending_eq`: the same for `proc_signal_handle_pending`.
-/

namespace Menios.Proc
open Common List

namespace ProcInfo
variable {n : ℕ}
/-- The signal is pending and neither blocked nor ignored. `SIGSTOP` cannot be ignored. -/
def Effective (i : ProcInfo n) (signo : ℕ) : Prop :=
  i.signalPending &&& Scheduler.sigbit signo ≠ 0#32 ∧
    i.signalBlocked &&& Scheduler.sigbit signo = 0#32 ∧
    (i.signalActions signo = .ignore → signo = Scheduler.sigstop)

instance (i : ProcInfo n) (signo : ℕ) : Decidable (i.Effective signo) :=
  inferInstanceAs (Decidable (_ ∧ _ ∧ _))

/-- The first effective signal of `signals`. -/
def firstSignal (i : ProcInfo n) (signals : List ℕ) : Option ℕ :=
  signals.find? fun signo => decide (i.Effective signo)

/-- The set of pending signals is replaced. -/
def withPending (pending : BitVec 32) (i : ProcInfo n) : ProcInfo n :=
  { i with signalPending := pending }
end ProcInfo

namespace Scheduler
variable {n : ℕ} {s : Scheduler n} {p : Process n}
/-! ## Bits -/

lemma not_sigbit_and : ∀ a b : Fin 32, a ≠ b → ~~~sigbit a &&& sigbit b = sigbit b := by
  decide +kernel

lemma clear_and_sigbit (x : BitVec 32) {a b : ℕ} (ha : a < 32) (hb : b < 32) (hab : a ≠ b) :
    x &&& ~~~sigbit a &&& sigbit b = x &&& sigbit b := by
  have hbi := not_sigbit_and ⟨a, ha⟩ ⟨b, hb⟩ (by simpa using hab)
  simp only at hbi
  rw [BitVec.and_assoc, hbi]

lemma effective_clearPending (i : ProcInfo n) {a b : ℕ} (ha : a < 32) (hb : b < 32)
    (hab : a ≠ b) : (i.clearPending (sigbit a)).Effective b ↔ i.Effective b := by
  simp only [ProcInfo.Effective, ProcInfo.clearPending, clear_and_sigbit _ ha hb hab]

/-! ## The loop -/
variable (copied : Bool)
/-- What is done with the signal that was taken (signal.c, lines 326-426). -/
def act (p : Process n) (signo : ℕ) (s : Scheduler n) : Option (Delivery × Scheduler n) :=
  match verdict copied signo ((s.info p).signalActions signo) with
  | .ignore => some (.none, s)
  | .stop => (s.markStopped p signo).map (.stopped, ·)
  | .resume => (s.markContinued p).map (.handled, ·)
  | .exit => (s.exitSignal signo).map (.terminated, ·)
  | .handle => some (.handled, s)

lemma verdict_ignore_iff (sg : ℕ) (a : SigAction) :
    verdict copied sg a = .ignore ↔ a = .ignore ∧ sg ≠ sigstop := by
  cases a with
  | ignore =>
    simp only [verdict, true_and]
    split_ifs with h <;> simp [h]
  | default =>
    simp only [verdict]
    split_ifs <;> simp
  | handler restorer =>
    simp only [verdict]
    split_ifs <;> simp

lemma verdict_resume_iff (j : ℕ) (a : SigAction) :
    verdict copied j a = .resume ↔ a = .default ∧ j = sigcont := by
  cases a with
  | ignore =>
    simp only [verdict]
    split_ifs <;> simp
  | default =>
    simp only [verdict]
    split_ifs with hst hc
    · refine ⟨fun h => absurd h (by simp), fun h => ?_⟩
      rw [h.2] at hst
      exact absurd hst (by decide)
    · simp [hc]
    · simp [hc]
  | handler restorer =>
    simp only [verdict]
    split_ifs <;> simp

lemma modify_modify (s : Scheduler n) (p : Process n) (f g : ProcInfo n → ProcInfo n) :
    (s.modify p f).modify p g = s.modify p (g ∘ f) := by
  simp [modify]

/-- What is done if `first` is the first effective signal. -/
def obey (p : Process n) (first : Option ℕ) (s : Scheduler n) : Option (Delivery × Scheduler n) :=
  match first with
  | none => some (.none, s)
  | some signo => act copied p signo s

lemma effective_iff (i : ProcInfo n) (copied : Bool) {sg : ℕ}
    (hp : i.signalPending &&& sigbit sg ≠ 0#32) (hb : i.signalBlocked &&& sigbit sg = 0#32) :
    i.Effective sg ↔ verdict copied sg (i.signalActions sg) ≠ .ignore := by
  rw [ne_eq, verdict_ignore_iff, not_and, not_not]
  exact ⟨fun h => h.2.2, fun h => ⟨hp, hb, h⟩⟩

/-- The loop does what the first effective signal demands. The other effective signals stay
pending. -/
theorem deliver_eq {sg : List ℕ} (hlt : ∀ a ∈ sg, a < 32)
    (hnd : sg.Nodup) : ∃ pending, deliver copied p sg s =
        obey copied p ((s.info p).firstSignal sg) (s.modify p (.withPending pending)) ∧
      ∀ b < 32, (s.info p).Effective b → (s.info p).firstSignal sg ≠ some b →
        pending &&& sigbit b ≠ 0#32 := by
  induction sg generalizing s with
  | nil =>
    refine ⟨(s.info p).signalPending, ?_, fun b _ hb _ => hb.1⟩
    simp [deliver, obey, ProcInfo.firstSignal, modify, ProcInfo.withPending]
  | cons signo sg ih =>
    obtain ⟨hnot, hn'⟩ := nodup_cons.1 hnd
    have hl' : ∀ a ∈ sg, a < 32 := fun a ha => hlt a (mem_cons_of_mem _ ha)
    have hsi : signo < 32 := hlt signo mem_cons_self
    rw [deliver]
    split_ifs with hsk
    · -- not pending or blocked
      have hin : ¬ (s.info p).Effective signo := fun h =>
        hsk.elim (fun hp => h.1 hp) fun hb => hb h.2.1
      have hf : (s.info p).firstSignal (signo :: sg) = (s.info p).firstSignal sg := by
        rw [ProcInfo.firstSignal, find?_cons_of_neg (by simpa using hin)]
        rfl
      rw [hf]
      exact ih hl' hn'
    rw [not_or, not_not] at hsk
    have heff := effective_iff (s.info p) copied hsk.1 hsk.2
    have hac : ((s.modify p (.clearPending (sigbit signo))).info p).signalActions =
        (s.info p).signalActions := by
      rw [modify_info_self]
      rfl
    by_cases hig : verdict copied signo ((s.info p).signalActions signo) = .ignore
    · have hin : ¬ (s.info p).Effective signo := fun h => heff.1 h hig
      obtain ⟨s1, hs1⟩ := @exists_eq _ (s.modify p (.clearPending (sigbit signo)))
      have hi1 : s1.info p = (s.info p).clearPending (sigbit signo) := by rw [hs1, modify_info_self]
      have hsa : ∀ b < 32, b ≠ signo → ((s1.info p).Effective b ↔ (s.info p).Effective b) := by
        intro b hb hne
        rw [hi1]
        exact effective_clearPending _ hsi hb hne.symm
      have hf1 : (s1.info p).firstSignal sg = (s.info p).firstSignal sg := by
        refine find?_congr fun a ha => ?_
        rw [decide_eq_decide]
        exact hsa a (hl' a ha) fun heq => hnot (heq ▸ ha)
      have hf : (s.info p).firstSignal (signo :: sg) = (s.info p).firstSignal sg := by
        rw [ProcInfo.firstSignal, find?_cons_of_neg (by simpa using hin)]
        rfl
      obtain ⟨pending, hr, hk⟩ := ih (s := s1) hl' hn'
      refine ⟨pending, ?_, fun b hb he hne => ?_⟩
      · have hov : s1.modify p (.withPending pending) = s.modify p (.withPending pending) := by
          rw [hs1, modify_modify]
          rfl
        simp only [← hs1] at hac ⊢
        rw [hac, hig, hf, ← hf1, ← hov]
        exact hr
      · have hbne : b ≠ signo := fun heq => hin (heq ▸ he)
        exact hk b hb ((hsa b hb hbne).2 he) (by rw [hf1, ← hf]; exact hne)
    have hf : (s.info p).firstSignal (signo :: sg) = some signo := by
      rw [ProcInfo.firstSignal, find?_cons_of_pos (by simpa using heff.2 hig)]
    refine ⟨(s.info p).signalPending &&& ~~~sigbit signo, ?_, fun b hb he hne => ?_⟩
    · have hc : s.modify p (.withPending
          ((s.info p).signalPending &&& ~~~sigbit signo)) =
          s.modify p (.clearPending (sigbit signo)) := rfl
      rw [hf, hc, obey, act, hac]
      cases hv : verdict copied signo ((s.info p).signalActions signo) with
      | ignore => exact absurd hv hig
      | stop => simp only [hac, hv]
      | resume => simp only [hac, hv]
      | exit => simp only [hac, hv]
      | handle => simp only [hac, hv]
    have hbne : signo ≠ b := fun heq => hne (heq ▸ hf)
    rw [clear_and_sigbit _ hsi hb hbne]
    exact he.1

/-- All signals, in the order in which they are taken. -/
def allSignals : List ℕ := range' 1 31

theorem handlePending_eq (hu : (s.info p).userMode = true)
    (hp : p ≠ kernelProcess) : ∃ pending, s.handlePending p copied =
        obey copied p ((s.info p).firstSignal allSignals) (s.modify p (.withPending pending)) ∧
      ∀ b < 32, (s.info p).Effective b → (s.info p).firstSignal allSignals ≠ some b →
        pending &&& sigbit b ≠ 0#32 := by
  by_cases hpe : (s.info p).signalPending = 0#32
  · refine ⟨0#32, ?_, fun b _ hb => absurd hb.1 (by simp [hpe])⟩
    have hno : (s.info p).firstSignal allSignals = none := by
      refine find?_eq_none.2 fun a _ => ?_
      simp [ProcInfo.Effective, hpe]
    have hsa : s.modify p (.withPending 0#32) = s := by simp [modify, ProcInfo.withPending, ← hpe]
    rw [hno, hsa, handlePending, if_neg (by simp [hu, hp]), if_pos hpe]
    rfl
  rw [handlePending, if_neg (by simp [hu, hp]), if_neg hpe]
  exact deliver_eq copied (by decide) (by decide)
end Scheduler
end Menios.Proc
