import Menios.Signal.State
import Menios.User.Copy

/-!
# Signal frames

Model of the part of `proc_signal_handle_pending` (`src/kernel/proc/signal.c`, lines 349-427)
that saves the interrupted registers on the user stack and enters a handler, and of
`syscall_sigreturn_handler` (`src/kernel/syscall/syscall.c`, lines 2498-2539), which loads
them again. What they write to and read from user memory goes through `Space.copyOut`,
`Space.write64` and `Space.copyIn`.

Results:

* `savedContext_bytes`, `savedMask_bytes`: what is saved is what is read.
* `buildFrame_eq_true`: where the saved frame is, and how the handler is entered.
-/

namespace Menios.Proc
open Common User Prod Scheduler

/-- `cpu_state_t` (include/kernel/proc.h, lines 93-114), which has the layout of
`syscall_frame_t` and `menios_signal_context_t`. -/
structure CpuState where
  r15 : UInt64
  r14 : UInt64
  r13 : UInt64
  r12 : UInt64
  r11 : UInt64
  r10 : UInt64
  r9 : UInt64
  r8 : UInt64
  rdi : UInt64
  rsi : UInt64
  rbp : UInt64
  rdx : UInt64
  rcx : UInt64
  rbx : UInt64
  rax : UInt64
  rip : UInt64
  cs : UInt64
  rflags : UInt64
  rsp : UInt64
  ss : UInt64
  deriving DecidableEq

namespace CpuState
/-- The registers in memory order. -/
def words (f : CpuState) : List UInt64 :=
  [f.r15, f.r14, f.r13, f.r12, f.r11, f.r10, f.r9, f.r8, f.rdi, f.rsi, f.rbp, f.rdx, f.rcx,
    f.rbx, f.rax, f.rip, f.cs, f.rflags, f.rsp, f.ss]

/-- The registers that an array of words stands for. -/
def ofWords (w : ℕ → UInt64) : CpuState where
  r15 := w 0
  r14 := w 1
  r13 := w 2
  r12 := w 3
  r11 := w 4
  r10 := w 5
  r9 := w 6
  r8 := w 7
  rdi := w 8
  rsi := w 9
  rbp := w 10
  rdx := w 11
  rcx := w 12
  rbx := w 13
  rax := w 14
  rip := w 15
  cs := w 16
  rflags := w 17
  rsp := w 18
  ss := w 19
end CpuState

/-- `menios_signal_frame_t` (include/menios/signal_frame.h, lines 34-39). -/
structure SignalFrame where
  context : CpuState
  signalMask : UInt64
  signo : ℕ
  reserved : ℕ

/-- `sizeof(menios_signal_frame_t)`. -/
def signalFrameSize : ℕ := 176

/-- The frame in memory. -/
def SignalFrame.bytes (f : SignalFrame) : List UInt8 :=
  (f.context.words ++ [f.signalMask]).flatMap wordBytes ++
    (leBytes 4 f.signo ++ leBytes 4 f.reserved)

/-- The field `context` of a frame in memory. -/
def savedContext (bytes : List UInt8) : CpuState := .ofWords (wordAt bytes)

/-- The field `signal_mask` of a frame in memory. -/
def savedMask (bytes : List UInt8) : UInt64 := wordAt bytes 20

/-- `sizeof(siginfo_t)` (include/signal.h, lines 20-28). -/
def siginfoSize : ℕ := 40

/-- The `siginfo_t` of signal.c, lines 379-387. All fields but `si_signo` and `si_pid` are
zero. -/
def siginfoBytes (signo : ℕ) (pid : UInt32) : List UInt8 :=
  leBytes 4 signo ++ List.replicate 28 0 ++ leBytes 4 pid.toNat ++ List.replicate 4 0

/-- `SA_SIGINFO`. -/
def saSiginfo : BitVec 32 := 4#32

/-- `(uint64_t)(-e)`. -/
def errorWord (e : ℤ) : UInt64 := UInt64.ofInt (-e)

namespace Sigaction
/-- The handler wants a `siginfo_t` (signal.c, line 354). -/
def useSiginfo (a : Sigaction) : Bool := a.flags &&& saSiginfo != 0#32

/-- `siginfo_size` (signal.c, line 363). -/
def infoSize (a : Sigaction) : ℕ := if a.useSiginfo then siginfoSize else 0
end Sigaction

/-- `payload_base` (signal.c, lines 364-366). -/
def payloadBase (rsp : UInt64) (a : Sigaction) : UInt64 :=
  (rsp - (signalFrameSize + a.infoSize).toUInt64) &&& ~~~0xf

/-- `frame_base` (signal.c, line 369). -/
def frameBase (rsp : UInt64) (a : Sigaction) : UInt64 := payloadBase rsp a + a.infoSize.toUInt64

/-- What is saved (signal.c, lines 356-361). -/
def signalFrame (frame : CpuState) (blocked : BitVec 32) (signo : ℕ) : SignalFrame where
  context := { frame with rax := errorWord eintr }
  signalMask := UInt64.ofBitVec (blocked.setWidth 64)
  signo := signo
  reserved := 0

/-- The registers with which the handler is entered (signal.c, lines 413-424). -/
def handlerFrame (frame : CpuState) (a : Sigaction) (signo : ℕ) : CpuState :=
  { frame with
    rsp := frameBase frame.rsp a - 8
    rip := a.handler
    rdi := signo.toUInt64
    rsi := if a.useSiginfo then payloadBase frame.rsp a else 0
    rdx := if a.useSiginfo then frameBase frame.rsp a else 0
    rcx := 0
    r8 := 0
    r9 := 0
    rax := errorWord eintr }

/-- The frame is put on the stack and the handler is entered (signal.c, lines 354-426).
`false`: user memory could not be written, and the process is terminated. -/
def buildFrame (s : Space) (pid : UInt32) (blocked : BitVec 32) (a : Sigaction) (signo : ℕ)
    (frame : CpuState) : Option (Bool × CpuState × Space) :=
  match s.copyOut (frameBase frame.rsp a) (signalFrame frame blocked signo).bytes with
  | none => none
  | some (false, s) => some (false, frame, s)
  | some (true, s) =>
    match if a.useSiginfo then s.copyOut (payloadBase frame.rsp a) (siginfoBytes signo pid)
        else some (true, s) with
    | none => none
    | some (false, s) => some (false, frame, s)
    | some (true, s) =>
      match s.write64 (frameBase frame.rsp a - 8) a.restorer with
      | none => none
      | some (false, s) => some (false, frame, s)
      | some (true, s) => some (true, handlerFrame frame a signo, s)

/-- The loop of `proc_signal_handle_pending` (signal.c, lines 319-427), as in
`SignalState.deliver`, with the registers and the memory. -/
def deliverTo (pid : UInt32) :
    List ℕ → SignalState → CpuState → Space → Option (Outcome × SignalState × CpuState × Space)
  | [], st, frame, s => some (.none, st, frame, s)
  | signo :: signals, st, frame, s =>
    if st.pending &&& sigbit signo = 0#32 ∨ st.blocked &&& sigbit signo ≠ 0#32 then
      deliverTo pid signals st frame s
    else
      let st := st.clearPending signo
      let action := st.actions (Fin.ofNat 32 signo)
      match verdict true signo action.kind with
      | .ignore => deliverTo pid signals st frame s
      | .stop => some (.stopped signo, st, frame, s)
      | .resume => some (.continued, st, frame, s)
      | .exit => some (.terminated signo, st, frame, s)
      | .handle =>
        match buildFrame s pid st.blocked action signo frame with
        | none => none
        | some (false, frame, s) => some (.terminated signo, st, frame, s)
        | some (true, frame, s) => some (.handled signo, st, frame, s)

/-- `proc_signal_handle_pending` (signal.c, lines 305-428) with the registers and the memory. -/
def handlePendingTo (user : Bool) (pid : UInt32) (st : SignalState) (frame : CpuState) (s : Space) :
    Option (Outcome × SignalState × CpuState × Space) :=
  if user = false ∨ st.pending = 0#32 then some (.none, st, frame, s)
  else deliverTo pid (List.range' 1 31) st frame s

/-- `syscall_sigreturn_handler` (syscall.c, lines 2498-2539). The first component tells
whether registers were loaded. -/
def sigreturnTo (st : SignalState) (frame : CpuState) (s : Space) :
    Option (Bool × SignalState × CpuState × Space) :=
  if frame.rdi = 0 then some (false, st, { frame with rax := errorWord efault }, s)
  else
    match s.copyIn frame.rdi signalFrameSize with
    | none => none
    | some (false, _, s) => some (false, st, { frame with rax := errorWord efault }, s)
    | some (true, bytes, s) =>
      some (true, st.setBlocked ((savedMask bytes).toBitVec.setWidth 32), savedContext bytes, s)

/-! ## Saving and loading -/

@[simp] lemma length_signalFrame (f : SignalFrame) : f.bytes.length = signalFrameSize := by
  simp [SignalFrame.bytes, CpuState.words, signalFrameSize]

@[simp] lemma length_siginfoBytes (signo : ℕ) (pid : UInt32) :
    (siginfoBytes signo pid).length = siginfoSize := by
  simp [siginfoBytes, siginfoSize]

lemma CpuState.ofWords_of_words {f : CpuState} {g : ℕ → UInt64}
    (h : ∀ (i : ℕ) w, f.words[i]? = some w → g i = w) : CpuState.ofWords g = f := by
  cases f
  simp only [CpuState.ofWords, CpuState.mk.injEq]
  exact ⟨h 0 _ rfl, h 1 _ rfl, h 2 _ rfl, h 3 _ rfl, h 4 _ rfl, h 5 _ rfl, h 6 _ rfl, h 7 _ rfl,
    h 8 _ rfl, h 9 _ rfl, h 10 _ rfl, h 11 _ rfl, h 12 _ rfl, h 13 _ rfl, h 14 _ rfl, h 15 _ rfl,
    h 16 _ rfl, h 17 _ rfl, h 18 _ rfl, h 19 _ rfl⟩

theorem savedContext_bytes (f : SignalFrame) : savedContext f.bytes = f.context := by
  refine CpuState.ofWords_of_words fun i w h => ?_
  have hwo : (f.context.words ++ [f.signalMask])[i]? = some w :=
    List.getElem?_append_left (List.getElem?_eq_some_iff.1 h).1 ▸ h
  exact wordAt_flatMap hwo _

theorem savedMask_bytes (f : SignalFrame) : savedMask f.bytes = f.signalMask := by
  have hwo : (f.context.words ++ [f.signalMask])[20]? = some f.signalMask := rfl
  exact wordAt_flatMap hwo _

/-! ## Entering a handler -/
section
variable {s s' : Space} {p : UInt32} {b : BitVec 32} {a : Sigaction} {sg : ℕ}
  {f f' : CpuState}
/-- The three writes succeeded, in this order. -/
theorem buildFrame_eq_true (h : buildFrame s p b a sg f = some (true, f', s')) :
    f' = handlerFrame f a sg ∧ ∃ s1 s2, s.copyOut (frameBase f.rsp a) (signalFrame f b sg).bytes =
        some (true, s1) ∧ (if a.useSiginfo then s1.copyOut (payloadBase f.rsp a) (siginfoBytes sg p)
        else some (true, s1)) = some (true, s2) ∧
      s2.write64 (frameBase f.rsp a - 8) a.restorer = some (true, s') := by
  rw [buildFrame] at h
  split at h
  · cases h
  · cases h
  next s1 hf =>
  split at h
  · cases h
  · cases h
  next s2 hin =>
  split at h
  · cases h
  · cases h
  next s3 hsl =>
  cases h
  exact ⟨rfl, s1, s2, hf, hin, hsl⟩

lemma buildFrame_eq_false (h : buildFrame s p b a sg f = some (false, f', s')) : f' = f := by
  have hf : ∀ {s1 : Space}, some (false, f, s1) = some (false, f', s') → f' = f := fun he =>
    (mk.inj (mk.inj (Option.some.inj he)).2).1.symm
  rw [buildFrame] at h
  split at h
  · cases h
  · exact hf h
  split at h
  · cases h
  · exact hf h
  split at h
  · cases h
  · exact hf h
  · cases h

/-- A handler is entered through `buildFrame`; otherwise the registers stay. -/
lemma deliverTo_cases {si : List ℕ} {st st' : SignalState} {ot : Outcome}
    (h : deliverTo p si st f s = some (ot, st', f', s')) : (∃ sg, ot = .handled sg ∧
      buildFrame s p st.blocked (st.actions (Fin.ofNat 32 sg)) sg f = some (true, f', s')) ∨
      (∀ sg, ot ≠ .handled sg) ∧ f' = f := by
  -- a verdict other than `handle`
  have hst : ∀ {o : Outcome} {t : SignalState}, (∀ sg, o ≠ .handled sg) →
      some (o, t, f, s) = some (ot, st', f', s') →
      (∀ sg, ot ≠ .handled sg) ∧ f' = f := by
    intro o t ho hso
    obtain ⟨rfl, he⟩ := mk.inj (Option.some.inj hso)
    exact ⟨ho, (mk.inj (mk.inj he).2).1.symm⟩
  induction si generalizing st with
  | nil => exact .inr (hst (by simp) h)
  | cons sg si ih =>
    rw [deliverTo] at h
    by_cases hsk : st.pending &&& sigbit sg = 0#32 ∨ st.blocked &&& sigbit sg ≠ 0#32
    · rw [if_pos hsk] at h
      exact ih h
    rw [if_neg hsk] at h
    dsimp only at h
    split at h
    · have hr := ih h
      exact hr
    · exact .inr (hst (by simp) h)
    · exact .inr (hst (by simp) h)
    · exact .inr (hst (by simp) h)
    split at h
    · cases h
    · next hb =>
      cases h
      exact .inr ⟨by simp, buildFrame_eq_false hb⟩
    next hb =>
    cases h
    exact .inl ⟨sg, rfl, hb⟩

lemma handlePendingTo_cases {u : Bool} {st st' : SignalState} {o : Outcome}
    (h : handlePendingTo u p st f s = some (o, st', f', s')) : (∃ sg, o = .handled sg ∧
      buildFrame s p st.blocked (st.actions (Fin.ofNat 32 sg)) sg f = some (true, f', s')) ∨
      (∀ sg, o ≠ .handled sg) ∧ f' = f := by
  rw [handlePendingTo] at h
  split_ifs at h
  · obtain ⟨rfl, he⟩ := mk.inj (Option.some.inj h)
    obtain ⟨-, he⟩ := mk.inj he
    exact .inr ⟨by simp, (mk.inj he).1.symm⟩
  · exact deliverTo_cases h
end
end Menios.Proc
