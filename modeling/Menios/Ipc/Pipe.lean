import Menios.Common.Errno
import Menios.Common.Ring

/-!
# Pipes

Model of `src/kernel/fs/core/pipe.c`: a ring of 4096 bytes that any number of threads read from
and write to. A call of `pipe_read_impl` or `pipe_write_impl` runs from the acquisition of the
lock to its release or to `kcondvar_wait` as one section. A waiting thread may go on at any
time: both functions look at the pipe again after every wait, so this covers every order of
signals. A thread inside a call holds a reference to its end of the pipe, so the ends are
closed, and the pipe is freed, behind its back at no time.

The bytes that were appended and consumed are recorded beside the pipe, each appended byte with
the number of its `pipe_write_impl` call.

Results:

* `readSection_spec`, `writeSection_spec`: what one section of a call does to the ring.
* `reached_fifo`: the pipe is a queue of bytes in every reachable state.
-/

namespace Menios.Ipc
open Common List Function

/-- `PIPE_BUFFER_SIZE`. -/
def pipeBufferSize : ℕ := 4096

/-- `EPIPE`. -/
def epipe : ℤ := 32

/-- `pipe_shared_t` without its times. -/
structure Pipe where
  buffer : ℕ → UInt8
  head : ℕ
  tail : ℕ
  count : ℕ
  readers : ℕ
  writers : ℕ

/-- How a section ends: the call returns, or it waits with `total` bytes done. -/
inductive Outcome
  | returns (value : ℤ)
  | waits (total : ℕ)
  deriving DecidableEq

namespace Pipe
/-- `pipe_shared_init` (lines 47-61). -/
def init (buffer : ℕ → UInt8) : Pipe := ⟨buffer, 0, 0, 0, 1, 1⟩

/-- The loop of `pipe_shared_write` (lines 64-67). -/
def writeBytes : List UInt8 → Pipe → Pipe
  | [], p => p
  | b :: data, p =>
    writeBytes data { p with
      buffer := update p.buffer p.tail b
      tail := (p.tail + 1) % pipeBufferSize }

/-- `pipe_shared_write` (lines 63-69). -/
def sharedWrite (p : Pipe) (data : List UInt8) : Pipe :=
  { writeBytes data p with count := (writeBytes data p).count + data.length }

/-- `pipe_shared_read` (lines 71-79) with `length` bytes to go. -/
def sharedRead : ℕ → Pipe → List UInt8 × Pipe
  | 0, p => ([], p)
  | length + 1, p =>
    if p.count = 0 then ([], p)
    else
      let rest := sharedRead length { p with
        head := (p.head + 1) % pipeBufferSize
        count := p.count - 1 }
      (p.buffer p.head :: rest.1, rest.2)

/-- `pipe_read_impl` (lines 81-123) from the acquisition of the lock, or from the return of
`kcondvar_wait`, on, and the bytes that it reads. A loop without end has no result. -/
def readSection (p : Pipe) (length total : ℕ) : Option (Outcome × List UInt8 × Pipe) :=
  if p.count = 0 then
    if p.writers = 0 then some (.returns total, [], p) else some (.waits total, [], p)
  else
    let chunk := min p.count (length - total)
    let r := p.sharedRead chunk
    let total := total + r.1.length
    if 0 < total then some (.returns total, r.1, r.2) else none

/-- `pipe_write_impl` (lines 125-173) from the acquisition of the lock on, or from the return
of `kcondvar_wait` on (`resumed`), and the bytes that it appends. `fuel` bounds the rounds
of the loop. -/
def writeFrom (data : List UInt8) : ℕ → Bool → Pipe → ℕ → Option (Outcome × List UInt8 × Pipe)
  | 0, _, _, _ => none
  | fuel + 1, resumed, p, total =>
    if resumed = false ∧ ¬ total < data.length then some (.returns total, [], p)
    else if resumed = false ∧ p.readers = 0 then
      some (.returns (if 0 < total then total else -epipe), [], p)
    else if p.count = pipeBufferSize then
      if p.readers = 0 then some (.returns (-epipe), [], p) else some (.waits total, [], p)
    else
      let space := pipeBufferSize - p.count
      let remaining := data.length - total
      let chunk := (data.drop total).take (min space remaining)
      let p := p.sharedWrite chunk
      if chunk.length = 0 then some (.returns total, [], p)
      else (writeFrom data fuel false p (total + chunk.length)).map fun r =>
        (r.1, chunk ++ r.2.1, r.2.2)

/-- Three rounds are enough: the first fills the pipe or ends the call. -/
def writeSection (p : Pipe) (data : List UInt8) (resumed : Bool) (total : ℕ) :
    Option (Outcome × List UInt8 × Pipe) :=
  writeFrom data 3 resumed p total

/-- `pipe_close_impl` (lines 175-212). -/
def close (p : Pipe) (isReader : Bool) : Pipe :=
  if isReader then { p with readers := p.readers - 1 } else { p with writers := p.writers - 1 }

/-- The bytes in the pipe, the oldest first. -/
def contents (p : Pipe) : List UInt8 := Ring.contents pipeBufferSize p.buffer p.head p.count

/-! ## Sections -/

/-- The queue is laid out in the ring. -/
structure Valid (p : Pipe) : Prop where
  head : p.head < pipeBufferSize
  count : p.count ≤ pipeBufferSize
  tail : (p.head + p.count) % pipeBufferSize = p.tail

lemma valid_init (b : ℕ → UInt8) : (init b).Valid := ⟨Nat.zero_lt_succ _, Nat.zero_le _, rfl⟩

/-- The loop of `pipe_shared_write` does not look at `count`. -/
lemma writeBytes_setCount (dt : List UInt8) (p : Pipe) (n : ℕ) :
    writeBytes dt { p with count := n } = { writeBytes dt p with count := n } := by
  induction dt generalizing p with
  | nil => rfl
  | cons b dt ih => rw [writeBytes, writeBytes, ← ih]

lemma count_writeBytes (dt : List UInt8) (p : Pipe) : (writeBytes dt p).count = p.count := by
  induction dt generalizing p with
  | nil => rfl
  | cons b dt ih => rw [writeBytes, ih]

variable {p : Pipe} {d : List UInt8}
lemma sharedWrite_spec (h : p.Valid) (hr : p.count + d.length ≤ pipeBufferSize) :
    (p.sharedWrite d).Valid ∧ (p.sharedWrite d).contents = p.contents ++ d ∧
      (p.sharedWrite d).count = p.count + d.length ∧
      (p.sharedWrite d).readers = p.readers ∧ (p.sharedWrite d).writers = p.writers := by
  induction d generalizing p with
  | nil =>
    have hp : p.sharedWrite [] = p := rfl
    rw [hp]
    exact ⟨h, (append_nil _).symm, rfl, rfl, rfl⟩
  | cons b d ih =>
    rw [length_cons] at hr
    -- the queue with its first new byte
    obtain ⟨q, hq⟩ : ∃ q : Pipe, q = { p with
        buffer := update p.buffer p.tail b
        tail := (p.tail + 1) % pipeBufferSize
        count := p.count + 1 } := ⟨_, rfl⟩
    have hv : q.Valid := by
      rw [hq]
      refine ⟨h.head, show p.count + 1 ≤ pipeBufferSize by omega, ?_⟩
      show (p.head + (p.count + 1)) % pipeBufferSize = (p.tail + 1) % pipeBufferSize
      rw [← h.tail, Nat.mod_add_mod, Nat.add_assoc]
    have hcontents : q.contents = p.contents ++ [b] := by
      rw [hq]
      exact Ring.contents_push p.buffer b (by omega) h.tail
    have hc : q.count = p.count + 1 := by rw [hq]
    have hst : p.sharedWrite (b :: d) = q.sharedWrite d := by
      have hset := writeBytes_setCount d { p with
        buffer := update p.buffer p.tail b
        tail := (p.tail + 1) % pipeBufferSize } (p.count + 1)
      have hne : p.count + (d.length + 1) = p.count + 1 + d.length := by omega
      rw [hq, sharedWrite, sharedWrite, hset, writeBytes, count_writeBytes, length_cons, hne]
    obtain ⟨h1, h2, h3, h4, h5⟩ := ih hv (by omega)
    rw [hst]
    refine ⟨h1, ?_, ?_, ?_, ?_⟩
    · rw [h2, hcontents, append_assoc]
      rfl
    · rw [h3, hc, length_cons]
      omega
    · rw [h4, hq]
    · rw [h5, hq]

lemma sharedRead_spec (l : ℕ) (h : p.Valid) : (p.sharedRead l).2.Valid ∧
      p.contents = (p.sharedRead l).1 ++ (p.sharedRead l).2.contents ∧
      (p.sharedRead l).1.length = min p.count l ∧ (p.sharedRead l).2.readers = p.readers ∧
      (p.sharedRead l).2.writers = p.writers := by
  induction l generalizing p with
  | zero => exact ⟨h, rfl, by simp [sharedRead], rfl, rfl⟩
  | succ l ih =>
    rw [sharedRead]
    split_ifs with hz
    · exact ⟨h, rfl, by simp [hz], rfl, rfl⟩
    obtain ⟨q, hq⟩ : ∃ q : Pipe, q = { p with
        head := (p.head + 1) % pipeBufferSize
        count := p.count - 1 } := ⟨_, rfl⟩
    have hv : q.Valid := by
      rw [hq]
      refine ⟨Nat.mod_lt _ (by decide), (Nat.sub_le _ _).trans h.count, ?_⟩
      show ((p.head + 1) % pipeBufferSize + (p.count - 1)) % pipeBufferSize = p.tail
      rw [← h.tail, Nat.mod_add_mod]
      congr 1
      omega
    have hcontents : p.contents = p.buffer p.head :: q.contents := by
      rw [hq, contents, show p.count = p.count - 1 + 1 by omega, Ring.contents_succ p.buffer h.head]
      rfl
    obtain ⟨h1, h2, h3, h4, h5⟩ := ih hv
    rw [← hq]
    refine ⟨h1, ?_, ?_, ?_, ?_⟩
    · rw [hcontents, h2]
      rfl
    · have hc : q.count = p.count - 1 := by rw [hq]
      rw [length_cons, h3, hc]
      omega
    · rw [h4, hq]
    · rw [h5, hq]

/-- A read of a positive length that has read nothing: it waits for an empty pipe, gives 0 when
no writer is left, and otherwise takes bytes from the front. -/
theorem readSection_spec (h : p.Valid) {l : ℕ} (hle : 0 < l) :
    ∃ o bytes q, p.readSection l 0 = some (o, bytes, q) ∧ q.Valid ∧
      p.contents = bytes ++ q.contents ∧ q.readers = p.readers ∧ q.writers = p.writers ∧
      (o = .waits 0 ∧ bytes = [] ∧ q = p ∨
        o = .returns bytes.length ∧ bytes.length = min p.count l ∧
          (p.count = 0 → p.writers = 0)) := by
  unfold readSection
  by_cases hz : p.count = 0
  · rw [if_pos hz]
    by_cases hwr : p.writers = 0
    · rw [if_pos hwr]
      exact ⟨_, _, _, rfl, h, rfl, rfl, rfl, .inr ⟨rfl, by simp [hz], fun _ => hwr⟩⟩
    · rw [if_neg hwr]
      exact ⟨_, _, _, rfl, h, rfl, rfl, rfl, .inl ⟨rfl, rfl, rfl⟩⟩
  rw [if_neg hz]
  obtain ⟨h1, h2, h3, h4, h5⟩ := sharedRead_spec (min p.count (l - 0)) h
  have hpos : 0 < 0 + (p.sharedRead (min p.count (l - 0))).1.length := by omega
  rw [if_pos hpos]
  refine ⟨_, _, _, rfl, h1, h2, h4, h5, .inr ⟨by rw [Nat.zero_add], by omega, fun hc => ?_⟩⟩
  exact absurd hc hz

/-- The rounds of a write that append nothing: all is written, no reader is left, or the pipe is
full. -/
lemma writeFrom_stop {t : ℕ} (f : ℕ) {r : Bool}
    (hst : (r = false ∧ (t = d.length ∨ p.readers = 0)) ∨ p.count = pipeBufferSize)
    (hre : r = true → t < d.length) : ∃ o, writeFrom d (f + 1) r p t = some (o, [], p) ∧
      ∀ t', o = .waits t' → t' = t ∧ t < d.length := by
  rw [writeFrom]
  by_cases h1 : r = false ∧ ¬ t < d.length
  · rw [if_pos h1]
    exact ⟨_, rfl, fun t' hw => by simp at hw⟩
  rw [if_neg h1]
  by_cases h2 : r = false ∧ p.readers = 0
  · rw [if_pos h2]
    exact ⟨_, rfl, fun t' hw => by simp at hw⟩
  rw [if_neg h2]
  have hf : p.count = pipeBufferSize := by
    rcases hst with ⟨hr, hl | hrd⟩ | hf
    · exact absurd ⟨hr, by omega⟩ h1
    · exact absurd ⟨hr, hrd⟩ h2
    · exact hf
  rw [if_pos hf]
  by_cases h3 : p.readers = 0
  · rw [if_pos h3]
    exact ⟨_, rfl, fun t' hw => by simp at hw⟩
  rw [if_neg h3]
  refine ⟨_, rfl, fun t' hw => ⟨(Outcome.waits.inj hw).symm, ?_⟩⟩
  cases r with
  | true => exact hre rfl
  | false => exact not_not.1 fun hnot => h1 ⟨rfl, hnot⟩

/-- A write with bytes to go: it appends nothing, or as many bytes as there is room for. -/
theorem writeSection_spec (h : p.Valid) {t : ℕ} (ht : t < d.length) (r : Bool) :
    ∃ o bytes q, p.writeSection d r t = some (o, bytes, q) ∧ q.Valid ∧
      q.contents = p.contents ++ bytes ∧ q.readers = p.readers ∧ q.writers = p.writers ∧
      (∀ t', o = .waits t' → t' = t + bytes.length ∧ t' < d.length) ∧
      (bytes = [] ∨ p.count < pipeBufferSize ∧
        bytes = (d.drop t).take (pipeBufferSize - p.count)) := by
  by_cases hst : (r = false ∧ (t = d.length ∨ p.readers = 0)) ∨
      p.count = pipeBufferSize
  · obtain ⟨o, hr, hwa⟩ := writeFrom_stop 2 hst fun _ => ht
    refine ⟨o, [], p, hr, h, by simp, rfl, rfl, fun t' hw => ?_, .inl rfl⟩
    obtain ⟨rfl, hlt⟩ := hwa t' hw
    exact ⟨rfl, hlt⟩
  rw [not_or, not_and, not_or] at hst
  obtain ⟨hnot, hf⟩ := hst
  have := h.count
  obtain ⟨ch, hch⟩ : ∃ ch, ch =
      (d.drop t).take (min (pipeBufferSize - p.count) (d.length - t)) := ⟨_, rfl⟩
  have : ch.length = min (pipeBufferSize - p.count) (d.length - t) := by
    rw [hch, length_take, length_drop]
    omega
  have hb : ch = (d.drop t).take (pipeBufferSize - p.count) := by
    rw [hch, ← length_drop, take_eq_take_iff]
    omega
  obtain ⟨h1, h2, h3, h4, h5⟩ := sharedWrite_spec h (show p.count + ch.length ≤ pipeBufferSize by omega)
  -- the next round has nothing to append
  have hne : (false = false ∧ (t + ch.length = d.length ∨
      (p.sharedWrite ch).readers = 0)) ∨ (p.sharedWrite ch).count = pipeBufferSize := by
    by_cases ha : t + ch.length = d.length
    · exact .inl ⟨rfl, .inl ha⟩
    right
    rw [h3]
    omega
  obtain ⟨o, hr, hwa⟩ := writeFrom_stop 1 hne (by simp)
  refine ⟨o, ch, p.sharedWrite ch, ?_, h1, h2, h4, h5, fun t' hw => ?_, .inr ⟨by omega, hb⟩⟩
  · rw [writeSection, writeFrom]
    rw [if_neg (fun hc => (hc.2 ht).elim), if_neg (fun hc => (hnot hc.1).2 hc.2), if_neg hf]
    dsimp only
    rw [← hch, if_neg (by omega), hr, Option.map_some, append_nil]
  obtain ⟨rfl, hlt⟩ := hwa t' hw
  exact ⟨rfl, hlt⟩
end Pipe

/-! ## Threads -/

/-- What a thread is doing. A write has the number of its call. -/
inductive Call
  | idle
  | read (length total : ℕ)
  | write (call : ℕ) (data : List UInt8) (total : ℕ) (resumed : Bool)

/-- A call returned. -/
structure Return where
  isRead : Bool
  length : ℕ
  value : ℤ
  deriving DecidableEq

/-- The pipe and its users. The last fields record the lengths of the write calls, the bytes
that were appended with the numbers of their calls, and the bytes that were consumed. -/
structure PipeSystem (ι : Type*) where
  pipe : Pipe
  calls : ι → Call
  freed : Bool
  lengths : List ℕ
  appended : List (ℕ × UInt8)
  consumed : List UInt8

/-- A thread calls `pipe_read_impl` or `pipe_write_impl` on one of the ends, or runs its next
section, or an end is closed. -/
inductive PipeStep (ι : Type*)
  | startRead (thread : ι) (isReader : Bool) (length : ℕ)
  | startWrite (thread : ι) (isReader : Bool) (data : List UInt8)
  | run (thread : ι)
  | close (isReader : Bool)

namespace PipeSystem
variable {ι : Type*} [DecidableEq ι]
/-- The pipe that `pipe_create` makes, in memory that `kmalloc` does not clear. -/
def initial (ι : Type*) (buffer : ℕ → UInt8) : PipeSystem ι :=
  ⟨Pipe.init buffer, fun _ => .idle, false, [], [], []⟩

/-- The thread runs the sections of its call. -/
def runThread (s : PipeSystem ι) (i : ι) : Option (PipeSystem ι × Option Return) :=
  match s.calls i with
  | .idle => none
  | .read length total =>
    (s.pipe.readSection length total).map fun r =>
      let s := { s with pipe := r.2.2, consumed := s.consumed ++ r.2.1 }
      match r.1 with
      | .returns value => ({ s with calls := update s.calls i .idle }, some ⟨true, length, value⟩)
      | .waits total => ({ s with calls := update s.calls i (.read length total) }, none)
  | .write call data total resumed =>
    (s.pipe.writeSection data resumed total).map fun r =>
      let s := { s with pipe := r.2.2, appended := s.appended ++ r.2.1.map (call, ·) }
      match r.1 with
      | .returns value =>
        ({ s with calls := update s.calls i .idle }, some ⟨false, data.length, value⟩)
      | .waits total => ({ s with calls := update s.calls i (.write call data total true) }, none)

/-- One step, and the call that returns in it. -/
def step (s : PipeSystem ι) : PipeStep ι → Option (PipeSystem ι × Option Return)
  | .startRead i isReader length =>
    match s.freed, s.calls i with
    | false, .idle =>
      if length = 0 then some (s, some ⟨true, length, 0⟩)
      else if isReader = false then some (s, some ⟨true, length, -ebadf⟩)
      else some ({ s with calls := update s.calls i (.read length 0) }, none)
    | _, _ => none
  | .startWrite i isReader data =>
    match s.freed, s.calls i with
    | false, .idle =>
      if data.length = 0 then some (s, some ⟨false, 0, 0⟩)
      else if isReader = true then some (s, some ⟨false, data.length, -ebadf⟩)
      else
        some ({ s with
          calls := update s.calls i (.write s.lengths.length data 0 false)
          lengths := s.lengths ++ [data.length] }, none)
    | _, _ => none
  | .run i => if s.freed then none else s.runThread i
  | .close isReader =>
    if s.freed then none
    else
      let pipe := s.pipe.close isReader
      some ({ s with
        pipe := pipe
        freed := decide (pipe.readers = 0 ∧ pipe.writers = 0) }, none)

/-- A state that threads reach from a new pipe. -/
inductive Reached : PipeSystem ι → Prop
  | initial (buffer : ℕ → UInt8) : Reached (initial ι buffer)
  | step {s s' : PipeSystem ι} {a : PipeStep ι} {r : Option Return} (h : Reached s)
      (hstep : s.step a = some (s', r)) : Reached s'

/-- The bytes that were appended. -/
def stream (s : PipeSystem ι) : List UInt8 := s.appended.map Prod.snd

/-- The pipe holds what was appended and not consumed, reads in progress have consumed nothing,
and writes in progress have bytes to go. -/
structure Fifo (s : PipeSystem ι) : Prop where
  valid : s.pipe.Valid
  queue : s.stream = s.consumed ++ s.pipe.contents
  reads : ∀ i length total, s.calls i = .read length total → 0 < length ∧ total = 0
  writes : ∀ i call data total resumed, s.calls i = .write call data total resumed →
    total < data.length

omit [DecidableEq ι] in
lemma fifo_initial (b : ℕ → UInt8) : (initial ι b).Fifo :=
  ⟨Pipe.valid_init b, rfl, fun _ _ _ h => by simp [initial] at h,
    fun _ _ _ _ _ h => by simp [initial] at h⟩

section
variable {s : PipeSystem ι} {i : ι} {c : Call}
lemma fifo_update (h : s.Fifo) {s' : PipeSystem ι} (hc : s'.calls = update s.calls i c)
    (hv : s'.pipe.Valid) (hq : s'.stream = s'.consumed ++ s'.pipe.contents)
    (hr : ∀ length total, c = .read length total → 0 < length ∧ total = 0)
    (hwr : ∀ call data total r, c = .write call data total r → total < data.length) : s'.Fifo := by
  refine ⟨hv, hq, fun j length total hj => ?_, fun j call data total r hj => ?_⟩
  · rw [hc, update_apply] at hj
    split_ifs at hj with he
    · exact hr length total hj
    · exact h.reads j length total hj
  rw [hc, update_apply] at hj
  split_ifs at hj with he
  · exact hwr call data total r hj
  · exact h.writes j call data total r hj

/-- What a section of a call does. A read that returns 0 found an empty pipe and no writer. -/
lemma runThread_spec (h : s.Fifo) (hi : s.calls i ≠ .idle) :
    ∃ s' r, s.runThread i = some (s', r) ∧ s'.Fifo ∧
      ∀ rt, r = some rt → rt.isRead = true → rt.value = 0 →
        s.pipe.count = 0 ∧ s.pipe.writers = 0 := by
  cases hc : s.calls i with
  | idle => exact absurd hc hi
  | read length total =>
    obtain ⟨hle, rfl⟩ := h.reads i length total hc
    obtain ⟨o, bytes, q, hrun, hv, hcontents, -, -, hca⟩ := Pipe.readSection_spec h.valid hle
    have hq : s.stream = (s.consumed ++ bytes) ++ q.contents := by
      rw [h.queue, hcontents, append_assoc]
    unfold runThread
    rw [hc]
    dsimp only
    rw [hrun, Option.map_some]
    rcases hca with ⟨rfl, rfl, rfl⟩ | ⟨rfl, hl, hz⟩
    · refine ⟨_, _, rfl, fifo_update h rfl hv hq (fun l t he => ?_) (fun _ _ _ _ he => ?_),
        fun rt hr => by simp at hr⟩
      · obtain ⟨rfl, rfl⟩ := Call.read.inj he
        exact ⟨hle, rfl⟩
      · cases he
    refine ⟨_, _, rfl, fifo_update h rfl hv hq (fun _ _ he => by simp at he)
      (fun _ _ _ _ he => by simp at he), fun rt hr _ hvl => ?_⟩
    cases hr
    have hcnt : s.pipe.count = 0 := by
      have : (bytes.length : ℤ) = 0 := hvl
      omega
    exact ⟨hcnt, hz hcnt⟩
  | write call data total rs =>
    obtain ⟨o, bytes, q, hrun, hv, hcontents, -, -, hwa, -⟩ :=
      Pipe.writeSection_spec h.valid (h.writes i call data total rs hc) rs
    have hq : (s.appended ++ bytes.map (call, ·)).map Prod.snd = s.consumed ++ q.contents := by
      have hb : (bytes.map (Prod.mk call)).map Prod.snd = bytes := by
        rw [map_map]
        exact map_id bytes
      rw [map_append, hb, hcontents, ← append_assoc, ← h.queue]
      rfl
    unfold runThread
    rw [hc]
    dsimp only
    rw [hrun, Option.map_some]
    cases o with
    | returns value =>
      refine ⟨_, _, rfl, fifo_update h rfl hv hq (fun _ _ he => by simp at he)
        (fun _ _ _ _ he => by simp at he), fun rt hr hre => ?_⟩
      cases hr
      cases hre
    | waits t' =>
      refine ⟨_, _, rfl, fifo_update h rfl hv hq (fun _ _ he => by simp at he)
        (fun c d t r he => ?_), fun rt hr => by simp at hr⟩
      obtain ⟨-, rfl, rfl, -⟩ := Call.write.inj he
      exact (hwa t' rfl).2
end

lemma step_spec {s s' : PipeSystem ι} {a : PipeStep ι} {r : Option Return} (h : s.Fifo)
    (hst : s.step a = some (s', r)) :
    s'.Fifo ∧ ∀ rt, r = some rt → rt.isRead = true → 0 < rt.length → rt.value = 0 →
      s.pipe.count = 0 ∧ s.pipe.writers = 0 := by
  cases a with
  | startRead i ir length =>
    rw [step] at hst
    split at hst
    · split_ifs at hst with h1 h2
      · cases hst
        refine ⟨h, fun rt hret _ hpos => ?_⟩
        cases hret
        exact absurd h1 (Nat.pos_iff_ne_zero.1 hpos)
      · cases hst
        refine ⟨h, fun rt hret _ _ hv => ?_⟩
        cases hret
        exact absurd (show -ebadf = 0 from hv) (by decide)
      · cases hst
        refine ⟨fifo_update h rfl h.valid h.queue (fun l t he => ?_) (fun _ _ _ _ he => ?_),
          fun rt hret => by simp at hret⟩
        · obtain ⟨rfl, rfl⟩ := Call.read.inj he
          exact ⟨Nat.pos_of_ne_zero h1, rfl⟩
        · cases he
    · cases hst
  | startWrite i ir data =>
    rw [step] at hst
    split at hst
    · split_ifs at hst with h1 h2
      · cases hst
        refine ⟨h, fun rt hret hre => ?_⟩
        cases hret
        cases hre
      · cases hst
        refine ⟨h, fun rt hret hre => ?_⟩
        cases hret
        cases hre
      · cases hst
        refine ⟨fifo_update h rfl h.valid h.queue (fun _ _ he => ?_) (fun c d t r he => ?_),
          fun rt hret => by simp at hret⟩
        · cases he
        · obtain ⟨-, rfl, rfl, -⟩ := Call.write.inj he
          exact Nat.pos_of_ne_zero h1
    · cases hst
  | run i =>
    rw [step] at hst
    split_ifs at hst
    by_cases hi : s.calls i = .idle
    · rw [runThread, hi] at hst
      cases hst
    obtain ⟨s1, r1, hrun, hf, hret⟩ := runThread_spec h hi
    cases hrun.symm.trans hst
    exact ⟨hf, fun rt hr hre _ hv => hret rt hr hre hv⟩
  | close ir =>
    rw [step] at hst
    split_ifs at hst
    cases hst
    have hp : (s.pipe.close ir).Valid ∧ (s.pipe.close ir).contents = s.pipe.contents := by
      rw [Pipe.close]
      split_ifs
      · exact ⟨{ h.valid with }, rfl⟩
      · exact ⟨{ h.valid with }, rfl⟩
    refine ⟨⟨hp.1, ?_, h.reads, h.writes⟩, fun rt hret => by simp at hret⟩
    rw [hp.2]
    exact h.queue

lemma Reached.fifo {s : PipeSystem ι} (h : Reached s) : s.Fifo := by
  induction h with
  | initial buffer => exact fifo_initial buffer
  | step _ hst ih => exact (step_spec ih hst).1

/-- In every reachable state the bytes consumed are a prefix of the bytes appended, the pipe
holds the rest, and its layout is that of a ring; every call in progress can run; and a read
of a positive length gives 0 only when the pipe is empty and no writer is left. -/
theorem reached_fifo {s : PipeSystem ι} (h : Reached s) :
    (s.consumed <+: s.stream ∧ s.stream = s.consumed ++ s.pipe.contents ∧
      s.pipe.count ≤ 4096 ∧ (s.pipe.head + s.pipe.count) % 4096 = s.pipe.tail) ∧
    (∀ i, s.freed = false → s.calls i ≠ .idle → ∃ s' r, s.step (.run i) = some (s', r)) ∧
    ∀ a s' ret, s.step a = some (s', some ret) → ret.isRead = true → 0 < ret.length →
      ret.value = 0 → s.pipe.contents = [] ∧ s.pipe.writers = 0 := by
  have hf := h.fifo
  refine ⟨⟨⟨s.pipe.contents, hf.queue.symm⟩, hf.queue, hf.valid.count,
    hf.valid.tail⟩, fun i hfr hi => ?_, fun a s' ret hst hre hpos hv => ?_⟩
  · obtain ⟨s', r, hr, -⟩ := runThread_spec hf hi
    refine ⟨s', r, ?_⟩
    rw [step, hfr]
    exact hr
  obtain ⟨hc, hwr⟩ := (step_spec hf hst).2 ret rfl hre hpos hv
  refine ⟨?_, hwr⟩
  rw [Pipe.contents, hc]
  rfl

/-- The state after the steps. -/
def runSteps : List (PipeStep ι) → PipeSystem ι → Option (PipeSystem ι)
  | [], s => some s
  | a :: rest, s => (s.step a).bind fun r => runSteps rest r.1

lemma Reached.runSteps {st : List (PipeStep ι)} {s s' : PipeSystem ι} (h : Reached s)
    (hr : PipeSystem.runSteps st s = some s') : Reached s' := by
  induction st generalizing s with
  | nil =>
    cases hr
    exact h
  | cons a st ih =>
    obtain ⟨⟨s1, r⟩, hst, hre⟩ := Option.bind_eq_some_iff.1 hr
    exact ih (h.step hst) hre

/-- One thread writes a byte. -/
def oneByteSteps : List (PipeStep ℕ) := [.startWrite 0 false [7], .run 0]

/-- The byte is written, then two more, and two are read. -/
theorem reached_fifo_oneByte : ∃ s : PipeSystem ℕ, Reached s ∧ s.stream = [7, 8, 9] ∧
    s.consumed = [7, 8] ∧ s.stream = s.consumed ++ s.pipe.contents := by
  have h : Reached (_ : PipeSystem ℕ) := .runSteps (.initial fun _ => 0)
    (show runSteps (oneByteSteps ++ [.startWrite 1 false [8, 9], .run 1, .startRead 2 true 2,
      .run 2]) (initial ℕ fun _ => 0) = some _ from rfl)
  exact ⟨_, h, rfl, rfl, (reached_fifo h).1.2.1⟩

/-- A read of length 0 gives 0 while a byte is in the pipe and its writer is there. -/
theorem read_nothing_gives_zero : ∃ s s' : PipeSystem ℕ,
    Reached s ∧ s.pipe.contents = [7] ∧ s.pipe.writers = 1 ∧
      s.step (.startRead 1 true 0) = some (s', some ⟨true, 0, 0⟩) :=
  ⟨_, _, .runSteps (.initial fun _ => 0)
    (show runSteps oneByteSteps (initial ℕ fun _ => 0) = some _ from rfl), rfl, rfl, rfl⟩
end PipeSystem
end Menios.Ipc
