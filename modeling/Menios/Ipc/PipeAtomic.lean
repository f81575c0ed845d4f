import Menios.Ipc.Pipe

/-!
# Small writes to a pipe

`pathconf(_PC_PIPE_BUF)` (`src/libc/unistd.c`, lines 390-425) promises that a write of at most
4096 bytes to a pipe is not mixed with other writes.

**Defect.** `pipe_write_impl` (`src/kernel/fs/core/pipe.c`, lines 125-173) writes as many bytes as
there is room for and then waits with the lock released. When the pipe has some room, but not
enough for a small write, another writer can append between the two parts.

Results:

* `small_writes_contiguous`: the bytes of every small write are contiguous in every run in which
  small writes find a full pipe or room for all their bytes.
* `small_write_split`: a run in which a write of two bytes is split.
-/

namespace Menios.Ipc
open Common List Option Function

/-- `pathconf(_PC_PIPE_BUF)`. -/
def pipeBuf : ℕ := 4096

/-- The bytes of the call are next to each other. -/
def Contiguous (call : ℕ) (l : List (ℕ × UInt8)) : Prop :=
  ∃ before own after, l = before ++ own ++ after ∧ (∀ x ∈ own, x.1 = call) ∧
    (∀ x ∈ before, x.1 ≠ call) ∧ ∀ x ∈ after, x.1 ≠ call

section
variable {c : ℕ} {l m : List (ℕ × UInt8)}
lemma Contiguous.append (h : Contiguous c l) (hm : ∀ x ∈ m, x.1 ≠ c) : Contiguous c (l ++ m) := by
  obtain ⟨before, own, after, rfl, hown, hb, ha⟩ := h
  refine ⟨before, own, after ++ m, by simp, hown, hb, fun x hx => ?_⟩
  rcases mem_append.1 hx with hx | hx
  · exact ha x hx
  · exact hm x hx

lemma contiguous_append_own (hl : ∀ x ∈ l, x.1 ≠ c) (hm : ∀ x ∈ m, x.1 = c) :
    Contiguous c (l ++ m) :=
  ⟨l, m, [], (append_nil _).symm, hm, hl, fun x hx => by simp at hx⟩

lemma contiguous_of_absent (hl : ∀ x ∈ l, x.1 ≠ c) : Contiguous c l :=
  ⟨l, [], [], by simp, fun x hx => by simp at hx, hl, fun x hx => by simp at hx⟩

lemma Contiguous.interval (h : Contiguous c l) :
    ∃ first last, ∀ (i : ℕ) x, l[i]? = some x → (x.1 = c ↔ first ≤ i ∧ i < last) := by
  obtain ⟨before, own, after, rfl, hown, hb, ha⟩ := h
  refine ⟨before.length, before.length + own.length, fun i x hx => ?_⟩
  rw [append_assoc, List.getElem?_append] at hx
  split_ifs at hx with h1
  · have := hb x (List.mem_of_getElem? hx)
    exact ⟨fun he => absurd he this, fun hi => by omega⟩
  rw [List.getElem?_append] at hx
  split_ifs at hx with h2
  · exact ⟨fun _ => by omega, fun _ => hown x (List.mem_of_getElem? hx)⟩
  have := ha x (List.mem_of_getElem? hx)
  exact ⟨fun he => absurd he this, fun hi => by omega⟩
end

namespace PipeSystem
variable {ι : Type*} [DecidableEq ι]
/-- A thread that is about to append the first bytes of a small write finds a full pipe or room
for all of them. -/
def Roomy (s : PipeSystem ι) : PipeStep ι → Prop
  | .run i => ∀ call data resumed, s.calls i = .write call data 0 resumed →
      data.length ≤ pipeBuf → s.pipe.count < pipeBufferSize →
      data.length ≤ pipeBufferSize - s.pipe.count
  | _ => True

/-- A state reached by steps that meet `Roomy`. -/
inductive RoomyReached : PipeSystem ι → Prop
  | initial (buffer : ℕ → UInt8) : RoomyReached (initial ι buffer)
  | step {s s' : PipeSystem ι} {a : PipeStep ι} {r : Option Return} (h : RoomyReached s)
      (hroomy : s.Roomy a) (hstep : s.step a = some (s', r)) : RoomyReached s'

/-- Small writes in progress have appended nothing, and those that have are contiguous. -/
structure Whole (s : PipeSystem ι) : Prop where
  fifo : s.Fifo
  numbers : ∀ x ∈ s.appended, x.1 < s.lengths.length
  calls : ∀ i call data total resumed, s.calls i = .write call data total resumed →
    s.lengths[call]? = some data.length ∧
      (data.length ≤ pipeBuf → total = 0 ∧ ∀ x ∈ s.appended, x.1 ≠ call)
  distinct : ∀ i j call data total resumed data' total' resumed',
    s.calls i = .write call data total resumed → s.calls j = .write call data' total' resumed' →
      i = j
  small : ∀ call n : ℕ, s.lengths[call]? = some n → n ≤ pipeBuf → Contiguous call s.appended

section
variable {s s' : PipeSystem ι} {i : ι}
omit [DecidableEq ι] in
lemma whole_initial (b : ℕ → UInt8) : (initial ι b).Whole :=
  ⟨fifo_initial b, fun _ hx => by simp [initial] at hx, fun _ _ _ _ _ h => by simp [initial] at h,
    fun _ _ _ _ _ _ _ _ _ h => by simp [initial] at h, fun _ _ h => by simp [initial] at h⟩

lemma Whole.leave (h : s.Whole) (hf : s'.Fifo) {c : Call}
    (hc : ∀ call data total rs, c ≠ .write call data total rs)
    (hca : s'.calls = update s.calls i c) (hle : s'.lengths = s.lengths)
    (ha : s'.appended = s.appended) : s'.Whole := by
  have hold : ∀ j call data total rs, s'.calls j = .write call data total rs →
      s.calls j = .write call data total rs := by
    intro j call data total rs hj
    rw [hca, update_apply] at hj
    split_ifs at hj with he
    · exact absurd hj (hc _ _ _ _)
    · exact hj
  refine ⟨hf, ?_, fun j call data total rs hj => ?_,
    fun j k call d t r d' t' r' hj hk => h.distinct j k call d t r d' t' r' (hold j _ _ _ _ hj)
      (hold k _ _ _ _ hk), ?_⟩
  · rw [ha, hle]
    exact h.numbers
  · rw [ha, hle]
    exact h.calls j call data total rs (hold j _ _ _ _ hj)
  rw [ha, hle]
  exact h.small

lemma Whole.start (h : s.Whole) {dt : List UInt8} (hf : s'.Fifo)
    (hcs : s'.calls = update s.calls i (.write s.lengths.length dt 0 false))
    (hle : s'.lengths = s.lengths ++ [dt.length]) (ha : s'.appended = s.appended) : s'.Whole := by
  have hfr : ∀ x ∈ s.appended, x.1 ≠ s.lengths.length := fun x hx => (h.numbers x hx).ne
  have hlt : ∀ j call d t r, s.calls j = .write call d t r → call < s.lengths.length :=
    fun j call d t r hj => (List.getElem?_eq_some_iff.1 (h.calls j call d t r hj).1).1
  have hc : ∀ j call d t r, s'.calls j = .write call d t r →
      j = i ∧ call = s.lengths.length ∧ d = dt ∧ t = 0 ∨
        j ≠ i ∧ s.calls j = .write call d t r := by
    intro j call d t r hj
    rw [hcs, update_apply] at hj
    split_ifs at hj with he
    · obtain ⟨h1, h2, h3, -⟩ := Call.write.inj hj
      exact .inl ⟨he, h1.symm, h2.symm, h3.symm⟩
    · exact .inr ⟨he, hj⟩
  refine ⟨hf, fun x hx => ?_, fun j call d t r hj => ?_,
    fun j k call d t r d' t' r' hj hk => ?_, fun call n hn hsm => ?_⟩
  · rw [ha] at hx
    rw [hle, length_append]
    exact Nat.lt_add_right _ (h.numbers x hx)
  · rw [hle, ha]
    rcases hc j call d t r hj with ⟨-, rfl, rfl, rfl⟩ | ⟨-, hj⟩
    · exact ⟨by simp, fun _ => ⟨rfl, hfr⟩⟩
    · rw [List.getElem?_append_left (hlt j call d t r hj)]
      exact h.calls j call d t r hj
  · rcases hc j call d t r hj with ⟨rfl, rfl, -, -⟩ | ⟨-, hj⟩ <;>
      rcases hc k _ d' t' r' hk with ⟨rfl, hcl, -, -⟩ | ⟨-, hk⟩
    · rfl
    · exact absurd (hlt k _ d' t' r' hk) (lt_irrefl _)
    · exact absurd (hlt j _ d t r hj) (by rw [hcl]; exact lt_irrefl _)
    · exact h.distinct j k call d t r d' t' r' hj hk
  rw [ha]
  rw [hle, List.getElem?_append] at hn
  split_ifs at hn with hcl
  · exact h.small call n hn hsm
  refine contiguous_of_absent fun x hx he => hcl ?_
  rw [← he]
  exact h.numbers x hx

lemma Whole.append (h : s.Whole) (hf : s'.Fifo) {cl tt : ℕ} {dt bt : List UInt8}
    {rs : Bool} {c : Call} (hi : s.calls i = .write cl dt tt rs)
    (hcl : s'.calls = update s.calls i c) (hl : s'.lengths = s.lengths)
    (ha : s'.appended = s.appended ++ bt.map (cl, ·))
    (hc : ∀ c' dt' tt' rs', c = .write c' dt' tt' rs' →
      c' = cl ∧ dt' = dt ∧ (dt.length ≤ pipeBuf → tt' = 0 ∧ bt = [])) : s'.Whole := by
  obtain ⟨hlen, hsm⟩ := h.calls i cl dt tt rs hi
  have hown : ∀ x ∈ bt.map (cl, ·), x.1 = cl := by
    intro x hx
    obtain ⟨b, -, rfl⟩ := mem_map.1 hx
    rfl
  have hca : ∀ j c' d t r, s'.calls j = .write c' d t r →
      j = i ∧ c = .write c' d t r ∨ j ≠ i ∧ s.calls j = .write c' d t r := by
    intro j c' d t r hj
    rw [hcl, update_apply] at hj
    split_ifs at hj with he
    · exact .inl ⟨he, hj⟩
    · exact .inr ⟨he, hj⟩
  -- the write of another thread is another call
  have hot : ∀ j c' d t r, j ≠ i → s.calls j = .write c' d t r → c' ≠ cl := by
    rintro j c' d t r hne hj rfl
    exact hne (h.distinct j i _ d t r dt tt rs hj hi)
  refine ⟨hf, fun x hx => ?_, fun j c' d t r hj => ?_,
    fun j k c' d t r d' t' r' hj hk => ?_, fun c' n hn hle => ?_⟩
  · rw [ha] at hx
    rw [hl]
    rcases mem_append.1 hx with hx | hx
    · exact h.numbers x hx
    · rw [hown x hx]
      exact (List.getElem?_eq_some_iff.1 hlen).1
  · rw [hl, ha]
    rcases hca j c' d t r hj with ⟨-, hcj⟩ | ⟨hne, hj⟩
    · obtain ⟨rfl, rfl, hz⟩ := hc c' d t r hcj
      refine ⟨hlen, fun hle => ?_⟩
      obtain ⟨ht, rfl⟩ := hz hle
      refine ⟨ht, ?_⟩
      simpa using (hsm hle).2
    · obtain ⟨h1, h2⟩ := h.calls j c' d t r hj
      refine ⟨h1, fun hle => ⟨(h2 hle).1, fun x hx => ?_⟩⟩
      rcases mem_append.1 hx with hx | hx
      · exact (h2 hle).2 x hx
      · rw [hown x hx]
        exact (hot j c' d t r hne hj).symm
  · rcases hca j c' d t r hj with ⟨rfl, hcj⟩ | ⟨hne, hj⟩ <;>
      rcases hca k c' d' t' r' hk with ⟨rfl, hck⟩ | ⟨hn', hk⟩
    · rfl
    · exact absurd (hc c' d t r hcj).1 (hot k c' d' t' r' hn' hk)
    · exact absurd (hc c' d' t' r' hck).1 (hot j c' d t r hne hj)
    · exact h.distinct j k c' d t r d' t' r' hj hk
  rw [ha]
  rw [hl] at hn
  by_cases he : c' = cl
  · subst he
    obtain rfl : dt.length = n := some.inj (hlen.symm.trans hn)
    exact contiguous_append_own (hsm hle).2 hown
  refine (h.small c' n hn hle).append fun x hx => ?_
  rw [hown x hx]
  exact fun h => he h.symm

lemma Whole.runThread (h : s.Whole) {r : Option Return} (hro : s.Roomy (.run i))
    (hr : s.runThread i = some (s', r)) : s'.Whole := by
  have hid : s.calls i ≠ .idle := by
    intro hid
    rw [PipeSystem.runThread, hid] at hr
    cases hr
  have hf : s'.Fifo := by
    obtain ⟨s1, r1, hr', hf, -⟩ := runThread_spec h.fifo hid
    obtain ⟨rfl, -⟩ := Prod.mk.inj (some.inj (hr'.symm.trans hr))
    exact hf
  unfold PipeSystem.runThread at hr
  cases hc : s.calls i with
  | idle => exact absurd hc hid
  | read length total =>
    rw [hc] at hr
    obtain ⟨⟨o, bytes, q⟩, -, he⟩ := map_eq_some_iff.1 hr
    cases o with
    | returns value =>
      cases he
      exact h.leave hf (fun _ _ _ _ => by simp) rfl rfl rfl
    | waits total =>
      cases he
      exact h.leave hf (fun _ _ _ _ => by simp) rfl rfl rfl
  | write call data total rs =>
    rw [hc] at hr
    obtain ⟨⟨o, bytes, q⟩, hse, he⟩ := map_eq_some_iff.1 hr
    have ht := h.fifo.writes i call data total rs hc
    obtain ⟨o', b', q', hsp, -, -, -, -, hwa, hb⟩ := Pipe.writeSection_spec h.fifo.valid ht rs
    obtain ⟨rfl, rfl, rfl⟩ : o' = o ∧ b' = bytes ∧ q' = q := by
      rw [hse] at hsp
      simpa [eq_comm] using hsp
    cases o' with
    | returns value =>
      cases he
      exact h.append hf hc rfl rfl rfl fun _ _ _ _ hw => by simp at hw
    | waits t' =>
      cases he
      refine h.append hf hc rfl rfl rfl fun c' d' t r hw => ?_
      obtain ⟨rfl, rfl, rfl, -⟩ := Call.write.inj hw
      refine ⟨rfl, rfl, fun hsm => ?_⟩
      obtain ⟨rfl, -⟩ := (h.calls i call data total rs hc).2 hsm
      obtain ⟨hsum, hlt⟩ := hwa t' rfl
      have hnil : b' = [] := by
        rcases hb with hnil | ⟨hcnt, hta⟩
        · exact hnil
        -- there was room for all bytes, so the write did not wait
        have := hro call data rs hc hsm hcnt
        have : b'.length = data.length := by
          rw [hta, drop_zero, length_take]
          omega
        omega
      rw [hnil] at hsum
      exact ⟨hsum, hnil⟩

lemma RoomyReached.whole (h : RoomyReached s) : s.Whole := by
  induction h with
  | initial buffer => exact whole_initial buffer
  | @step s s' a r _ hr hst ih =>
    have hf := (step_spec ih.fifo hst).1
    cases a with
    | startRead i ir length =>
      rw [PipeSystem.step] at hst
      split at hst
      · split_ifs at hst
        · cases hst
          exact ih
        · cases hst
          exact ih
        · cases hst
          exact ih.leave hf (fun _ _ _ _ => by simp) rfl rfl rfl
      · cases hst
    | startWrite i ir data =>
      rw [PipeSystem.step] at hst
      split at hst
      · split_ifs at hst
        · cases hst
          exact ih
        · cases hst
          exact ih
        · cases hst
          exact ih.start hf rfl rfl rfl
      · cases hst
    | run i =>
      rw [PipeSystem.step] at hst
      split_ifs at hst
      exact ih.runThread hr hst
    | close ir =>
      rw [PipeSystem.step] at hst
      split_ifs at hst
      cases hst
      exact { ih with fifo := hf }
end

/-- The bytes of every write of at most 4096 bytes are contiguous in the stream of the pipe, in
every state reached by steps in which small writes find a full pipe or room for all their
bytes. -/
theorem small_writes_contiguous {s : PipeSystem ι} (h : RoomyReached s) (call n : ℕ)
    (hcall : s.lengths[call]? = some n) (hsmall : n ≤ pipeBuf) : Contiguous call s.appended :=
  h.whole.small call n hcall hsmall

/-- Two threads write two bytes each to an empty pipe. -/
theorem small_writes_contiguous_two_bytes : ∃ s : PipeSystem ℕ, RoomyReached s ∧
    s.appended = [(1, 9), (1, 5), (0, 7), (0, 8)] ∧ Contiguous 0 s.appended := by
  have h1 : RoomyReached (_ : PipeSystem ℕ) :=
    .step (.initial fun _ => 0) (a := .startWrite 0 false [7, 8]) trivial rfl
  have h2 : RoomyReached (_ : PipeSystem ℕ) :=
    .step h1 (a := .startWrite 1 false [9, 5]) trivial rfl
  have h3 : RoomyReached (_ : PipeSystem ℕ) := .step h2 (a := .run 1) (fun call data r hc _ _ => by
    obtain ⟨-, rfl, -⟩ := Call.write.inj (show Call.write 1 [9, 5] 0 false = _ from hc)
    decide) rfl
  have h4 : RoomyReached (_ : PipeSystem ℕ) := .step h3 (a := .run 0) (fun call data r hc _ _ => by
    obtain ⟨-, rfl, -⟩ := Call.write.inj (show Call.write 0 [7, 8] 0 false = _ from hc)
    decide) rfl
  exact ⟨_, h4, rfl, small_writes_contiguous h4 0 2 rfl (by decide)⟩

/-- The pipe has room for one byte when a thread writes two. A reader and another writer run
before it goes on. -/
def splitSteps : List (PipeStep ℕ) :=
  [.startWrite 0 false (List.replicate 4095 0), .run 0, .startWrite 1 false [1, 2], .run 1,
    .startRead 2 true 1, .run 2, .startWrite 3 false [3], .run 3, .startRead 2 true 1, .run 2, .run 1]

lemma run_splitSteps : ((runSteps splitSteps (initial ℕ fun _ => 0)).map fun s =>
    (s.appended.drop 4095, s.lengths)) = some ([(1, 1), (2, 3), (1, 2)], [4095, 2, 1]) := by
  decide +kernel

/-- The two bytes are not contiguous. -/
theorem small_write_split : ∃ s : PipeSystem ℕ, Reached s ∧ s.lengths[1]? = some 2 ∧
    ¬ Contiguous 1 s.appended := by
  obtain ⟨s, hr, he⟩ := map_eq_some_iff.1 run_splitSteps
  obtain ⟨ha, hle⟩ := Prod.mk.inj he
  refine ⟨s, .runSteps (.initial fun _ => 0) hr, by rw [hle]; rfl, ?_⟩
  intro hc
  obtain ⟨first, last, hiv⟩ := hc.interval
  have hp : ∀ i : ℕ, s.appended[4095 + i]? = [((1 : ℕ), (1 : UInt8)), (2, 3), (1, 2)][i]? := by
    intro i
    rw [← List.getElem?_drop, ha]
  have := (hiv 4095 (1, 1) (hp 0)).1 rfl
  have := (hiv 4097 (1, 2) (hp 2)).1 rfl
  have hmi := (hiv 4096 (2, 3) (hp 1)).2 ⟨by omega, by omega⟩
  cases hmi
end PipeSystem
end Menios.Ipc
