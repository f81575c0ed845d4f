import Menios.Signal.Frame

/-!
# Returning from a signal handler

A handler that was entered by `proc_signal_handle_pending` (`src/kernel/proc/signal.c`, lines
349-427) and returns through the restorer (`src/libc/signal.c`, lines 14-24) ends in
`syscall_sigreturn_handler` (`src/kernel/syscall/syscall.c`, lines 2498-2539).

**Defect.** `proc_signal_handle_pending` saves `-EINTR` in place of `rax` (line 358), also when
the process was interrupted between two instructions of its own. After the handler the
process goes on with another `rax`. The other registers and the mask come back.

Results:

* `Owned.copyOut`: a copy to memory that has no second user address changes nothing else from
  there upwards.
* `buildFrame_saves`: the saved frame is on the stack, and memory from `rsp` on is unchanged.
* `sigreturnTo_returned`: what `sigreturn` makes of it.
* `sigreturn_undoes_delivery`: the handler is undone exactly if `rax` was `-EINTR`.
-/

namespace Menios.User.Space
open Common Mem Mem.Paging Option Nat

/-- The range is in the lower half, its mapped pages are writable user pages, and from its
start on no other user address leads to one of its bytes. -/
structure Owned (s : Space) (addr : UInt64) (length : ℕ) : Prop extends
    Permitted s addr length true where
  own : ∀ i < length, ∀ (v : UInt64) (a : ℕ) (w : Bool), addr.toNat ≤ v.toNat →
    v.toNat < userLimit → s.mapping v = some (a, w, true) →
    s.place (addr + i.toUInt64) = some (a + (v % 4096).toNat) → v = addr + i.toUInt64

/-- User memory from `start` on that is not in `[dest, dest + length)` is as it was. -/
def Untouched (s s' : Space) (start dest length : ℕ) : Prop :=
  ∀ (v : UInt64) (a : ℕ) (w : Bool), start ≤ v.toNat → v.toNat < userLimit →
    (v.toNat < dest ∨ dest + length ≤ v.toNat) → s.mapping v = some (a, w, true) →
    s'.mapping v = some (a, w, true) ∧
      s'.bytes (a + (v % 4096).toNat) = s.bytes (a + (v % 4096).toNat)

section
variable {s s' : Space} {ad d : UInt64} {l : ℕ} {sr : List UInt8}
section
variable (h : s.Owned ad l)
include h
lemma Owned.extends (hs : s.Sound) (he : Extends true s s') : s'.Owned ad l where
  toPermitted := h.toPermitted.extends he
  own i hi v a w hle hlt hm hp := by
    have := two_pow_47
    have := h.low.resolve_left (by omega)
    have : (ad + i.toUInt64).toNat = ad.toNat + i := toNat_add_ofNat (by omega)
    have hpv : s'.place v = some (a + (v % 4096).toNat) := by
      rw [place, hm]
      rfl
    rcases he.same_byte hs hlt (by omega)
      (fun a' w' u' hm' => by cases (he.kept _ _ hm').symm.trans hm; rfl)
      (fun a w u hm' => (h.allowed i hi a w u hm').1) hpv hp with heq | ⟨hpsv, hps⟩
    · exact heq
    obtain ⟨m, hsm, -⟩ := map_eq_some_iff.1 hpsv
    cases (he.kept _ m hsm).symm.trans hm
    exact h.own i hi v a w hle hlt hsm hps

lemma Owned.same (hsa : SameTables s s') : s'.Owned ad l where
  toPermitted := h.toPermitted.same hsa
  own i hi v a w hle hlt hm hp := by
    rw [hsa.mapping] at hm
    rw [hsa.place] at hp
    exact h.own i hi v a w hle hlt hm hp

omit h in
lemma eq_add_ofNat (h : ad.toNat ≤ d.toNat) : d = ad + (d.toNat - ad.toNat).toUInt64 := by
  have := d.toNat_lt
  refine UInt64.toNat_inj.1 ?_
  rw [toNat_add_ofNat (by omega)]
  omega

lemma Owned.proper (hle : ad.toNat ≤ d.toNat) {n : ℕ}
    (hn : d.toNat + n ≤ ad.toNat + l) : s.Proper d n true := by
  have := two_pow_47
  have hp : s.Permitted d n true := by
    rw [eq_add_ofNat hle]
    exact h.toPermitted.part (by omega)
  refine ⟨hp, fun _ i hi j hj x hpi hpj => ?_⟩
  have := h.low.resolve_left (by omega)
  have : (d + i.toUInt64).toNat = d.toNat + i := toNat_add_ofNat (by omega)
  have : (d + j.toUInt64).toNat = d.toNat + j := toNat_add_ofNat (by omega)
  have hde : d + j.toUInt64 = ad + (d.toNat - ad.toNat + j).toUInt64 := by
    rw [← add_ofNat_add, ← eq_add_ofNat hle]
  rw [place] at hpi
  obtain ⟨⟨a, w, u⟩, hm, rfl⟩ := map_eq_some_iff.1 hpi
  obtain ⟨rfl, -⟩ := hp.allowed i hi a w u hm
  rw [hde] at hpj
  have he := h.own _ (by omega) (d + i.toUInt64) a w (by omega) (by omega) hm hpj
  rw [← hde] at he
  have := congrArg UInt64.toNat he
  omega

/-- A copy within an owned range. -/
theorem Owned.copyOut (hs : s.Sound) (hle : ad.toNat ≤ d.toNat)
    (hf : d.toNat + sr.length ≤ ad.toNat + l) (hr : s.copyOut d sr = some (true, s')) :
    s'.Sound ∧ s'.Owned ad l ∧ Untouched s s' ad.toNat d.toNat sr.length ∧
      ∀ (i : ℕ) b, sr[i]? = some b → ∃ a, s'.mapping (d + i.toUInt64) = some (a, true, true) ∧
        s'.bytes (a + ((d + i.toUInt64) % 4096).toNat) = b := by
  have hpr := h.proper hle hf
  obtain ⟨ok, s0, hr0, hok, -⟩ := copyOut_spec hs hpr.toPermitted rfl
  cases hr.symm.trans hr0
  obtain ⟨s1, he, hsa, hma, hwr⟩ := hok rfl
  obtain ⟨ha, hot⟩ := hwr hpr
  have hs' : s'.Sound := hsa.sound he.sound
  have how : s'.Owned ad l := (h.extends hs he).same hsa
  refine ⟨hs', how, fun v a w hst hlt hout hm => ?_, fun i b hb => ?_⟩
  · have hm' : s'.mapping v = some (a, w, true) := by
      rw [hsa.mapping]
      exact he.kept v _ hm
    refine ⟨hm', hot _ ?_ fun i hi hp => ?_⟩
    · have hal := hs.page_aligned hm
      have := toNat_mod_page v
      have hpg : (a + (v % 4096).toNat) / pageSize = a / pageSize := by
        simp only [pageSize] at hal ⊢
        omega
      rw [hpg]
      exact (hs.frames v a w hm).1
    · -- a byte that was written has no other address
      have := two_pow_47
      have := h.low.resolve_left (by omega)
      have hi' : (d + i.toUInt64).toNat = d.toNat + i := toNat_add_ofNat (by omega)
      have hde : d + i.toUInt64 = ad + (d.toNat - ad.toNat + i).toUInt64 := by
        rw [← add_ofNat_add, ← eq_add_ofNat hle]
      rw [hde] at hp
      have heq := how.own _ (by omega) v a w hst hlt hm' hp
      rw [← hde] at heq
      rw [heq, hi'] at hout
      omega
  obtain ⟨x, hp, hx⟩ := ha i b hb
  obtain ⟨a, hm⟩ := hma i (List.getElem?_eq_some_iff.1 hb).1
  rw [place, hm] at hp
  obtain rfl : a + ((d + i.toUInt64) % 4096).toNat = x := Option.some.inj hp
  exact ⟨a, hm, hx⟩
end

/-- `proc_user_write64` is a copy of eight bytes. -/
lemma write64_eq_copyOut (hs : s.Sound) (v : UInt64) :
    s.write64 d v = s.copyOut d (wordBytes v) := by
  obtain ⟨ok, s1, ht, hok, -⟩ := touchRange_spec hs d 8 true
  rw [write64, copyOut, length_wordBytes, if_neg (by decide), ht]
  cases ok with
  | false => rfl
  | true =>
    have hf := (hok rfl).2 0 (by decide)
    have hz : d + (0 : ℕ).toUInt64 = d := by simp
    rw [hz] at hf
    dsimp only
    rw [if_pos hf]
end
end Menios.User.Space

namespace Menios.Proc
open Common User Option Nat Space

/-! ## The stack of the handler -/

/-- The byte that a process finds at an address. -/
def peek (s : Space) (v : UInt64) : Option UInt8 := (s.place v).map s.bytes

/-- How many bytes below `rsp` the frame, its alignment and the return address take at most. -/
def stackRoom (a : Sigaction) : ℕ := 8 + (signalFrameSize + a.infoSize) + 15

/-- There is room below `rsp`, and it is the stack's alone. -/
structure UsableStack (s : Space) (rsp : UInt64) (a : Sigaction) : Prop where
  room : stackRoom a ≤ rsp.toNat
  low : rsp.toNat ≤ userLimit
  owned : s.Owned (rsp - (stackRoom a).toUInt64) (stackRoom a)

lemma toNat_and_not_15 (x : UInt64) : (x &&& ~~~0xf).toNat = x.toNat / 16 * 16 := by
  have hx := x.toNat_lt
  have hma : (~~~(0xf : UInt64)).toNat = (2 ^ 60 - 1) * 2 ^ 4 := by decide
  rw [UInt64.toNat_and, hma]
  refine eq_of_testBit_eq fun i => ?_
  rw [show x.toNat / 16 * 16 = x.toNat / 2 ^ 4 * 2 ^ 4 by norm_num, testBit_and,
    testBit_mul_two_pow, testBit_mul_two_pow, testBit_two_pow_sub_one, testBit_div_two_pow]
  by_cases hi : 4 ≤ i
  · by_cases hlt : i < 64
    · simp [hi, show i - 4 < 60 by omega]
    · have hb : x.toNat.testBit i = false :=
        testBit_lt_two_pow (lt_of_lt_of_le hx (Nat.pow_le_pow_right (by decide) (by omega)))
      simp [hi, hb]
  · simp [hi]

lemma toNat_sub_ofNat {v : UInt64} {n : ℕ} (h : n ≤ v.toNat) :
    (v - n.toUInt64).toNat = v.toNat - n := by
  have := v.toNat_lt
  have hn : n.toUInt64.toNat = n := by
    rw [toUInt64_eq, UInt64.toNat_ofNat']
    exact mod_eq_of_lt (by omega)
  rw [UInt64.toNat_sub_of_le _ _ (UInt64.le_iff_toNat_le.2 (by omega)), hn]

section
variable {s s' : Space} {p : UInt32} {bl : BitVec 32} {a : Sigaction} {sg : ℕ}
  {f frame' : CpuState} {r : UInt64}
/-- Where the parts lie (signal.c, lines 364-393). -/
lemma UsableStack.layout (h : UsableStack s r a) :
    (r - (stackRoom a).toUInt64).toNat + stackRoom a = r.toNat ∧
      (r - (stackRoom a).toUInt64).toNat + 8 ≤ (payloadBase r a).toNat ∧
      (frameBase r a).toNat = (payloadBase r a).toNat + a.infoSize ∧
      (frameBase r a).toNat + signalFrameSize ≤ r.toNat ∧
      (frameBase r a - 8).toNat + 8 = (frameBase r a).toNat := by
  have hr := h.room
  have := r.toNat_lt
  have hst := toNat_sub_ofNat hr
  simp only [stackRoom] at hr hst ⊢
  have : (payloadBase r a).toNat = (r.toNat - (signalFrameSize + a.infoSize)) / 16 * 16 := by
    rw [payloadBase, toNat_and_not_15, toNat_sub_ofNat (by omega)]
  have hf : (frameBase r a).toNat = (payloadBase r a).toNat + a.infoSize :=
    toNat_add_ofNat (by omega)
  have hsl : (frameBase r a - (8 : ℕ).toUInt64).toNat = (frameBase r a).toNat - 8 :=
    toNat_sub_ofNat (by omega)
  have he : (8 : ℕ).toUInt64 = 8 := rfl
  rw [he] at hsl
  refine ⟨by omega, by omega, hf, by omega, by omega⟩

/-- The saved frame is on the stack, and user memory from `rsp` on is unchanged. -/
theorem buildFrame_saves (h : UsableStack s f.rsp a) (hs : s.Sound)
    (hr : buildFrame s p bl a sg f = some (true, frame', s')) :
    Untouched s s' f.rsp.toNat f.rsp.toNat 0 ∧
      ∀ (i : ℕ) b, (signalFrame f bl sg).bytes[i]? = some b →
        peek s' (frameBase f.rsp a + i.toUInt64) = some b := by
  obtain ⟨-, s1, s2, hf, hin, hsl⟩ := buildFrame_eq_true hr
  obtain ⟨hst, hpa, hba, ht, hret⟩ := h.layout
  have := Space.two_pow_47
  have := h.low
  have hframeLen := length_signalFrame (signalFrame f bl sg)
  -- the frame
  obtain ⟨hs1, ho1, hk1, ha⟩ := h.owned.copyOut hs
    (show (f.rsp - (stackRoom a).toUInt64).toNat ≤ (frameBase f.rsp a).toNat by omega)
    (by omega) hf
  -- the `siginfo_t`, if there is one
  obtain ⟨hs2, ho2, hk2⟩ : s2.Sound ∧
      s2.Owned (f.rsp - (stackRoom a).toUInt64) (stackRoom a) ∧
      Untouched s1 s2 (f.rsp - (stackRoom a).toUInt64).toNat
        (payloadBase f.rsp a).toNat a.infoSize := by
    cases hinfoUse : a.useSiginfo with
    | false =>
      rw [hinfoUse] at hin
      obtain rfl : s1 = s2 := by simpa using hin
      exact ⟨hs1, ho1, fun v _ w _ _ _ hm => ⟨hm, rfl⟩⟩
    | true =>
      rw [hinfoUse, if_pos rfl] at hin
      have hsz : a.infoSize = siginfoSize := by rw [Sigaction.infoSize, hinfoUse, if_pos rfl]
      have hl := length_siginfoBytes sg p
      obtain ⟨hs2, ho2, hk2, -⟩ := ho1.copyOut hs1
        (show (f.rsp - (stackRoom a).toUInt64).toNat ≤ (payloadBase f.rsp a).toNat by omega)
        (by omega) hin
      rw [hl, ← hsz] at hk2
      exact ⟨hs2, ho2, hk2⟩
  -- the return address
  rw [Space.write64_eq_copyOut hs2] at hsl
  obtain ⟨hs3, -, hk3, -⟩ := ho2.copyOut hs2
    (show (f.rsp - (stackRoom a).toUInt64).toNat ≤ (frameBase f.rsp a - 8).toNat by omega)
    (by rw [length_wordBytes]; omega) hsl
  rw [length_wordBytes] at hk3
  refine ⟨fun v x w hle hlt _ hm => ?_, fun i b hb => ?_⟩
  · obtain ⟨hm1, hb1⟩ := hk1 v x w (by omega) hlt (by omega) hm
    obtain ⟨hm2, hb2⟩ := hk2 v x w (by omega) hlt (by omega) hm1
    obtain ⟨hm3, hb3⟩ := hk3 v x w (by omega) hlt (by omega) hm2
    exact ⟨hm3, hb3.trans (hb2.trans hb1)⟩
  have : i < signalFrameSize := by
    rw [← hframeLen]
    exact (List.getElem?_eq_some_iff.1 hb).1
  have : (frameBase f.rsp a + i.toUInt64).toNat = (frameBase f.rsp a).toNat + i :=
    toNat_add_ofNat (by omega)
  obtain ⟨x, hm1, hb1⟩ := ha i b hb
  obtain ⟨hm2, hb2⟩ := hk2 _ x true (by omega) (by omega) (by omega) hm1
  obtain ⟨hm3, hb3⟩ := hk3 _ x true (by omega) (by omega) (by omega) hm2
  have hp : s'.place (frameBase f.rsp a + i.toUInt64) =
      some (x + ((frameBase f.rsp a + i.toUInt64) % 4096).toNat) := by
    rw [Space.place, hm3]
    rfl
  rw [peek, hp, map_some, hb3, hb2, hb1]
end

/-! ## The way back -/

/-- The handler has come back: `ret` has taken the return address from the stack, the restorer
has put `rsp` into `rdi`, and the saved frame is as it was. -/
structure Returned (entered : CpuState) (s : Space) (frame : CpuState) (s' : Space) : Prop where
  rdi : frame.rdi = entered.rsp + 8
  kept : ∀ i < signalFrameSize,
    peek s' (entered.rsp + 8 + i.toUInt64) = peek s (entered.rsp + 8 + i.toUInt64)

/-- A copy from memory where the process finds `bytes`. -/
lemma copyIn_of_peek {s : Space} {addr : UInt64} {bt : List UInt8}
    (hlow : addr.toNat + bt.length ≤ userLimit)
    (h : ∀ (i : ℕ) b, bt[i]? = some b → peek s (addr + i.toUInt64) = some b) :
    s.copyIn addr bt.length = some (true, bt, s) := by
  have hma : ∀ i < bt.length, (s.mapping (addr + i.toUInt64)).isSome = true := by
    intro i hi
    obtain ⟨x, hp, -⟩ := map_eq_some_iff.1 (h i _ (List.getElem?_eq_getElem hi))
    obtain ⟨m, hm, -⟩ := map_eq_some_iff.1 hp
    rw [hm]
    rfl
  obtain ⟨b', hl⟩ := Space.load_of_mapped hlow hma
  obtain ⟨hlen, hb⟩ := Space.load_eq_some hl
  have he : b' = bt := by
    refine List.ext_getElem? fun i => ?_
    by_cases hi : i < bt.length
    · obtain ⟨x, hp, hx⟩ := hb i hi
      have hpe := h i _ (List.getElem?_eq_getElem hi)
      rw [peek, hp] at hpe
      rw [hx, List.getElem?_eq_getElem hi]
      exact hpe
    · rw [List.getElem?_eq_none (by omega), List.getElem?_eq_none (by omega)]
  rw [Space.copyIn_present hma, hl, he]
  rfl

lemma setWidth_saved (b : BitVec 32) :
    (UInt64.ofBitVec (b.setWidth 64)).toBitVec.setWidth 32 = b := by
  simp

lemma and_eq_self_of_and_not {x y : BitVec 32} (h : x &&& ~~~y = 0#32) : x &&& y = x := by
  calc x &&& y = (x &&& y) ||| (x &&& ~~~y) := by rw [h, BitVec.or_zero]
    _ = x &&& (y ||| ~~~y) := (BitVec.and_or_distrib_left).symm
    _ = x := by rw [BitVec.or_not_self, BitVec.and_allOnes]

lemma SignalState.Guarded.setBlocked_self {st : SignalState} (h : st.Guarded) (st' : SignalState) :
    (st'.setBlocked st.blocked).blocked = st.blocked := by
  have hu : st.blocked &&& ~~~Scheduler.unblockableMask = st.blocked := by
    refine and_eq_self_of_and_not ?_
    rw [BitVec.not_not]
    exact h.unblockable
  rw [SignalState.setBlocked, and_eq_self_of_and_not h.allowed, hu]

section
variable {s s' : Space} {pid : UInt32} {a : Sigaction} {si : ℕ} {frame frame' : CpuState}
  {st : SignalState}
/-- What `sigreturn` makes of a saved frame that was not touched: all registers but `rax` are
those of the interruption. -/
theorem sigreturnTo_returned (h : UsableStack s frame.rsp a) (hs : s.Sound)
    (hr : buildFrame s pid st.blocked a si frame = some (true, frame', s')) {g : CpuState}
    {s2 : Space} (hret : Returned frame' s' g s2) (st2 : SignalState) :
    sigreturnTo st2 g s2 = some (true, st2.setBlocked st.blocked,
      { frame with rax := errorWord eintr }, s2) := by
  obtain ⟨-, hsa⟩ := buildFrame_saves h hs hr
  obtain ⟨rfl, -⟩ := buildFrame_eq_true hr
  obtain ⟨-, hp, hba, ht, hsl⟩ := h.layout
  have := h.low
  have hl := length_signalFrame (signalFrame frame st.blocked si)
  have hsp : (handlerFrame frame a si).rsp + 8 = frameBase frame.rsp a := by
    rw [handlerFrame, UInt64.sub_add_cancel]
  have hk := hret.kept
  rw [hsp] at hk
  have hc := copyIn_of_peek (s := s2) (show (frameBase frame.rsp a).toNat +
      (signalFrame frame st.blocked si).bytes.length ≤ userLimit by omega) fun i b hb => by
        rw [hk i (by rw [← hl]; exact (List.getElem?_eq_some_iff.1 hb).1)]
        exact hsa i b hb
  have hnu : frameBase frame.rsp a ≠ 0 := by
    intro hz
    rw [hz, UInt64.toNat_zero] at hsl
    omega
  rw [hl] at hc
  rw [sigreturnTo, hret.rdi, hsp, if_neg hnu, hc]
  dsimp only
  rw [savedContext_bytes, savedMask_bytes, signalFrame, setWidth_saved]
end

/-- Whatever the handler did, `sigreturn` gives the process the registers and the mask of the
interruption, and neither it nor the delivery has changed user memory from `rsp` on. -/
def Undone (st : SignalState) (frame : CpuState) (s : Space) (entered : CpuState) (s₁ : Space) :
    Prop :=
  Untouched s s₁ frame.rsp.toNat frame.rsp.toNat 0 ∧
    ∀ st₂ g s₂, Returned entered s₁ g s₂ → ∃ st₃ s₃,
      sigreturnTo st₂ g s₂ = some (true, st₃, frame, s₃) ∧ st₃.blocked = st.blocked ∧
        Untouched s₂ s₃ frame.rsp.toNat frame.rsp.toNat 0

/-- The handler that returns at once shows what was saved in place of `rax`. -/
theorem Undone.rax {s s1 : Space} {pid : UInt32} {a : Sigaction} {sn : ℕ}
    {frame entered : CpuState} {st : SignalState} (h : Undone st frame s entered s1)
    (hst : UsableStack s frame.rsp a) (hs : s.Sound)
    (hb : buildFrame s pid st.blocked a sn frame = some (true, entered, s1)) :
    frame.rax = errorWord eintr := by
  have hr : Returned entered s1 { entered with rdi := entered.rsp + 8 } s1 := ⟨rfl, fun _ _ => rfl⟩
  obtain ⟨st3, s3, hsig, -⟩ := h.2 st _ s1 hr
  have hs' := sigreturnTo_returned hst hs hb hr st
  obtain ⟨-, he⟩ := Prod.mk.inj (Option.some.inj (hsig.symm.trans hs'))
  obtain ⟨-, he⟩ := Prod.mk.inj he
  exact congrArg CpuState.rax (Prod.mk.inj he).1

/-- A handler is entered through `buildFrame`. -/
lemma buildFrame_of_handled {s s1 : Space} {pid : UInt32} {frame e : CpuState}
    {st st1 : SignalState} {sn : ℕ}
    (h : handlePendingTo true pid st frame s = some (.handled sn, st1, e, s1)) :
    buildFrame s pid st.blocked (st.actions (Fin.ofNat 32 sn)) sn frame = some (true, e, s1) := by
  rcases handlePendingTo_cases h with ⟨sg', he, hb⟩ | ⟨hno, -⟩
  · obtain rfl := Outcome.handled.inj he
    exact hb
  · exact absurd rfl (hno sn)

/-- `sigreturn` undoes the delivery of a signal exactly if `rax` was `-EINTR` when the process
was interrupted. -/
theorem sigreturn_undoes_delivery {ι : Type} [DecidableEq ι] {t : ι → SignalState}
    (ht : SignalsReached t) (p : ι) {s s₁ : Space} (hs : s.Sound) {pid : UInt32}
    {frame entered : CpuState} {st₁ : SignalState} {signo : ℕ}
    (hrun : handlePendingTo true pid (t p) frame s = some (.handled signo, st₁, entered, s₁))
    (hstack : UsableStack s frame.rsp ((t p).actions (Fin.ofNat 32 signo))) :
    Undone (t p) frame s entered s₁ ↔ frame.rax = errorWord eintr := by
  have hb := buildFrame_of_handled hrun
  constructor
  · intro h
    exact h.rax hstack hs hb
  intro hr
  refine ⟨(buildFrame_saves hstack hs hb).1, fun st2 g s2 hret => ?_⟩
  have hsig := sigreturnTo_returned hstack hs hb hret st2
  rw [← hr] at hsig
  exact ⟨_, s2, hsig, (ht.guarded p).setBlocked_self st2, fun v a w _ _ _ hm => ⟨hm, rfl⟩⟩

/-- A process that catches `SIGTERM` and is sent it. -/
def caught : Unit → SignalState :=
  signalStep (signalStep (fun _ => SignalState.stateInitialize)
    (.call () (.sigaction 15 (.value ⟨0x1000, 0#32, 0#32, 0x2000⟩) .null))) (.call () (.send 15))

lemma reached_caught : SignalsReached caught := .step _ (.step _ .start)

/-- Registers of a user process with its stack in page 0. -/
def interrupted (rax : UInt64) : CpuState :=
  { CpuState.ofWords fun _ => 0 with
    rax := rax
    rip := 0x400
    cs := 0x3b
    rflags := 0x202
    rsp := 0xf00
    ss := 0x43 }

/-- The address space of the process: page 0 is its stack. -/
def stackSpace : Space := Space.onePage 0 (Space.pageFive true true)

lemma usableStack_stackSpace {a : Sigaction} (h : a.useSiginfo = false) :
    UsableStack stackSpace 0xf00 a := by
  have hr : stackRoom a = 199 := by rw [stackRoom, Sigaction.infoSize, h]; rfl
  have : (0xf00 - (199 : ℕ).toUInt64 : UInt64).toNat = 0xf00 - 199 := by decide
  refine ⟨by rw [hr]; decide, by decide, ?_⟩
  rw [hr]
  refine ⟨⟨.inr (by decide), fun i hi x w u hm => ?_⟩, fun i hi v x w _ hlt hm hp => ?_⟩
  · obtain ⟨-, rfl, rfl⟩ := Space.mapping_onePage hm
    exact ⟨rfl, fun _ => rfl⟩
  have hs := Space.sound_onePage 0 true true
  obtain ⟨x', w', u', hm', -, ho, -⟩ := Space.place_eq_some hs hp
  have hpv : stackSpace.place v = some (x + (v % 4096).toNat) := by
    rw [Space.place, hm]
    rfl
  obtain ⟨-, -, -, -, -, hov, -⟩ := Space.place_eq_some hs hpv
  have := toNat_add_ofNat (v := 0xf00 - (199 : ℕ).toUInt64) (i := i) (by omega)
  by_contra hne
  refine not_samePage_of_low hlt (by omega) (fun hdiv => hne (UInt64.toNat_inj.1 ?_))
    (Space.samePage_onePage hm hm')
  omega

theorem sigreturn_undoes_delivery_interrupted_call :
    ∃ st₁ entered s₁, handlePendingTo true 7 (caught ()) (interrupted (errorWord eintr)) stackSpace =
        some (.handled 15, st₁, entered, s₁) ∧
      Undone (caught ()) (interrupted (errorWord eintr)) stackSpace entered s₁ := by
  have hr : (handlePendingTo true 7 (caught ()) (interrupted (errorWord eintr)) stackSpace).map
      (·.1) = some (.handled 15) := by decide +kernel
  obtain ⟨⟨o, st₁, entered, s₁⟩, hr, rfl⟩ := map_eq_some_iff.1 hr
  exact ⟨st₁, entered, s₁, hr, (sigreturn_undoes_delivery reached_caught ()
    (Space.sound_onePage 0 true true) hr (usableStack_stackSpace (by decide))).2 rfl⟩

/-- A process that was interrupted with 42 in `rax` goes on with `-EINTR`. -/
theorem sigreturn_loses_rax :
    ∃ st₁ entered s₁, handlePendingTo true 7 (caught ()) (interrupted 42) stackSpace =
        some (.handled 15, st₁, entered, s₁) ∧
      (∃ st₂ s₂, sigreturnTo st₁ { entered with rdi := entered.rsp + 8 } s₁ =
        some (true, st₂, interrupted (errorWord eintr), s₂)) ∧
      ¬ Undone (caught ()) (interrupted 42) stackSpace entered s₁ := by
  have hr : (handlePendingTo true 7 (caught ()) (interrupted 42) stackSpace).map (·.1) =
      some (.handled 15) := by decide +kernel
  obtain ⟨⟨o, st₁, entered, s₁⟩, hr, rfl⟩ := map_eq_some_iff.1 hr
  have hb := buildFrame_of_handled hr
  have hs := Space.sound_onePage 0 true true
  have hst := usableStack_stackSpace (a := (caught ()).actions (Fin.ofNat 32 15)) (by decide)
  have hret : Returned entered s₁ { entered with rdi := entered.rsp + 8 } s₁ :=
    ⟨rfl, fun _ _ => rfl⟩
  have hsig := sigreturnTo_returned hst hs hb hret st₁
  refine ⟨st₁, entered, s₁, hr, ⟨_, s₁, hsig⟩, fun h => ?_⟩
  exact absurd (h.rax hst hs hb) (by decide)
end Menios.Proc
