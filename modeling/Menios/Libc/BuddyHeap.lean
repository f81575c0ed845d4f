import Menios.Libc.BuddyArena

/-!
# The whole heap

The invariant `Inv` of all arenas and direct mappings. Every block and every direct mapping has
bytes of its own (`Owns`).

Results:

* `Owns.apart`: the bytes of two of them do not meet.
* `Inv.finish`: an operation on one arena leaves the others alone.
* `growHeap_spec`, `attemptLoop_spec`: a new arena; the search for a free block.
* `buddyAllocateBlock_spec`: the block that is given out was not in use.
-/

namespace Menios.Libc.Buddy
open Common List Set Option Function

/-! ## Invariant -/

/-- A direct mapping: the payload, and the mapping. -/
structure Direct where
  ptr : ℕ
  base : ℕ
  length : ℕ
  deriving DecidableEq

/-- The ranges, given by start and length, do not meet. -/
def RangesApart (r s : ℕ × ℕ) : Prop := r.1 + r.2 ≤ s.1 ∨ s.1 + s.2 ≤ r.1

lemma RangesApart.symm {r s : ℕ × ℕ} (h : RangesApart r s) : RangesApart s r := Or.symm h

/-- The mapping of an arena. -/
def arenaRange (a : ℕ) : ℕ × ℕ := (a, mappingSize)

/-- The range of a direct mapping. -/
def Direct.range (d : Direct) : ℕ × ℕ := (d.base, d.length)

/-- The header is that of a direct mapping. -/
structure BlockHeader.IsDirect (b : BlockHeader) (d : Direct) : Prop where
  direct : b.flagDirect = true
  base : b.mappingBase = d.base
  length : b.mappingSize = d.length
  before : d.base + headerBytes ≤ d.ptr
  inside : d.ptr + b.size ≤ d.base + d.length
  nonzero : d.base ≠ 0

namespace Heap
/-- The invariant, but for the blocks of the arenas in `busy`. -/
structure Inv (h : Heap) (T : ℕ → Tiling arenaSize) (D : Set Direct) (busy : Set ℕ) : Prop where
  arenasApart : ∀ a ∈ h.arenaList, ∀ b ∈ h.arenaList, a ≠ b →
    RangesApart (arenaRange a) (arenaRange b)
  directApart : ∀ d ∈ D, ∀ e ∈ D, d ≠ e → RangesApart d.range e.range
  mixedApart : ∀ a ∈ h.arenaList, ∀ d ∈ D, RangesApart (arenaRange a) d.range
  arenaMapped : ∀ a ∈ h.arenaList, arenaRange a ∈ h.maps
  directMapped : ∀ d ∈ D, d.range ∈ h.maps
  kept : ∀ a ∈ h.arenaList, a ∉ busy → h.Kept a (T a) ∅
  ordered : h.Ordered
  direct : ∀ d ∈ D, (h.blocks (d.ptr - headerBytes)).IsDirect d

/-- The payload was given out and not given back. -/
def Live (h : Heap) (T : ℕ → Tiling arenaSize) (D : Set Direct) (p : ℕ) : Prop :=
  (∃ a ∈ h.arenaList, ∃ o, h.Used a (T a) ∅ o ∧ p = blockAt a o + headerBytes) ∨
    ∃ d ∈ D, d.ptr = p

/-- The header at `q` is that of a block or a direct mapping with the bytes `[lo, hi)`. -/
inductive Owns (h : Heap) (T : ℕ → Tiling arenaSize) (D : Set Direct) : ℕ → ℕ → ℕ → Prop
  | block {a o k : ℕ} (ha : a ∈ h.arenaList) (ho : (T a).order o = some k) :
      Owns h T D (blockAt a o) (blockAt a o) (blockAt a o + 2 ^ k)
  | direct {d : Direct} (hd : d ∈ D) :
      Owns h T D (d.ptr - headerBytes) d.base (d.base + d.length)

section
variable {h h' : Heap} {T : ℕ → Tiling arenaSize} {D : Set Direct} {B : Set ℕ}
  {a b o k p q lo hi q' lo' hi' : ℕ} {d : Direct}
lemma headerBytes_lt (hk : BuddyOrderValid k) : headerBytes < 2 ^ k :=
  Nat.lt_of_lt_of_le (by decide) (Nat.pow_le_pow_right (Nat.zero_lt_two) hk.1)

lemma arena_bounds (ho : (T a).order o = some k) : (arenaRange a).1 + buddyOffset ≤ blockAt a o ∧
      blockAt a o + 2 ^ k ≤ (arenaRange a).1 + (arenaRange a).2 := by
  have := (T a).inside ho
  have := mappingSize_eq
  unfold arenaRange blockAt
  omega

section
variable (hinv : h.Inv T D ∅)
include hinv
lemma Owns.inside (ho : h.Owns T D q lo hi) :
    lo ≤ q ∧ q + headerBytes + (h.blocks q).size ≤ hi := by
  cases ho with
  | block ha ho =>
    obtain ⟨hd, -⟩ := (hinv.kept _ ha (notMem_empty _)).header ho (notMem_empty _)
    have := headerBytes_lt ((hinv.kept _ ha (notMem_empty _)).valid ho)
    rw [hd.size]
    omega
  | direct hd =>
    obtain ⟨-, -, -, hb, hin, -⟩ := hinv.direct _ hd
    omega

/-- Different headers, different bytes. -/
theorem Owns.apart (ho : h.Owns T D q lo hi) (ho' : h.Owns T D q' lo' hi') :
    q = q' ∨ hi ≤ lo' ∨ hi' ≤ lo := by
  cases ho with
  | @block a o k ha ho =>
    have := arena_bounds ho
    cases ho' with
    | @block b o' k' hb ho' =>
      have hb' := arena_bounds ho'
      by_cases hab : a = b
      · subst hab
        unfold blockAt
        rcases Nat.lt_trichotomy o o' with hlt | heq | hgt
        · have := (T a).apart ho ho' hlt
          omega
        · exact .inl (by rw [heq])
        · have := (T a).apart ho' ho hgt
          omega
      have hap := hinv.arenasApart a ha b hb hab
      unfold RangesApart at hap
      omega
    | @direct d hd =>
      have hap := hinv.mixedApart a ha d hd
      unfold RangesApart Direct.range at hap
      omega
  | @direct d hd =>
    cases ho' with
    | @block b o' k' hb ho' =>
      have hb' := arena_bounds ho'
      have hap := hinv.mixedApart b hb d hd
      unfold RangesApart Direct.range at hap
      omega
    | @direct e he =>
      by_cases hde : d = e
      · exact .inl (by rw [hde])
      have hap := hinv.directApart d hd e he hde
      unfold RangesApart Direct.range at hap
      omega

lemma Owns.arena_apart (ho : h.Owns T D q lo hi) (ha : a ∈ h.arenaList) :
    a + arenaHeaderBytes ≤ lo ∨ hi ≤ a := by
  have := buddyOffset_eq
  have : arenaHeaderBytes = 552 := rfl
  have : mappingSize = buddyOffset + 2 ^ 27 := mappingSize_eq
  cases ho with
  | @block b o k hb ho =>
    have hbnd := arena_bounds ho
    by_cases hab : a = b
    · subst hab
      unfold arenaRange at hbnd
      omega
    have hap := hinv.arenasApart a ha b hb hab
    unfold RangesApart arenaRange at *
    omega
  | @direct d hd =>
    have hap := hinv.mixedApart a ha d hd
    unfold RangesApart arenaRange Direct.range at hap
    omega

lemma Live.owns (hp : h.Live T D p) : ∃ q lo hi, h.Owns T D q lo hi ∧ p = q + headerBytes := by
  rcases hp with ⟨a, ha, o, ⟨k, ho, -, -⟩, rfl⟩ | ⟨d, hd, rfl⟩
  · exact ⟨_, _, _, .block ha ho, rfl⟩
  have := (hinv.direct d hd).before
  exact ⟨_, _, _, .direct hd, by omega⟩

/-- The invariant speaks of the headers of blocks, direct mappings and arenas only. -/
lemma Inv.congr (hbl : ∀ q lo hi, h.Owns T D q lo hi → h'.blocks q = h.blocks q ∧
      h'.links.next q = h.links.next q ∧ h'.links.prev q = h.links.prev q)
    (har : ∀ a ∈ h.arenaList, h'.arenas a = h.arenas a)
    (hor : ∀ i, ∀ a ∈ h.arenaList, (h'.orderLinks i).next a = (h.orderLinks i).next a ∧
      (h'.orderLinks i).prev a = (h.orderLinks i).prev a)
    (hh : h'.orderHeads = h.orderHeads) (hl : h'.arenaList = h.arenaList)
    (harenaMapped : ∀ a ∈ h.arenaList, arenaRange a ∈ h'.maps)
    (hdirectMapped : ∀ d ∈ D, d.range ∈ h'.maps) :
    h'.Inv T D ∅ ∧ ∀ p, h'.Live T D p ↔ h.Live T D p := by
  refine ⟨⟨?_, hinv.directApart, ?_, ?_, hdirectMapped, ?_, ?_, fun d hd => ?_⟩, fun p => ?_⟩
  · rw [hl]
    exact hinv.arenasApart
  · rw [hl]
    exact hinv.mixedApart
  · rw [hl]
    exact harenaMapped
  · rw [hl]
    exact fun a ha hb => (hinv.kept a ha hb).congr (har a ha) fun o k ho _ =>
      hbl _ _ _ (.block ha ho)
  · intro i
    obtain ⟨l, ht, hnd, hmem⟩ := hinv.ordered i
    rw [hh, hl]
    refine ⟨l, ht.congr fun b hb => hor i b ((hmem b).1 hb).1, hnd, fun b => ?_⟩
    rw [hmem]
    exact and_congr_right fun hb => by rw [har b hb]
  · rw [(hbl _ _ _ (.direct hd)).1]
    exact hinv.direct d hd
  unfold Live Used
  rw [hl]
  refine or_congr (exists_congr fun a => and_congr_right fun ha => exists_congr fun o =>
    and_congr_left fun _ => exists_congr fun k => and_congr_right fun ho => ?_) Iff.rfl
  rw [(hbl _ _ _ (.block ha ho)).1]

/-! ## Operations on one arena -/

lemma Inv.work (ha : a ∈ h.arenaList) : Work h h a (T a) ∅ (h.Used a (T a) ∅) :=
  ⟨hinv.kept a ha (notMem_empty a), hinv.ordered, Frame.refl h a, ha, fun _ => Iff.rfl⟩

lemma Inv.except (a : ℕ) : h.Inv T D {a} :=
  { hinv with kept := fun b hb _ => hinv.kept b hb (notMem_empty b) }
end

lemma Inv.not_inArena (hinv : h.Inv T D B) (ha : a ∈ h.arenaList) (hb : b ∈ h.arenaList)
    (hne : b ≠ a) (hin : InArena b p) : ¬ InArena a p := by
  have hap := hinv.arenasApart a ha b hb hne.symm
  have := mappingSize_eq
  unfold RangesApart arenaRange at hap
  unfold InArena at *
  omega

lemma Inv.direct_not_inArena (hinv : h.Inv T D B) (ha : a ∈ h.arenaList) (hd : d ∈ D) :
    ¬ InArena a (d.ptr - headerBytes) := by
  have hap := hinv.mixedApart a ha d hd
  obtain ⟨-, -, -, hb, hin, -⟩ := hinv.direct d hd
  have := mappingSize_eq
  have : headerBytes = 80 := rfl
  unfold RangesApart arenaRange Direct.range at hap
  unfold InArena
  omega

section
variable {T' : Tiling arenaSize} {U : ℕ → Prop}
/-- The other arenas and the direct mappings are left alone. -/
theorem Inv.finish (hinv : h.Inv T D {a}) (hw : Work h h' a T' ∅ U) :
    h'.Inv (update T a T') D ∅ := by
  have hl := hw.frame.arenaList
  refine ⟨?_, hinv.directApart, ?_, ?_, ?_, fun b hb _ => ?_, hw.ordered, fun d hd => ?_⟩
  · rw [hl]
    exact hinv.arenasApart
  · rw [hl]
    exact hinv.mixedApart
  · rw [hl, hw.frame.maps]
    exact hinv.arenaMapped
  · rw [hw.frame.maps]
    exact hinv.directMapped
  · rw [hl] at hb
    by_cases hba : b = a
    · subst hba
      rw [update_self]
      exact hw.kept
    · rw [update_of_ne hba]
      refine (hinv.kept b hb hba).congr (hw.frame.arenas b hba) fun o k ho _ => ?_
      have hout := hinv.not_inArena hw.mem hb hba (inArena_blockAt ho)
      exact ⟨hw.frame.blocks _ hout, hw.frame.links _ hout⟩
  rw [hw.frame.blocks _ (hinv.direct_not_inArena hw.mem hd)]
  exact hinv.direct d hd

lemma Inv.live_finish (hinv : h.Inv T D {a}) (hw : Work h h' a T' ∅ U) (p : ℕ) :
    h'.Live (update T a T') D p ↔
      (∃ b ∈ h.arenaList, b ≠ a ∧ ∃ o, h.Used b (T b) ∅ o ∧ p = blockAt b o + headerBytes) ∨
        (∃ o, U o ∧ p = blockAt a o + headerBytes) ∨ ∃ d ∈ D, d.ptr = p := by
  have hot : ∀ b ∈ h.arenaList, b ≠ a → ∀ o,
      h'.Used b (update T a T' b) ∅ o ↔ h.Used b (T b) ∅ o := by
    intro b hb hba o
    rw [update_of_ne hba]
    unfold Used
    refine exists_congr fun k => and_congr_right fun ho => ?_
    rw [hw.frame.blocks _ (hinv.not_inArena hw.mem hb hba (inArena_blockAt ho))]
  unfold Live
  rw [hw.frame.arenaList]
  constructor
  · rintro (⟨b, hb, o, hu, rfl⟩ | hd)
    · by_cases hba : b = a
      · subst hba
        rw [update_self] at hu
        exact .inr (.inl ⟨o, (hw.used o).1 hu, rfl⟩)
      · exact .inl ⟨b, hb, hba, o, (hot b hb hba o).1 hu, rfl⟩
    · exact .inr (.inr hd)
  rintro (⟨b, hb, hba, o, hu, rfl⟩ | ⟨o, ho, rfl⟩ | hd)
  · exact .inl ⟨b, hb, o, (hot b hb hba o).2 hu, rfl⟩
  · refine .inl ⟨a, hw.mem, o, ?_, rfl⟩
    rw [update_self]
    exact (hw.used o).2 ho
  · exact .inr hd

lemma Live.split (ha : a ∈ h.arenaList) : h.Live T D p ↔
    (∃ b ∈ h.arenaList, b ≠ a ∧ ∃ o, h.Used b (T b) ∅ o ∧ p = blockAt b o + headerBytes) ∨
      (∃ o, h.Used a (T a) ∅ o ∧ p = blockAt a o + headerBytes) ∨ ∃ d ∈ D, d.ptr = p := by
  constructor
  · rintro (⟨b, hb, o, hu, rfl⟩ | hd)
    · by_cases hba : b = a
      · subst hba
        exact .inr (.inl ⟨o, hu, rfl⟩)
      · exact .inl ⟨b, hb, hba, o, hu, rfl⟩
    · exact .inr (.inr hd)
  rintro (⟨b, hb, -, o, hu, rfl⟩ | ⟨o, hu, rfl⟩ | hd)
  · exact .inl ⟨b, hb, o, hu, rfl⟩
  · exact .inl ⟨a, ha, o, hu, rfl⟩
  · exact .inr hd

/-- The payload of a block of `a` is none of another arena and no direct mapping's. -/
lemma Inv.payload_ne (hinv : h.Inv T D B) (ha : a ∈ h.arenaList) (hin : InArena a (blockAt a o)) :
    (¬ ∃ b ∈ h.arenaList, b ≠ a ∧ ∃ x, h.Used b (T b) ∅ x ∧
      blockAt a o + headerBytes = blockAt b x + headerBytes) ∧
    ¬ ∃ d ∈ D, d.ptr = blockAt a o + headerBytes := by
  constructor
  · rintro ⟨b, hb, hba, x, ⟨k, hx, -, -⟩, he⟩
    rw [Nat.add_right_cancel he] at hin
    exact hinv.not_inArena ha hb hba (inArena_blockAt hx) hin
  rintro ⟨d, hd, he⟩
  refine hinv.direct_not_inArena ha hd ?_
  rw [he, Nat.add_sub_cancel]
  exact hin

/-- A block of `a` came into use. -/
lemma Inv.live_add (hinv : h.Inv T D ∅) (hw : Work h h' a T' ∅ fun x => h.Used a (T a) ∅ x ∨ x = o)
    (p : ℕ) : h'.Live (update T a T') D p ↔ h.Live T D p ∨ p = blockAt a o + headerBytes := by
  rw [(hinv.except a).live_finish hw, Live.split hw.mem]
  constructor
  · rintro (hb | ⟨x, hx | rfl, rfl⟩ | hd)
    · exact .inl (.inl hb)
    · exact .inl (.inr (.inl ⟨x, hx, rfl⟩))
    · exact .inr rfl
    · exact .inl (.inr (.inr hd))
  rintro ((hb | ⟨x, hx, rfl⟩ | hd) | rfl)
  · exact .inl hb
  · exact .inr (.inl ⟨x, .inl hx, rfl⟩)
  · exact .inr (.inr hd)
  · exact .inr (.inl ⟨o, .inr rfl, rfl⟩)

/-- A block of `a` was given back. -/
lemma Inv.live_remove (hinv : h.Inv T D ∅) (hin : InArena a (blockAt a o))
    (hw : Work h h' a T' ∅ fun x => h.Used a (T a) ∅ x ∧ x ≠ o) (p : ℕ) :
    h'.Live (update T a T') D p ↔ h.Live T D p ∧ p ≠ blockAt a o + headerBytes := by
  obtain ⟨hot, hdi⟩ := hinv.payload_ne hw.mem hin
  rw [(hinv.except a).live_finish hw, Live.split hw.mem]
  constructor
  · rintro (hb | ⟨x, ⟨hx, hne⟩, rfl⟩ | hd)
    · refine ⟨.inl hb, ?_⟩
      rintro rfl
      exact hot hb
    · exact ⟨.inr (.inl ⟨x, hx, rfl⟩), fun he => hne (blockAt_inj.1 (Nat.add_right_cancel he))⟩
    · refine ⟨.inr (.inr hd), ?_⟩
      rintro rfl
      exact hdi hd
  rintro ⟨hb | ⟨x, hx, rfl⟩ | hd, hne⟩
  · exact .inl hb
  · exact .inr (.inl ⟨x, ⟨hx, fun he => hne (by rw [he])⟩, rfl⟩)
  · exact .inr (.inr hd)
end

/-! ## The search for a free block -/

/-- A block of the order `order` of the arena `a` is in hand. -/
def Found (h h' : Heap) (T : ℕ → Tiling arenaSize) (order a o : ℕ) : Prop :=
  ∃ T', Work h h' a T' {o} (h.Used a (T a) ∅) ∧ T'.order o = some order ∧
    (h'.blocks (blockAt a o)).Describes a o order

variable {order cr : ℕ}
lemma arenaLoop_spec (hinv : h.Inv T D ∅) (hv : BuddyOrderValid order)
    (hle : order ≤ cr) (hmax : cr ≤ buddyMaxOrder) (n : ℕ) :
    arenaLoop order cr (n + 1) h (h.orderHeads (buddyOrderIndex cr)) = some (none, h) ∨
      ∃ a o h', arenaLoop order cr (n + 1) h (h.orderHeads (buddyOrderIndex cr)) =
        some (some (blockAt a o), h') ∧ Found h h' T order a o := by
  have hcurrent : BuddyOrderValid cr := ⟨hv.1.trans hle, hmax⟩
  obtain ⟨l, ht, -, hmem⟩ := hinv.ordered (buddyOrderIndex cr)
  cases hh : h.orderHeads (buddyOrderIndex cr) with
  | none => exact .inl rfl
  | some a =>
    refine .inr ?_
    have hal : a ∈ l := by
      rw [hh] at ht
      cases l with
      | nil => cases ht
      | cons b l => exact some.inj ht.1 ▸ mem_cons_self
    obtain ⟨ha, hne⟩ := (hmem a).1 hal
    obtain ⟨p, hp⟩ := ne_none_iff_exists'.1 hne
    have hw := hinv.work ha
    obtain ⟨l', hl'⟩ := hw.kept.lists (buddyOrderIndex cr)
    have hpl : p ∈ l' := by
      have hth := hl'.threads
      rw [hp] at hth
      cases l' with
      | nil => cases hth
      | cons b l' => exact some.inj hth.1 ▸ mem_cons_self
    obtain ⟨o, rfl, ho, hno, hf⟩ := (hl'.mem p).1 hpl
    rw [index_add_min hcurrent] at ho
    obtain ⟨hw0, hd1⟩ := hw.remove ho hno hf
    have hw1 : Work h (h.buddyFreelistRemove a (blockAt a o)) a (T a) {o} (h.Used a (T a) ∅) :=
      hw0.congr_hand fun x _ _ => by simp
    obtain ⟨h2, T2, hr, hw2, ho2, hd2⟩ := hw1.splitToOrder ho hd1 hle hv
    refine ⟨a, o, h2, ?_, T2, hw2, ho2, hd2⟩
    rw [arenaLoop]
    unfold buddyFreelistPop
    rw [if_pos hcurrent, hp]
    dsimp only
    rw [hr]

lemma orderLoop_spec (hinv : h.Inv T D ∅) (hv : BuddyOrderValid order) {n : ℕ}
    (hle : order ≤ cr) (hn : cr + n = buddyMaxOrder + 1) : orderLoop order n cr h = some (none, h) ∨
      ∃ a o h', orderLoop order n cr h = some (some (blockAt a o), h') ∧
        Found h h' T order a o := by
  induction n generalizing cr with
  | zero => exact .inl rfl
  | succ n ih =>
    rw [orderLoop]
    rcases arenaLoop_spec hinv hv hle (by omega) h.arenaList.length with
      hr | ⟨a, o, h', hr, hf⟩
    · rw [hr]
      exact ih (by omega) (by omega)
    rw [hr]
    exact .inr ⟨a, o, h', rfl, hf⟩

/-! ## New arenas -/

/-- `mmap` gives a fresh range or fails. -/
lemma mmap_cases (h : Heap) (l : ℕ) : h.mmap l = (none, { h with calls := h.calls + 1 }) ∨
      ∃ base, h.Fresh base l ∧ h.mmap l =
        (some base, { h with calls := h.calls + 1, maps := (base, l) :: h.maps }) := by
  unfold mmap
  cases h.answers h.calls with
  | none => exact .inl rfl
  | some base =>
    dsimp only
    by_cases hf : h.Fresh base l
    · rw [if_pos hf]
      exact .inr ⟨base, hf, rfl⟩
    rw [if_neg hf]
    exact .inl rfl

lemma Inv.same (hinv : h.Inv T D ∅) (hme : h'.toMemory = h.toMemory)
    (hh : h'.orderHeads = h.orderHeads) (hl : h'.arenaList = h.arenaList)
    (hma : ∀ r ∈ h.maps, r ∈ h'.maps) : h'.Inv T D ∅ ∧ ∀ p, h'.Live T D p ↔ h.Live T D p := by
  refine hinv.congr (fun q _ _ _ => ?_) (fun a _ => ?_) (fun i a _ => ?_) hh hl
    (fun a ha => hma _ (hinv.arenaMapped a ha)) (fun d hd => hma _ (hinv.directMapped d hd))
  · rw [hme]
    exact ⟨rfl, rfl, rfl⟩
  · rw [hme]
  rw [hme]
  exact ⟨rfl, rfl⟩

lemma Inv.not_mem_of_fresh (hinv : h.Inv T D B) (hf : h.Fresh a mappingSize) :
    a ∉ h.arenaList := fun ha => by
  have hap := hf.2.2 _ (hinv.arenaMapped a ha)
  have : mappingSize = buddyOffset + 2 ^ 27 := mappingSize_eq
  unfold arenaRange at hap
  omega

/-- A new arena is one free block. -/
theorem growHeap_spec (hinv : h.Inv T D ∅) : ∃ gr h' T', h.growHeap = (gr, h') ∧
    h'.Inv T' D ∅ ∧ ∀ p, h'.Live T' D p ↔ h.Live T D p := by
  unfold growHeap
  rcases h.mmap_cases mappingSize with hrun | ⟨a, hfs, hrun⟩
  · rw [hrun]
    exact ⟨false, _, T, rfl, hinv.same rfl rfl rfl fun _ hr => hr⟩
  rw [hrun]
  dsimp only
  have hnew := hinv.not_mem_of_fresh hfs
  obtain ⟨g, hg⟩ : ∃ g : Heap, g = { h with
      calls := h.calls + 1, maps := (a, mappingSize) :: h.maps
      arenas := update h.arenas a
        { buddyBase := a + buddyOffset, buddySize := arenaSize, freelists := fun _ => none }
      orderLinks := fun i => (h.orderLinks i).clear a
      arenaList := a :: h.arenaList } := ⟨_, rfl⟩
  rw [← hg]
  have hl : g.arenaList = a :: h.arenaList := by rw [hg]
  have ha : g.arenas a =
      { buddyBase := a + buddyOffset, buddySize := arenaSize, freelists := fun _ => none } := by
    rw [hg]
    exact update_self ..
  have hot : ∀ b ∈ h.arenaList, g.arenas b = h.arenas b := fun b hb => by
    rw [hg]
    exact update_of_ne (fun he : b = a => hnew (he ▸ hb)) _ _
  have hbl : g.blocks = h.blocks := by rw [hg]
  have hln : g.links = h.links := by rw [hg]
  have hma : g.maps = (a, mappingSize) :: h.maps := by rw [hg]
  have hor : g.Ordered := by
    intro i
    obtain ⟨l, ht, hnd, hmem⟩ := hinv.ordered i
    have hne : ∀ b ∈ l, b ≠ a := fun b hb he => hnew (he ▸ ((hmem b).1 hb).1)
    have hh : g.orderHeads = h.orderHeads := by rw [hg]
    have hod : g.orderLinks i = (h.orderLinks i).clear a := by rw [hg]
    refine ⟨l, ?_, hnd, fun b => ?_⟩
    · rw [hh, hod]
      exact ht.congr fun b hb => ⟨(Links.next_clear ..).trans (if_neg (hne b hb)),
        (Links.prev_clear ..).trans (if_neg (hne b hb))⟩
    rw [hmem, hl, mem_cons]
    constructor
    · rintro ⟨hb, hf⟩
      exact ⟨.inr hb, by rw [hot b hb]; exact hf⟩
    rintro ⟨rfl | hb, hf⟩
    · rw [ha] at hf
      exact absurd rfl hf
    · exact ⟨hb, by rw [← hot b hb]; exact hf⟩
  have hsi : ∀ {x j}, (Tiling.single 27).order x = some j → x = 0 ∧ j = 27 := by
    intro x j hx
    change (if x = 0 then some 27 else none) = some j at hx
    split_ifs at hx with hz
    exact ⟨hz, (some.inj hx).symm⟩
  have hro : (Tiling.single 27).order 0 = some buddyMaxOrder := rfl
  have hk : g.Kept a (Tiling.single 27) {0} := by
    refine ⟨by rw [ha], by rw [ha], fun {x j} hx => ?_, fun {x j} hx hno => ?_, fun i => ?_,
      fun {x j} hx _ hno => absurd (hsi hx).1 hno⟩
    · rw [(hsi hx).2]
      decide
    · exact absurd (hsi hx).1 hno
    refine ⟨[], by rw [ha]; rfl, nodup_nil, fun p => ?_⟩
    refine ⟨fun hp => absurd hp not_mem_nil, ?_⟩
    rintro ⟨x, -, hx, hno, -⟩
    exact absurd (hsi hx).1 hno
  have hw : Work g g a (Tiling.single 27) {0} (fun _ => False) := by
    refine ⟨hk, hor, Frame.refl g a, by rw [hl]; exact mem_cons_self, fun x => ?_⟩
    refine iff_of_false ?_ id
    rintro ⟨j, hx, hno, -⟩
    exact hno (hsi hx).1
  obtain ⟨g1, hmat, hw1, hd1, -⟩ := hw.materialize hro (mem_singleton 0) buddyMaxOrder
  rw [hmat]
  have hw2 : Work g (g1.buddyFreelistPush a (blockAt a 0)) a (Tiling.single 27) ∅
      (fun _ => False) :=
    (hw1.push hro (mem_singleton 0) hd1 fun hin _ =>
      absurd (hsi hin).1 (by decide)).1.congr_hand fun x _ _ => by simp
  -- the other arenas and the direct mappings
  have hnr : ∀ r ∈ h.maps, RangesApart (arenaRange a) r := fun r hr => hfs.2.2 r hr
  have hbut : g.Inv T D {a} := by
    refine ⟨?_, hinv.directApart, ?_, ?_, ?_, ?_, hor, ?_⟩
    · rw [hl]
      intro b hb c hc hne
      rcases mem_cons.1 hb with hba | hb'
      · rcases mem_cons.1 hc with hca | hc'
        · omega
        · exact hba ▸ hnr _ (hinv.arenaMapped c hc')
      · rcases mem_cons.1 hc with hca | hc'
        · exact hca ▸ (hnr _ (hinv.arenaMapped b hb')).symm
        · exact hinv.arenasApart b hb' c hc' hne
    · rw [hl]
      intro b hb d hd
      rcases mem_cons.1 hb with rfl | hb
      · exact hnr _ (hinv.directMapped d hd)
      · exact hinv.mixedApart b hb d hd
    · rw [hl, hma]
      intro b hb
      rcases mem_cons.1 hb with rfl | hb
      · exact mem_cons_self
      · exact mem_cons_of_mem _ (hinv.arenaMapped b hb)
    · rw [hma]
      exact fun d hd => mem_cons_of_mem _ (hinv.directMapped d hd)
    · rw [hl]
      intro b hb hba
      have hb := (mem_cons.1 hb).resolve_left hba
      refine (hinv.kept b hb (notMem_empty b)).congr (hot b hb) fun o k _ _ => ?_
      rw [hbl, hln]
      exact ⟨rfl, rfl, rfl⟩
    rw [hbl]
    exact hinv.direct
  refine ⟨true, _, _, rfl, hbut.finish hw2, fun p => ?_⟩
  rw [hbut.live_finish hw2, hl]
  unfold Live Used
  rw [hbl]
  constructor
  · rintro (⟨b, hb, hba, hu⟩ | ⟨x, hx, -⟩ | hd)
    · exact .inl ⟨b, (mem_cons.1 hb).resolve_left hba, hu⟩
    · exact hx.elim
    · exact .inr hd
  rintro (⟨b, hb, hu⟩ | hd)
  · exact .inl ⟨b, mem_cons_of_mem _ hb, fun he => hnew (he ▸ hb), hu⟩
  · exact .inr (.inr hd)

theorem attemptLoop_spec (hv : BuddyOrderValid order) (n : ℕ) (hinv : h.Inv T D ∅) :
    ∃ r h' h1 T1, attemptLoop order n h = some (r, h') ∧ h1.Inv T1 D ∅ ∧
      (∀ p, h1.Live T1 D p ↔ h.Live T D p) ∧
      (r = none ∧ h' = h1 ∨ ∃ a o, r = some (blockAt a o) ∧ Found h1 h' T1 order a o) := by
  induction n generalizing h T with
  | zero => exact ⟨none, h, h, T, rfl, hinv, fun _ => Iff.rfl, .inl ⟨rfl, rfl⟩⟩
  | succ n ih =>
    rw [attemptLoop]
    have hc : order + (buddyMaxOrder + 1 - order) = buddyMaxOrder + 1 := by
      have := hv.2
      omega
    rcases orderLoop_spec hinv hv (Nat.le_refl order) hc with
      hrun | ⟨a, o, h', hrun, hf⟩
    · rw [hrun]
      dsimp only
      obtain ⟨g, h1, T1, hgr, hi1, hl1⟩ := growHeap_spec hinv
      rw [hgr]
      cases g with
      | false => exact ⟨none, h1, h1, T1, rfl, hi1, hl1, .inl ⟨rfl, rfl⟩⟩
      | true =>
        obtain ⟨r, h', h2, T2, hr2, hi2, hl2, hr⟩ := ih hi1
        exact ⟨r, h', h2, T2, hr2, hi2, fun p => (hl2 p).trans (hl1 p), hr⟩
    rw [hrun]
    exact ⟨_, h', h, T, rfl, hinv, fun _ => Iff.rfl, .inr ⟨a, o, rfl, hf⟩⟩

/-! ## Blocks -/

lemma orderForSizeLoop_bounds (t n order : ℕ) :
    order ≤ orderForSizeLoop t n order ∧ orderForSizeLoop t n order ≤ order + n := by
  induction n generalizing order with
  | zero => exact ⟨Nat.le_refl _, Nat.le_refl _⟩
  | succ n ih =>
    rw [orderForSizeLoop]
    split_ifs
    · have := ih (order + 1)
      omega
    · omega

lemma buddyOrderForSize_spec {t : ℕ} (h : ¬ buddyMaxOrder < buddyOrderForSize t) :
    BuddyOrderValid (buddyOrderForSize t) ∧ t ≤ 2 ^ buddyOrderForSize t := by
  obtain ⟨hl, -⟩ := orderForSizeLoop_bounds t (buddyMaxOrder - buddyMinOrder) buddyMinOrder
  unfold buddyOrderForSize at *
  dsimp only at *
  split_ifs at h ⊢ with hlt
  · omega
  · exact ⟨⟨hl, Nat.le_of_not_lt h⟩, Nat.le_of_not_lt hlt⟩

theorem buddyAllocateBlock_spec (hinv : h.Inv T D ∅) (n : ℕ) :
    ∃ r h' T', h.buddyAllocateBlock n = some (r, h') ∧ h'.Inv T' D ∅ ∧
      (r = none ∧ (∀ p, h'.Live T' D p ↔ h.Live T D p) ∨
        ∃ q, r = some q ∧ ¬ h.Live T D (q + headerBytes) ∧
          (∀ p, h'.Live T' D p ↔ h.Live T D p ∨ p = q + headerBytes) ∧ n ≤ (h'.blocks q).size) := by
  unfold buddyAllocateBlock
  by_cases hwr : (n + headerBytes) % 2 ^ 64 < n
  · rw [if_pos hwr]
    exact ⟨none, h, T, rfl, hinv, .inl ⟨rfl, fun _ => Iff.rfl⟩⟩
  rw [if_neg hwr]
  have ht : (n + headerBytes) % 2 ^ 64 = n + headerBytes := by
    have : headerBytes = 80 := rfl
    omega
  rw [ht]
  by_cases hl : buddyMaxOrder < buddyOrderForSize (n + headerBytes)
  · rw [if_pos hl]
    exact ⟨none, h, T, rfl, hinv, .inl ⟨rfl, fun _ => Iff.rfl⟩⟩
  rw [if_neg hl]
  obtain ⟨hv, hf⟩ := buddyOrderForSize_spec hl
  generalize buddyOrderForSize (n + headerBytes) = order at hv hf
  obtain ⟨r, h', h1, T1, hrun, hi1, hl1, hr⟩ := attemptLoop_spec hv 2 hinv
  unfold buddyAcquireBlock
  rw [if_pos hv, hrun]
  rcases hr with ⟨rfl, rfl⟩ | ⟨a, o, rfl, T', hw, ho, hd⟩
  · exact ⟨none, _, T1, rfl, hi1, .inl ⟨rfl, hl1⟩⟩
  have hin : o ∈ ({o} : Set ℕ) := mem_singleton o
  -- the header that is written
  let f (b : BlockHeader) : BlockHeader :=
    { b with buddyFree := false, buddyUsed := true, mappingBase := 0, mappingSize := 0
             size := buddyPayloadCapacity order
             flagFree := false, flagDirect := false, flagBuddy := true }
  have hw2 := hw.setBlock ho hin f
  obtain ⟨h2, hh2⟩ : ∃ h2, h2 = h'.setBlock (blockAt a o) f := ⟨_, rfl⟩
  have hse := setBlock_self h' (blockAt a o) f
  rw [← hh2] at hw2 hse
  have hd2 : (h2.blocks (blockAt a o)).Describes a o order := by
    rw [hse]
    exact { hd with size := rfl, direct := rfl }
  have hw3 : Work h1 h2 a T' ∅ (fun x => h1.Used a (T1 a) ∅ x ∨ x = o) :=
    (hw2.put ho hd2 (by rw [hse]) (by rw [hse]) hin).congr_hand fun x _ _ => by simp
  -- the block was in hand, so it was not in use
  have hfr : ¬ h1.Used a (T1 a) ∅ o := fun hu => by
    obtain ⟨j, -, hno, -⟩ := (hw.used o).2 hu
    exact hno hin
  refine ⟨_, h2, _, by rw [hh2]; rfl, (hi1.except a).finish hw3,
    .inr ⟨blockAt a o, rfl, ?_, ?_, ?_⟩⟩
  · rw [← hl1, Live.split hw3.mem]
    obtain ⟨hot, hdi⟩ := hi1.payload_ne hw3.mem (inArena_blockAt ho)
    rintro (hb | ⟨x, hu, he⟩ | hd)
    · exact hot hb
    · exact hfr (blockAt_inj.1 (Nat.add_right_cancel he) ▸ hu)
    · exact hdi hd
  · intro p
    rw [hi1.live_add hw3, hl1]
  rw [hse]
  show n ≤ 2 ^ order - headerBytes
  omega
end
end Heap
end Menios.Libc.Buddy
