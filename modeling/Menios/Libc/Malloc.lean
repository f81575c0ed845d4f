import Menios.Libc.BuddyHeap

/-!
# Runs of the allocator

A process calls `malloc`, `calloc`, `realloc`, `reallocarray` and `free` on its live pointers and
writes to its live payloads, in any order. `Good h live` says that the heap is in order and that
its live payloads are `live`.

Results:

* `Good.overwrite`: what is written to a payload changes no header that the heap relies on.
* `Good.malloc`, `Good.free`, `Good.calloc`, `Good.realloc`, `Good.reallocarray`: the calls
  return, and leave the heap in order.
* `heap_safe`: in every reachable state the blocks tile their arenas, the lists have the free
  blocks, no two free blocks are buddies, and live payloads do not meet.
-/

namespace Menios.Libc.Buddy
open Common List Set Option

/-! ## Direct mappings -/

lemma le_alignUp {value a : ℕ} (ha : a ≠ 0) (h : value ≤ 2 ^ 64 - 1 - (a - 1)) (hlt : a ≤ 2 ^ 64) :
    value ≤ alignUp value a := by
  unfold alignUp
  rw [Nat.mod_eq_of_lt (by omega), Nat.mul_comm]
  have := Nat.div_add_mod (value + (a - 1)) a
  have := Nat.mod_lt (value + (a - 1)) (Nat.pos_of_ne_zero ha)
  omega

namespace Heap
variable {h h' : Heap} {T : ℕ → Tiling arenaSize} {D : Set Direct} {q lo hi p : ℕ}
  {live : List ℕ}
section
variable (hinv : h.Inv T D ∅)
include hinv
lemma Owns.mapped (ho : h.Owns T D q lo hi) : ∃ r ∈ h.maps, r.1 ≤ lo ∧ hi ≤ r.1 + r.2 := by
  cases ho with
  | @block a o k ha ho =>
    have hb := arena_bounds ho
    exact ⟨_, hinv.arenaMapped a ha, by omega, hb.2⟩
  | @direct d hd => exact ⟨_, hinv.directMapped d hd, Nat.le_refl _, Nat.le_refl _⟩

lemma Inv.addDirect {d : Direct} (hfr : h.Fresh d.base d.length) (hma : h'.maps = d.range :: h.maps)
    (hme : ∀ q, q ≠ d.ptr - headerBytes → h'.blocks q = h.blocks q ∧
      h'.links.next q = h.links.next q ∧ h'.links.prev q = h.links.prev q)
    (har : h'.arenas = h.arenas) (hor : h'.orderLinks = h.orderLinks)
    (hh : h'.orderHeads = h.orderHeads) (hl : h'.arenaList = h.arenaList)
    (hd : (h'.blocks (d.ptr - headerBytes)).IsDirect d) :
    h'.Inv T (insert d D) ∅ ∧ ¬ h.Live T D d.ptr ∧
      ∀ p, h'.Live T (insert d D) p ↔ h.Live T D p ∨ p = d.ptr := by
  have : headerBytes = 80 := rfl
  have := hd.before
  have := hd.inside
  have hnew : ∀ q lo hi, h.Owns T D q lo hi → q ≠ d.ptr - headerBytes := by
    rintro q lo hi ho rfl
    obtain ⟨r, hr, hlo, hhi⟩ := ho.mapped hinv
    obtain ⟨hlow, hhg⟩ := ho.inside hinv
    have hap := hfr.2.2 r hr
    omega
  obtain ⟨hold, hlv⟩ := hinv.congr (fun q lo hi ho => hme q (hnew q lo hi ho))
    (fun a _ => by rw [har]) (fun i a _ => by rw [hor]; exact ⟨rfl, rfl⟩) hh hl
    (fun a ha => by rw [hma]; exact mem_cons_of_mem _ (hinv.arenaMapped a ha))
    (fun e he => by rw [hma]; exact mem_cons_of_mem _ (hinv.directMapped e he))
  have hap : ∀ r ∈ h.maps, RangesApart d.range r := fun r hr => hfr.2.2 r hr
  refine ⟨⟨hold.arenasApart, ?_, ?_, hold.arenaMapped, ?_, hold.kept, hold.ordered, ?_⟩, ?_, ?_⟩
  · rintro e (rfl | he) f (rfl | hf) hne
    · exact absurd rfl hne
    · exact hap _ (hinv.directMapped f hf)
    · exact (hap _ (hinv.directMapped e he)).symm
    · exact hold.directApart e he f hf hne
  · rw [hl]
    rintro a ha e (rfl | he)
    · exact (hap _ (hinv.arenaMapped a ha)).symm
    · exact hinv.mixedApart a ha e he
  · rintro e (rfl | he)
    · rw [hma]
      exact mem_cons_self
    · exact hold.directMapped e he
  · rintro e (rfl | he)
    · exact hd
    · exact hold.direct e he
  · intro hp
    obtain ⟨q, lo, hi, ho, heq⟩ := hp.owns hinv
    exact hnew q lo hi ho (by omega)
  intro p
  rw [← hlv]
  constructor
  · rintro (hb | ⟨e, rfl | he, rfl⟩)
    · exact .inl (.inl hb)
    · exact .inr rfl
    · exact .inl (.inr ⟨e, he, rfl⟩)
  rintro ((hb | ⟨e, he, rfl⟩) | rfl)
  · exact .inl hb
  · exact .inr ⟨e, .inr he, rfl⟩
  · exact .inr ⟨d, .inl rfl, rfl⟩

lemma Inv.mmap_munmap (base l : ℕ) :
    (munmap { h with calls := h.calls + 1, maps := (base, l) :: h.maps } base l).Inv T D ∅
      ∧ ∀ p, (munmap { h with calls := h.calls + 1, maps := (base, l) :: h.maps }
        base l).Live T D p ↔ h.Live T D p := by
  refine hinv.same rfl rfl rfl fun r hr => ?_
  show r ∈ ((base, l) :: h.maps).erase (base, l)
  rw [erase_cons_head]
  exact hr

omit hinv in
lemma alignUpChecked_spec {vl a v : ℕ} (h : alignUpChecked vl a = some v) :
    a ≠ 0 ∧ vl ≤ 2 ^ 64 - 1 - (a - 1) ∧ v = alignUp vl a := by
  unfold alignUpChecked at h
  split_ifs at h with hp hwr
  exact ⟨fun hz => hp (.inl hz), Nat.le_of_not_lt hwr, (some.inj h).symm⟩

/-- `allocate_direct` fails, or adds a direct mapping. -/
lemma allocateDirect_spec (size a : ℕ) :
    ∃ r h' D', h.allocateDirect size a = (r, h') ∧ h'.Inv T D' ∅ ∧
      (r = none ∧ (∀ p, h'.Live T D' p ↔ h.Live T D p) ∨
        ∃ q, r = some q ∧ ¬ h.Live T D q ∧ (∀ p, h'.Live T D' p ↔ h.Live T D p ∨ p = q) ∧
          size ≤ (h'.blocks (q - headerBytes)).size) := by
  unfold allocateDirect
  dsimp only
  generalize (if ¬ isPowerOfTwo a ∨ a < 8 then defaultAlignment else a) = al
  cases hpa : alignUpChecked size al with
  | none => exact ⟨none, h, D, rfl, hinv, .inl ⟨rfl, fun _ => Iff.rfl⟩⟩
  | some pd =>
    dsimp only
    by_cases ha : 2 ^ 64 - 1 - headerBytes < al
    · rw [if_pos ha]
      exact ⟨none, h, D, rfl, hinv, .inl ⟨rfl, fun _ => Iff.rfl⟩⟩
    rw [if_neg ha]
    by_cases hex : 2 ^ 64 - 1 - (al + headerBytes) < pd
    · rw [if_pos hex]
      exact ⟨none, h, D, rfl, hinv, .inl ⟨rfl, fun _ => Iff.rfl⟩⟩
    rw [if_neg hex]
    obtain ⟨total, ht⟩ : ∃ total, pd + (al + headerBytes) = total := ⟨_, rfl⟩
    rw [ht]
    rcases h.mmap_cases total with hrun | ⟨m, hf, hrun⟩
    · rw [hrun]
      obtain ⟨hi', hl⟩ : Inv { h with calls := h.calls + 1 } T D ∅ ∧ _ :=
        hinv.same rfl rfl rfl fun _ hr => hr
      exact ⟨none, _, D, rfl, hi', .inl ⟨rfl, hl⟩⟩
    rw [hrun]
    dsimp only
    obtain ⟨hi', hl⟩ := hinv.mmap_munmap m total
    by_cases he : 2 ^ 64 - 1 - total < m
    · rw [if_pos he]
      exact ⟨none, _, D, rfl, hi', .inl ⟨rfl, hl⟩⟩
    rw [if_neg he]
    cases had : alignUpChecked (m + headerBytes) al with
    | none => exact ⟨none, _, D, rfl, hi', .inl ⟨rfl, hl⟩⟩
    | some q =>
      dsimp only
      by_cases hov : m + total < q
      · rw [if_pos hov]
        exact ⟨none, _, D, rfl, hi', .inl ⟨rfl, hl⟩⟩
      rw [if_neg hov]
      by_cases hro : pd ≠ 0 ∧ m + total < q + pd
      · rw [if_pos hro]
        exact ⟨none, _, D, rfl, hi', .inl ⟨rfl, hl⟩⟩
      rw [if_neg hro]
      by_cases hh : q - headerBytes < m
      · rw [if_pos hh]
        exact ⟨none, _, D, rfl, hi', .inl ⟨rfl, hl⟩⟩
      rw [if_neg hh]
      obtain ⟨hal, hsz, hp⟩ := alignUpChecked_spec hpa
      obtain ⟨-, hb, hq⟩ := alignUpChecked_spec had
      have : headerBytes = 80 := rfl
      have hle := le_alignUp hal hb (by omega)
      rw [← hq] at hle
      have hfi : q + pd ≤ m + total := by
        by_cases hz : pd = 0
        · omega
        · exact Nat.le_of_not_lt fun hlt => hro ⟨hz, hlt⟩
      obtain ⟨h1, hh1⟩ : ∃ h1 : Heap, h1 = Heap.resetBlock { h with
          calls := h.calls + 1, maps := (m, total) :: h.maps } (q - headerBytes) fun _ =>
          { arena := none, buddyOrder := 0, buddyFree := false, buddyUsed := false
            buddyOffset := 0, mappingBase := m, mappingSize := total, size := pd
            flagFree := false, flagDirect := true, flagBuddy := false } := ⟨_, rfl⟩
      have hse : (h1.blocks (q - headerBytes)).size = pd ∧
          (h1.blocks (q - headerBytes)).IsDirect ⟨q, m, total⟩ := by
        rw [hh1, resetBlock_self]
        exact ⟨rfl, rfl, rfl, rfl, hle, hfi, hf.1⟩
      have hme : ∀ x, x ≠ q - headerBytes → h1.blocks x = h.blocks x ∧
          h1.links.next x = h.links.next x ∧ h1.links.prev x = h.links.prev x := fun x hx => by
        rw [hh1]
        exact ⟨Function.update_of_ne hx _ _, (Links.next_clear ..).trans (if_neg hx),
          (Links.prev_clear ..).trans (if_neg hx)⟩
      obtain ⟨hnew, hnot, hl1⟩ :=
        hinv.addDirect (d := ⟨q, m, total⟩) hf (by rw [hh1]; rfl) hme (by rw [hh1]; rfl)
          (by rw [hh1]; rfl) (by rw [hh1]; rfl) (by rw [hh1]; rfl) hse.2
      obtain ⟨hn2, hl2⟩ : Inv { h1 with
          directAllocationCount := h1.directAllocationCount + 1
          directTotalBytes := h1.directTotalBytes + total }
            T (insert (⟨q, m, total⟩ : Direct) D) ∅ ∧ _ :=
        hnew.same rfl rfl rfl fun _ hr => hr
      rw [← hh1]
      refine ⟨some q, _, _, rfl, hn2, .inr ⟨q, rfl, hnot, fun p => (hl2 p).trans (hl1 p), ?_⟩⟩
      show size ≤ (h1.blocks (q - headerBytes)).size
      rw [hse.1, hp]
      exact le_alignUp hal hsz (by omega)
end

/-! ## The library calls -/

/-- The heap is in order, and `live` are its live payloads. -/
def Good (h : Heap) (live : List ℕ) : Prop :=
  ∃ T D, h.Inv T D ∅ ∧ live.Nodup ∧ ∀ p, p ∈ live ↔ h.Live T D p

/-- What a call gives that asks for `n` bytes. -/
structure Gives (live : List ℕ) (n : ℕ) (r : Option ℕ) (h : Heap) : Prop where
  good : h.Good (r.toList ++ live)
  fits : ∀ q, r = some q → n ≤ (h.blocks (q - headerBytes)).size

section
variable (hg : h.Good live)
include hg
lemma Good.unchanged (n : ℕ) : Gives live n none h := ⟨hg, fun _ he => nomatch he⟩

omit hg in
lemma gives_of_live {D' : Set Direct} {T' : ℕ → Tiling arenaSize} {r : Option ℕ} {n : ℕ}
    (hnd : live.Nodup) (hmem : ∀ p, p ∈ live ↔ h.Live T D p) (hinv : h'.Inv T' D' ∅)
    (hr : r = none ∧ (∀ p, h'.Live T' D' p ↔ h.Live T D p) ∨
      ∃ q, r = some q ∧ ¬ h.Live T D q ∧ (∀ p, h'.Live T' D' p ↔ h.Live T D p ∨ p = q) ∧
        n ≤ (h'.blocks (q - headerBytes)).size) : Gives live n r h' := by
  rcases hr with ⟨rfl, hl⟩ | ⟨q, rfl, hnew, hl, hf⟩
  · exact ⟨⟨T', D', hinv, hnd, fun p => (hmem p).trans (hl p).symm⟩, fun _ he => nomatch he⟩
  refine ⟨⟨T', D', hinv, nodup_cons.2 ⟨(hmem q).not.2 hnew, hnd⟩, fun p => ?_⟩, ?_⟩
  · rw [hl, ← hmem]
    simp [or_comm]
  rintro _ ⟨⟩
  exact hf

lemma Good.allocateDirect (s a : ℕ) :
    Gives live s (h.allocateDirect s a).1 (h.allocateDirect s a).2 := by
  obtain ⟨T, D, hinv, hnd, hmem⟩ := hg
  obtain ⟨r, h', D', hrun, hi', hr⟩ := allocateDirect_spec hinv s a
  rw [hrun]
  exact gives_of_live hnd hmem hi' hr

lemma Good.buddyAllocateBlock (n : ℕ) : ∃ r h',
    (h.buddyAllocateBlock n).map (fun r => (r.1.map (· + headerBytes), r.2)) = some (r, h') ∧
      Gives live n r h' := by
  obtain ⟨T, D, hinv, hnd, hmem⟩ := hg
  obtain ⟨r, h', T', hrun, hi', hr⟩ := buddyAllocateBlock_spec hinv n
  rw [hrun]
  refine ⟨_, h', rfl, gives_of_live hnd hmem hi' ?_⟩
  rcases hr with ⟨rfl, hl⟩ | ⟨q, rfl, hnew, hl, hf⟩
  · exact .inl ⟨rfl, hl⟩
  · exact .inr ⟨q + headerBytes, rfl, hnew, hl, by rw [Nat.add_sub_cancel]; exact hf⟩

omit hg in
lemma Gives.mono {r : Option ℕ} {m n : ℕ} (hr : Gives live n r h) (hle : m ≤ n) :
    Gives live m r h := ⟨hr.good, fun q hq => hle.trans (hr.fits q hq)⟩

theorem Good.malloc (s : ℕ) : ∃ r h', h.malloc s = some (r, h') ∧ Gives live s r h' := by
  unfold Heap.malloc
  by_cases hz : s = 0
  · rw [if_pos hz]
    exact ⟨none, h, rfl, hg.unchanged s⟩
  rw [if_neg hz]
  by_cases hwr : alignUp s defaultAlignment < s
  · rw [if_pos hwr]
    exact ⟨none, h, rfl, hg.unchanged s⟩
  rw [if_neg hwr]
  have hle := Nat.le_of_not_lt hwr
  by_cases ht : (alignUp s defaultAlignment + headerBytes) % 2 ^ 64 <
      alignUp s defaultAlignment
  · rw [if_pos ht]
    exact ⟨none, h, rfl, hg.unchanged s⟩
  rw [if_neg ht]
  by_cases hdi : 2 ^ buddyMaxOrder < (alignUp s defaultAlignment + headerBytes) % 2 ^ 64
  · rw [if_pos hdi]
    exact ⟨_, _, rfl, (hg.allocateDirect _ _).mono hle⟩
  rw [if_neg hdi]
  obtain ⟨r, h', hrun, hr⟩ := hg.buddyAllocateBlock (alignUp s defaultAlignment)
  exact ⟨r, h', hrun, hr.mono hle⟩

/-- What is written to a live payload changes no header in use. -/
theorem Good.overwrite {s n : ℕ} (hp : p ∈ live) (hsr : p ≤ s)
    (hst : s + n ≤ p + (h.blocks (p - headerBytes)).size) (w : Memory) :
    (h.overwrite s n w).Good live ∧
      ∀ q ∈ live, (h.overwrite s n w).blocks (q - headerBytes) = h.blocks (q - headerBytes) := by
  obtain ⟨T, D, hinv, hnd, hmem⟩ := hg
  obtain ⟨x, lo, hi, hown, rfl⟩ := ((hmem p).1 hp).owns hinv
  rw [Nat.add_sub_cancel] at hst
  have := hown.inside hinv
  have : headerBytes = 80 := rfl
  have hb : ∀ q l' hi', h.Owns T D q l' hi' → ¬ (q < s + n ∧ s < q + headerBytes) := by
    rintro q l' hi' hq ⟨hl, hh⟩
    have := hq.inside hinv
    rcases hown.apart hinv hq with rfl | hlt | hgt
    · omega
    · omega
    · omega
  have har : ∀ a ∈ h.arenaList, ¬ (a < s + n ∧ s < a + arenaHeaderBytes) := by
    rintro a ha ⟨hl, hh⟩
    rcases hown.arena_apart hinv ha with hlt | hgt
    · omega
    · omega
  obtain ⟨hiv', hli⟩ : Inv (h.overwrite s n w) T D ∅ ∧ _ :=
    hinv.congr (fun q l' hi' hq => ⟨if_neg (hb q l' hi' hq), if_neg (hb q l' hi' hq),
        if_neg (hb q l' hi' hq)⟩) (fun a ha => if_neg (har a ha))
      (fun i a ha => ⟨if_neg (har a ha), if_neg (har a ha)⟩) rfl rfl hinv.arenaMapped
      hinv.directMapped
  refine ⟨⟨T, D, hiv', hnd, fun q => (hmem q).trans (hli q).symm⟩, fun q hq => ?_⟩
  obtain ⟨y, l', hi', hy, rfl⟩ := ((hmem q).1 hq).owns hinv
  rw [Nat.add_sub_cancel]
  exact if_neg (hb y l' hi' hy)
end

lemma Good.erase_of_live {D' : Set Direct} {T' : ℕ → Tiling arenaSize} (hnd : live.Nodup)
    (hmem : ∀ p, p ∈ live ↔ h.Live T D p) (hinv : h'.Inv T' D' ∅)
    (hl : ∀ q, h'.Live T' D' q ↔ h.Live T D q ∧ q ≠ p) : h'.Good (live.erase p) := by
  refine ⟨T', D', hinv, hnd.erase p, fun q => ?_⟩
  rw [hnd.mem_erase_iff, hl, hmem, and_comm]

section
variable (hg : h.Good live)
include hg
theorem Good.free (hp : p ∈ live) : ∃ h', h.free (some p) = some h' ∧ h'.Good (live.erase p) := by
  obtain ⟨T, D, hinv, hnd, hmem⟩ := hg
  unfold Heap.free
  dsimp only
  rcases (hmem p).1 hp with ⟨a, ha, o, ⟨k, ho, hno, hu⟩, rfl⟩ | ⟨d, hd, rfl⟩
  · rw [Nat.add_sub_cancel]
    have hde := ((hinv.kept a ha (notMem_empty a)).header ho hno).1
    rw [if_neg (by rw [hde.direct]; exact Bool.false_ne_true)]
    obtain ⟨h', T', hr, hw⟩ := (hinv.work ha).release ho hu
    exact ⟨h', hr, Good.erase_of_live hnd hmem ((hinv.except a).finish hw)
      (hinv.live_remove (inArena_blockAt ho) hw)⟩
  have hdi := hinv.direct d hd
  have : headerBytes = 80 := rfl
  have hlen : d.length ≠ 0 := by
    have hbe := hdi.before
    have his := hdi.inside
    omega
  rw [if_pos hdi.direct, hdi.base, hdi.length, if_pos ⟨hdi.nonzero, hlen⟩]
  refine ⟨_, rfl, ?_⟩
  -- without the mapping first, then without its range
  have hle : h.Inv T (D \ {d}) ∅ :=
    { hinv with
      directApart := fun e he f hf => hinv.directApart e he.1 f hf.1
      mixedApart := fun a ha e he => hinv.mixedApart a ha e he.1
      directMapped := fun e he => hinv.directMapped e he.1
      direct := fun e he => hinv.direct e he.1 }
  have har : ∀ a ∈ h.arenaList, arenaRange a ≠ d.range := fun a ha heq => by
    have hap := hinv.mixedApart a ha d hd
    rw [heq] at hap
    unfold RangesApart Direct.range at hap
    omega
  have hot : ∀ e ∈ D \ {d}, e.range ≠ d.range := fun e he heq => by
    have hap := hinv.directApart e he.1 d hd he.2
    rw [heq] at hap
    unfold RangesApart Direct.range at hap
    omega
  obtain ⟨hi', hl⟩ : Inv (munmap { h with
      directAllocationCount := h.directAllocationCount - 1
      directTotalBytes := h.directTotalBytes - d.length } d.base d.length) T (D \ {d}) ∅ ∧ _ :=
    hle.congr (fun _ _ _ _ => ⟨rfl, rfl, rfl⟩) (fun _ _ => rfl) (fun _ _ _ => ⟨rfl, rfl⟩) rfl rfl
      (fun a ha => (mem_erase_of_ne (har a ha)).2 (hinv.arenaMapped a ha))
      (fun e he => (mem_erase_of_ne (hot e he)).2 (hinv.directMapped e he.1))
  refine Good.erase_of_live hnd hmem hi' fun q => ?_
  rw [hl]
  constructor
  · rintro (⟨a, ha, o, hu, rfl⟩ | ⟨e, he, rfl⟩)
    · refine ⟨.inl ⟨a, ha, o, hu, rfl⟩, fun heq => ?_⟩
      obtain ⟨k, ho, -, -⟩ := hu
      exact (hinv.payload_ne ha (inArena_blockAt ho)).2 ⟨d, hd, heq.symm⟩
    · refine ⟨.inr ⟨e, he.1, rfl⟩, fun heq => ?_⟩
      have hap := hinv.directApart e he.1 d hd he.2
      have hin := hinv.direct e he.1
      have hbe := hin.before
      have his := hin.inside
      have := hdi.before
      have := hdi.inside
      unfold RangesApart Direct.range at hap
      omega
  rintro ⟨hb | ⟨e, he, rfl⟩, hne⟩
  · exact .inl hb
  · exact .inr ⟨e, ⟨he, fun heq => hne (congrArg Direct.ptr heq)⟩, rfl⟩

/-- The live payloads without one that may be NULL. -/
def without (live : List ℕ) : Option ℕ → List ℕ
  | none => live
  | some p => live.erase p

variable {ptr : Option ℕ}
section
variable (hptr : ∀ p, ptr = some p → p ∈ live)
include hptr
lemma Good.free_ptr : ∃ h', h.free ptr = some h' ∧ h'.Good (without live ptr) := by
  cases ptr with
  | none => exact ⟨h, rfl, hg⟩
  | some p => exact hg.free (hptr p rfl)

omit hptr in
theorem Good.calloc (n s : ℕ) (w : Memory) :
    ∃ r h', h.calloc n s w = some (r, h') ∧ h'.Good (r.toList ++ live) := by
  unfold Heap.calloc
  split_ifs with hz hwr
  · obtain ⟨r, h', hrun, hr⟩ := hg.malloc 0
    exact ⟨r, h', hrun, hr.good⟩
  · exact ⟨none, h, rfl, hg⟩
  obtain ⟨r, h', hrun, hr⟩ := hg.malloc (n * s)
  rw [hrun]
  cases r with
  | none => exact ⟨none, h', rfl, hr.good⟩
  | some q =>
    have := hr.fits q rfl
    exact ⟨some q, _, rfl, (hr.good.overwrite mem_cons_self (Nat.le_refl q) (by omega) w).1⟩

omit hptr in
/-- `realloc` of a live payload. -/
lemma Good.realloc_some (hp : p ∈ live) (s : ℕ) (w : Memory) :
    ∃ r h', h.realloc (some p) s w = some (r, h') ∧
      (r = none ∧ h'.Good (if s = 0 then live.erase p else live) ∨
        ∃ q, r = some q ∧ h'.Good (q :: live.erase p)) := by
  unfold Heap.realloc
  dsimp only
  by_cases hz : s = 0
  · rw [if_pos hz, if_pos hz]
    obtain ⟨h', hrun, hg'⟩ := hg.free hp
    rw [hrun]
    exact ⟨none, h', rfl, .inl ⟨rfl, hg'⟩⟩
  rw [if_neg hz, if_neg hz]
  -- the payload stays where it is
  have hsa : h.Good (p :: live.erase p) := by
    obtain ⟨T, D, hinv, hnd, hmem⟩ := hg
    have hpe := perm_cons_erase hp
    exact ⟨T, D, hinv, hpe.nodup hnd, fun q => (hpe.mem_iff.symm).trans (hmem q)⟩
  by_cases hwr : alignUp s defaultAlignment < s
  · rw [if_pos hwr]
    exact ⟨none, h, rfl, .inl ⟨rfl, hg⟩⟩
  rw [if_neg hwr]
  have hle := Nat.le_of_not_lt hwr
  by_cases hdi : (h.blocks (p - headerBytes)).flagDirect = true ∧
      alignUp s defaultAlignment ≤ (h.blocks (p - headerBytes)).size
  · rw [if_pos hdi]
    exact ⟨some p, h, rfl, .inr ⟨p, rfl, hsa⟩⟩
  rw [if_neg hdi]
  by_cases hb : (h.blocks (p - headerBytes)).flagDirect = false ∧
      (h.blocks (p - headerBytes)).buddyFree = false ∧
      (h.blocks (p - headerBytes)).buddyUsed = true ∧
      alignUp s defaultAlignment ≤ (h.blocks (p - headerBytes)).size
  · rw [if_pos hb]
    exact ⟨some p, h, rfl, .inr ⟨p, rfl, hsa⟩⟩
  rw [if_neg hb]
  -- a new payload, either way
  have hnew : ∃ r h', (if 2 ^ buddyMaxOrder < (alignUp s defaultAlignment + headerBytes) % 2 ^ 64 ∨
      (h.blocks (p - headerBytes)).flagDirect = true then
        some (h.allocateDirect (alignUp s defaultAlignment) defaultAlignment)
      else (h.buddyAllocateBlock (alignUp s defaultAlignment)).map fun r =>
        (r.1.map (· + headerBytes), r.2)) = some (r, h') ∧ Gives live s r h' := by
    split_ifs
    · exact ⟨_, _, rfl, (hg.allocateDirect _ _).mono hle⟩
    obtain ⟨r, h', hrun, hr⟩ := hg.buddyAllocateBlock (alignUp s defaultAlignment)
    exact ⟨r, h', hrun, hr.mono hle⟩
  obtain ⟨r, h', hrun, hr⟩ := hnew
  rw [hrun]
  cases r with
  | none => exact ⟨none, h', rfl, .inl ⟨rfl, hr.good⟩⟩
  | some q =>
    dsimp only
    have hf := hr.fits q rfl
    have hgood : h'.Good (q :: live) := hr.good
    have hne : q ≠ p := by
      rintro rfl
      obtain ⟨-, -, -, hnd, -⟩ := hgood
      exact (nodup_cons.1 hnd).1 hp
    have hc : (if (h.blocks (p - headerBytes)).size < s then (h.blocks (p - headerBytes)).size
        else s) ≤ (h'.blocks (q - headerBytes)).size := by
      split_ifs
      · omega
      · exact hf
    obtain ⟨hg1, -⟩ := hgood.overwrite mem_cons_self (Nat.le_refl q) (Nat.add_le_add_left hc q) w
    obtain ⟨h2, hr2, hg2⟩ := hg1.free (mem_cons_of_mem q hp)
    rw [erase_cons_tail (by simpa using hne)] at hg2
    rw [hr2]
    exact ⟨some q, h2, rfl, .inr ⟨q, rfl, hg2⟩⟩

/-- The live payloads after a call of `realloc` or `reallocarray`. `gone`: it was to give the
payload back. -/
def reallocated (live : List ℕ) (ptr : Option ℕ) (gone : Prop) [Decidable gone] : Option ℕ → List ℕ
  | none => if gone then without live ptr else live
  | some q => q :: without live ptr

theorem Good.realloc (s : ℕ) (w : Memory) : ∃ r h', h.realloc ptr s w = some (r, h') ∧
      h'.Good (reallocated live ptr (s = 0) r) := by
  cases ptr with
  | none =>
    obtain ⟨r, h', hrun, hr⟩ := hg.malloc s
    refine ⟨r, h', hrun, ?_⟩
    cases r with
    | none =>
      show h'.Good (if s = 0 then live else live)
      rw [ite_self]
      exact hr.good
    | some q => exact hr.good
  | some p =>
    obtain ⟨r, h', hrun, ⟨rfl, hg'⟩ | ⟨q, rfl, hg'⟩⟩ := hg.realloc_some (hptr p rfl) s w
    · exact ⟨none, h', hrun, hg'⟩
    · exact ⟨some q, h', hrun, hg'⟩

theorem Good.reallocarray (n s : ℕ) (w : Memory) : ∃ r h', h.reallocarray ptr n s w = some (r, h') ∧
      h'.Good (reallocated live ptr (n = 0 ∨ s = 0) r) := by
  unfold Heap.reallocarray
  by_cases hz : n = 0 ∨ s = 0
  · rw [if_pos hz]
    obtain ⟨h', hr, hg'⟩ := hg.free_ptr hptr
    rw [hr]
    refine ⟨none, h', rfl, ?_⟩
    rw [reallocated, if_pos hz]
    exact hg'
  rw [if_neg hz]
  by_cases hwr : (2 ^ 64 - 1) / s < n
  · rw [if_pos hwr]
    refine ⟨none, h, rfl, ?_⟩
    rw [reallocated, if_neg hz]
    exact hg
  rw [if_neg hwr]
  obtain ⟨r, h', hr, hg'⟩ := hg.realloc hptr (n * s) w
  refine ⟨r, h', hr, ?_⟩
  cases r with
  | none =>
    rw [reallocated, if_neg (by rw [Nat.mul_eq_zero]; exact hz)] at hg'
    rw [reallocated, if_neg hz]
    exact hg'
  | some q => exact hg'
end

/-! ## Safety -/

/-- What holds in every reachable state, with the blocks that `T` gives for each arena. -/
structure Safe (h : Heap) (T : ℕ → Tiling arenaSize) (live : List ℕ) : Prop where
  /-- The blocks tile the whole arena. -/
  size : ∀ a ∈ h.arenaList, (h.arenas a).buddySize = arenaSize
  /-- Every block has its header, and is either free or in use. -/
  header : ∀ a ∈ h.arenaList, ∀ o k, (T a).order o = some k → BuddyOrderValid k ∧
    (h.blocks (blockAt a o)).Describes a o k ∧
    (h.blocks (blockAt a o)).buddyUsed = !(h.blocks (blockAt a o)).buddyFree
  /-- The blocks that are not free are those that were given out. -/
  inUse : ∀ a ∈ h.arenaList, ∀ o k, (T a).order o = some k →
    ((h.blocks (blockAt a o)).buddyFree = false ↔ blockAt a o + headerBytes ∈ live)
  /-- The free lists have the free blocks of their orders, each once. -/
  listed : ∀ a ∈ h.arenaList, ∀ i, ∃ l,
    h.links.Threads none ((h.arenas a).freelists i) l ∧ l.Nodup ∧
      ∀ p, p ∈ l ↔ ∃ o, p = blockAt a o ∧ (T a).order o = some (i + buddyMinOrder) ∧
        (h.blocks p).buddyFree = true
  /-- The list of an order has the arenas with a free block of the order. -/
  ordered : ∀ i, ∃ l, (h.orderLinks i).Threads none (h.orderHeads i) l ∧ l.Nodup ∧
    ∀ a, a ∈ l ↔ a ∈ h.arenaList ∧ ∃ o, (T a).order o = some (i + buddyMinOrder) ∧
      (h.blocks (blockAt a o)).buddyFree = true
  /-- No two free blocks of an order are buddies. -/
  coalesced : ∀ a ∈ h.arenaList, ∀ o k, (T a).order o = some k →
    (T a).order (o ^^^ 2 ^ k) = some k → (h.blocks (blockAt a o)).buddyFree = true →
      (h.blocks (blockAt a (o ^^^ 2 ^ k))).buddyFree = false
  /-- Live payloads do not meet. -/
  disjoint : live.Nodup ∧ ∀ p ∈ live, ∀ q ∈ live, p ≠ q →
    p + (h.blocks (p - headerBytes)).size ≤ q ∨ q + (h.blocks (q - headerBytes)).size ≤ p

lemma Good.safe : ∃ T, h.Safe T live := by
  obtain ⟨T, D, hinv, hnd, hmem⟩ := hg
  have hk := fun a ha => hinv.kept a ha (notMem_empty a)
  have hli : ∀ a i p, h.Listed a (T a) ∅ i p ↔ ∃ o, p = blockAt a o ∧
      (T a).order o = some (i + buddyMinOrder) ∧ (h.blocks p).buddyFree = true := fun a i p =>
    exists_congr fun o => by simp
  refine ⟨T, fun a ha => (hk a ha).size, fun a ha o k ho => ⟨(hk a ha).valid ho,
    (hk a ha).header ho (notMem_empty o)⟩, fun a ha o k ho => ?_, fun a ha i => ?_, fun i => ?_,
    fun a ha o k ho hb => (hk a ha).coalesced ho hb (notMem_empty _) (notMem_empty _),
    hnd, fun p hp q hq hne => ?_⟩
  · rw [hmem, Live.split ha]
    constructor
    · exact fun hf => .inr (.inl ⟨o, ⟨k, ho, notMem_empty o, hf⟩, rfl⟩)
    · obtain ⟨hot, hdi⟩ := hinv.payload_ne ha (inArena_blockAt ho)
      rintro (hb | ⟨x, ⟨j, -, -, hf⟩, he⟩ | hd)
      · exact absurd hb hot
      · rw [Nat.add_right_cancel he, hf]
      · exact absurd hd hdi
  · obtain ⟨l, hl⟩ := (hk a ha).lists i
    exact ⟨l, hl.threads, hl.nodup, fun p => (hl.mem p).trans (hli a i p)⟩
  · obtain ⟨l, ht, hn', hl⟩ := hinv.ordered i
    refine ⟨l, ht, hn', fun a => (hl a).trans (and_congr_right fun ha => ?_)⟩
    obtain ⟨l', hl'⟩ := (hk a ha).lists i
    rw [Ne, hl'.threads.head_eq_none_iff]
    constructor
    · intro hne
      obtain ⟨p, hp⟩ := exists_mem_of_ne_nil l' hne
      obtain ⟨o, rfl, ho, -, hf⟩ := (hl'.mem p).1 hp
      exact ⟨o, ho, hf⟩
    · rintro ⟨o, ho, hf⟩
      exact ne_nil_of_mem ((hl'.mem _).2 ⟨o, rfl, ho, notMem_empty o, hf⟩)
  obtain ⟨x, lo, hi, hx, rfl⟩ := ((hmem p).1 hp).owns hinv
  obtain ⟨y, lo', hi', hy, rfl⟩ := ((hmem q).1 hq).owns hinv
  have := hx.inside hinv
  have := hy.inside hinv
  rw [Nat.add_sub_cancel, Nat.add_sub_cancel]
  rcases hx.apart hinv hy with rfl | hlt | hgt
  · exact absurd rfl hne
  · exact .inl (by omega)
  · exact .inr (by omega)
end

/-- The heap before the first call. -/
def start (memory : Memory) (answers : ℕ → Option ℕ) : Heap :=
  { memory with
    arenaList := [], orderHeads := fun _ => none, directAllocationCount := 0
    directTotalBytes := 0, doubleFreeAttempts := 0, maps := [], answers := answers, calls := 0 }

lemma good_start (m : Memory) (an : ℕ → Option ℕ) : (start m an).Good [] := by
  refine ⟨fun _ => Tiling.single 27, ∅, ⟨?_, ?_, ?_, ?_, ?_, ?_, ?_, ?_⟩, nodup_nil, fun p => ?_⟩
  · exact fun a ha => nomatch ha
  · exact fun d hd => hd.elim
  · exact fun a ha => nomatch ha
  · exact fun a ha => nomatch ha
  · exact fun d hd => hd.elim
  · exact fun a ha => nomatch ha
  · exact fun i => ⟨[], rfl, nodup_nil, fun b =>
      ⟨fun hb => absurd hb not_mem_nil, fun hb => absurd hb.1 not_mem_nil⟩⟩
  · exact fun d hd => hd.elim
  refine iff_of_false (not_mem_nil) ?_
  rintro (⟨a, ha, -⟩ | ⟨d, hd, -⟩)
  · exact nomatch ha
  · exact hd.elim
end Heap

/-! ## Runs -/

/-- What a process does. The last argument says what the headers hold whose bytes are written. -/
inductive Call
  | malloc (size : ℕ)
  | calloc (nmemb size : ℕ) (w : Memory)
  | realloc (ptr : Option ℕ) (size : ℕ) (w : Memory)
  | reallocarray (ptr : Option ℕ) (nmemb size : ℕ) (w : Memory)
  | free (ptr : Option ℕ)
  | write (ptr start n : ℕ) (w : Memory)

/-- The heap and the live payloads. -/
structure State where
  heap : Heap
  live : List ℕ

namespace State
/-- Pointers are live or NULL, and writes stay inside a live payload. -/
def Allowed (s : State) : Call → Prop
  | .malloc _ => True
  | .calloc _ _ _ => True
  | .realloc ptr _ _ => ∀ p, ptr = some p → p ∈ s.live
  | .reallocarray ptr _ _ _ => ∀ p, ptr = some p → p ∈ s.live
  | .free ptr => ∀ p, ptr = some p → p ∈ s.live
  | .write ptr start n _ => ptr ∈ s.live ∧ ptr ≤ start ∧
      start + n ≤ ptr + (s.heap.blocks (ptr - headerBytes)).size

/-- A step of the process. -/
def call (s : State) : Call → Option State
  | .malloc size => (s.heap.malloc size).map fun r => ⟨r.2, r.1.toList ++ s.live⟩
  | .calloc nmemb size w => (s.heap.calloc nmemb size w).map fun r => ⟨r.2, r.1.toList ++ s.live⟩
  | .realloc ptr size w => (s.heap.realloc ptr size w).map fun r =>
      ⟨r.2, Heap.reallocated s.live ptr (size = 0) r.1⟩
  | .reallocarray ptr nmemb size w => (s.heap.reallocarray ptr nmemb size w).map fun r =>
      ⟨r.2, Heap.reallocated s.live ptr (nmemb = 0 ∨ size = 0) r.1⟩
  | .free ptr => (s.heap.free ptr).map fun h => ⟨h, Heap.without s.live ptr⟩
  | .write _ start n w => some ⟨s.heap.overwrite start n w, s.live⟩

/-- The states of a process, whatever its memory held first and whatever `mmap` answers. -/
inductive Reached (memory : Memory) (answers : ℕ → Option ℕ) : State → Prop
  | start : Reached memory answers ⟨Heap.start memory answers, []⟩
  | step {s s' : State} {c : Call} : Reached memory answers s → s.Allowed c →
      s.call c = some s' → Reached memory answers s'

lemma good_call {s : State} (hg : s.heap.Good s.live) {c : Call} (hc : s.Allowed c) :
    ∃ s', s.call c = some s' ∧ s'.heap.Good s'.live := by
  cases c with
  | malloc size =>
    obtain ⟨r, h', hrun, hr⟩ := hg.malloc size
    exact ⟨⟨h', r.toList ++ s.live⟩, by rw [call, hrun]; rfl, hr.good⟩
  | calloc nm size w =>
    obtain ⟨r, h', hrun, hr⟩ := hg.calloc nm size w
    exact ⟨⟨h', r.toList ++ s.live⟩, by rw [call, hrun]; rfl, hr⟩
  | realloc ptr size w =>
    obtain ⟨r, h', hrun, hr⟩ := hg.realloc hc size w
    exact ⟨⟨h', _⟩, by rw [call, hrun]; rfl, hr⟩
  | reallocarray ptr nm size w =>
    obtain ⟨r, h', hrun, hr⟩ := hg.reallocarray hc nm size w
    exact ⟨⟨h', _⟩, by rw [call, hrun]; rfl, hr⟩
  | free ptr =>
    obtain ⟨h', hrun, hr⟩ := hg.free_ptr hc
    exact ⟨⟨h', _⟩, by rw [call, hrun]; rfl, hr⟩
  | write ptr start n w => exact ⟨_, rfl, (hg.overwrite hc.1 hc.2.1 hc.2.2 w).1⟩

lemma good_of_reached {m : Memory} {a : ℕ → Option ℕ} {s : State}
    (hs : Reached m a s) : s.heap.Good s.live := by
  induction hs with
  | start => exact Heap.good_start m a
  | step _ hc hr ih =>
    obtain ⟨s', hr', hg⟩ := good_call ih hc
    rw [hr] at hr'
    exact some.inj hr' ▸ hg

/-- In every reachable state the heap is safe, and every allowed call returns. -/
theorem heap_safe (memory : Memory) (answers : ℕ → Option ℕ) {s : State}
    (hs : Reached memory answers s) :
    (∃ T, s.heap.Safe T s.live) ∧ ∀ c, s.Allowed c → ∃ s', s.call c = some s' := by
  have hg := good_of_reached hs
  refine ⟨hg.safe, fun c hc => ?_⟩
  obtain ⟨s', hr, -⟩ := good_call hg hc
  exact ⟨s', hr⟩

/-- Memory that holds nothing. -/
def blank : Memory where
  blocks _ :=
    { arena := none, buddyOrder := 0, buddyFree := false, buddyUsed := false, buddyOffset := 0
      mappingBase := 0, mappingSize := 0, size := 0
      flagFree := false, flagDirect := false, flagBuddy := false }
  links := ⟨fun _ => none, fun _ => none⟩
  arenas _ := ⟨0, 0, fun _ => none⟩
  orderLinks _ := ⟨fun _ => none, fun _ => none⟩

/-- A block of a new arena, and a direct mapping. -/
theorem heap_safe_two : ∃ s : State, s.live = [0x60000050, 0x40001050] ∧
    ∃ T, s.heap.Safe T s.live := by
  have hr : ((call ⟨Heap.start blank fun n => some (0x40000000 + n * 0x20000000), []⟩
      (.malloc 100)).bind fun s => (s.call (.malloc (2 ^ 27))).map State.live) =
        some [0x60000050, 0x40001050] := by decide +kernel
  obtain ⟨s1, hs1, hre⟩ := bind_eq_some_iff.1 hr
  obtain ⟨s2, hs2, hl⟩ := map_eq_some_iff.1 hre
  have h2 : Reached blank (fun n => some (0x40000000 + n * 0x20000000)) s2 :=
    .step (.step .start (show Allowed _ (.malloc 100) from trivial) hs1)
      (show Allowed _ (.malloc (2 ^ 27)) from trivial) hs2
  exact ⟨s2, hl, (heap_safe blank _ h2).1⟩
end State
end Menios.Libc.Buddy
