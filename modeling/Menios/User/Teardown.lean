import Menios.User.Vm

/-!
# Tearing down an address space

`proc_release_user_memory` (`src/kernel/proc/proc.c`, lines 259-279) calls `vm_unmap` for the
last region of a process until no region is left or a call fails.

**Defect.** `vm_unmap` (`src/kernel/user/vm.c`, lines 199-230) looks for the region of the page
that holds the base it is given, but `map_segment` (`src/kernel/user/elf_loader.c`, line 155)
records the base of a segment as the file gives it. A region whose base is not at the start
of a page does not hold the start of its page. Then no region is found, and the loop ends, or
that of another segment is found and removed in its place. Segments that share a page
overwrite each other's mapping there, and one of the two frames is never given back.

Results:

* `unmapPage_spec`, `unmapPages_spec`, `vmUnmap_spec`: what is unmapped and which frames are
  given back.
* `releaseLoop_spec`: the teardown of a tidy address space.
-/

namespace Menios.User.Space
open Common Mem Mem.Paging List

/-! ## Frames of an address space -/

/-- The pages of the lower half are user pages on frames of the page allocator, and no frame is
mapped twice. -/
structure Backed (s : Space) : Prop where
  sound : s.Sound
  user : ∀ v a w u, v.toNat < userLimit → s.mapping v = some (a, w, u) →
    u = true ∧ a / pageSize < pageLimit
  apart : ∀ v v' a w w', v.toNat < userLimit → s.mapping v = some (a, w, true) →
    s.mapping v' = some (a, w', true) → SamePage v v'

section
variable {s s' : Space} {v : UInt64}
lemma Backed.apart_page (h : s.Backed) {v' : UInt64} {a a' : ℕ} {w w' : Bool}
    (hl : v.toNat < userLimit) (hv : s.mapping v = some (a, w, true))
    (hv' : s.mapping v' = some (a', w', true)) (hp : a / pageSize = a' / pageSize) :
    SamePage v v' := by
  have ha := h.sound.page_aligned hv
  have ha' := h.sound.page_aligned hv'
  obtain rfl : a = a' := by
    simp only [pageSize] at ha ha' hp
    omega
  exact h.apart v v' a w w' hl hv hv'

/-- `unmap_page` gives the frame back, and everything else stays. -/
theorem unmapPage_spec (h : s.Backed) (hl : v.toNat < userLimit) {a : ℕ} {w u : Bool}
    (hv : s.mapping v = some (a, w, u)) :
    ∃ s', s.unmapPage v = some (true, [a], s') ∧ s'.Backed ∧ s'.regions = s.regions ∧
      s'.mapping v = none ∧ (∀ v', ¬ SamePage v v' → s'.mapping v' = s.mapping v') ∧
      (∀ page, s.paging.pmm.Free page → s'.paging.pmm.Free page) ∧
      s'.paging.pmm.Free (a / pageSize) := by
  obtain ⟨rfl, hlt⟩ := h.user v a w u hl hv
  have hv0 : s.paging.getMapping s.root v = some (a, w, true) := by
    rw [← activeRoot_eq h.sound.root]
    exact hv
  obtain ⟨hb, hnot⟩ := h.sound.frames v a w hv
  obtain ⟨paging, hr, hu⟩ := unmapPageInRoot_spec h.sound.tree h.sound.root hv0 hlt hnot
  obtain ⟨s', hs'⟩ : ∃ s' : Space, s' = { s with
      paging := paging
      segments := unregisterUserSegment s.segments a.toUInt64 1 } := ⟨_, rfl⟩
  have hmap : ∀ v', s'.mapping v' = paging.getMapping s.root v' := by
    intro v'
    rw [hs']
    exact congrArg (paging.getMapping · v') (activeRoot_eq h.sound.root)
  have hm0 : ∀ v', s.mapping v' = s.paging.getMapping s.root v' := by
    intro v'
    rw [mapping, activeRoot_eq h.sound.root]
  have hh : ∀ v', SamePage v v' → s'.mapping v' = none := by
    intro v' hsa
    rw [hmap, ← getMapping_congr paging h.sound.root hsa]
    exact hu.here
  have hot : ∀ v', ¬ SamePage v v' → s'.mapping v' = s.mapping v' := by
    intro v' hne
    rw [hmap, hm0]
    exact hu.others v' hne
  have hold : ∀ v' m, s'.mapping v' = some m → ¬ SamePage v v' ∧ s.mapping v' = some m := by
    intro v' m hm
    have hne : ¬ SamePage v v' := fun hsa => by
      rw [hh v' hsa] at hm
      cases hm
    rw [hot v' hne] at hm
    exact ⟨hne, hm⟩
  refine ⟨s', ?_, ⟨⟨?_, ?_, ?_⟩, ?_, ?_⟩, by rw [hs'], ?_, hot, ?_, ?_⟩
  · rw [unmapPage, hv0]
    rw [hr, hs']
  · rw [hs']
    exact h.sound.root
  · rw [hs']
    exact hu.tree
  · intro v' a' w' hm
    obtain ⟨hne, hm⟩ := hold v' _ hm
    obtain ⟨hb', hn'⟩ := h.sound.frames v' a' w' hm
    rw [hs']
    refine ⟨?_, fun ht => hn' (hu.tables _ ht)⟩
    rw [not_free_iff] at hb' ⊢
    refine hb'.imp_right fun hus => hu.busy _ hus hn' fun hp => hne ?_
    exact h.apart_page hl hv hm hp.symm
  · intro v' a' w' u' hl' hm
    exact h.user v' a' w' u' hl' (hold v' _ hm).2
  · intro v1 v2 a' w1 w2 hl1 hm1 hm2
    exact h.apart v1 v2 a' w1 w2 hl1 (hold v1 _ hm1).2 (hold v2 _ hm2).2
  · exact hh v ((samePage_iff v v).2 rfl)
  · intro page hf
    rw [hs']
    exact ⟨hf.1, hu.free page hf.2⟩
  rw [hs']
  exact ⟨hlt, hu.freed⟩

lemma unmapPage_of_none (h : s.Sound) (hv : s.mapping v = none) :
    s.unmapPage v = some (false, [], s) := by
  have hv0 : s.paging.getMapping s.root v = none := by
    rw [← activeRoot_eq h.root]
    exact hv
  rw [unmapPage, hv0]
end

lemma toNat_pageAt {b : UInt64} {p : ℕ} (h : b.toNat + p * 4096 < 2 ^ 64) :
    (pageAt b p).toNat = b.toNat + p * 4096 := by
  have hof : p.toUInt64 * 4096 = (p * 4096).toUInt64 := by simp [Nat.toUInt64_eq]
  rw [pageAt, hof, toNat_add_ofNat h]

lemma samePage_pageAt_iff {b v : UInt64} {p : ℕ} (hal : b.toNat % 4096 = 0)
    (he : b.toNat + (p + 1) * 4096 ≤ userLimit) (hv : v.toNat < userLimit) :
    SamePage (pageAt b p) v ↔
      b.toNat + p * 4096 ≤ v.toNat ∧ v.toNat < b.toNat + (p + 1) * 4096 := by
  have := two_pow_47
  have ha : (pageAt b p).toNat = b.toNat + p * 4096 := toNat_pageAt (by omega)
  rw [samePage_iff, ha]
  omega

/-- The frames of the first pages of a range. -/
def framesOf (s : Space) (base : UInt64) (count : ℕ) : List ℕ :=
  (List.range count).filterMap fun page => (s.mapping (pageAt base page)).map Prod.fst

lemma framesOf_succ (s : Space) (b : UInt64) (c : ℕ) : s.framesOf b (c + 1) =
      s.framesOf b c ++ ((s.mapping (pageAt b c)).map Prod.fst).toList := by
  rw [framesOf, range_succ, filterMap_append, framesOf]
  cases hm : s.mapping (pageAt b c) with
  | none => simp [hm]
  | some m => simp [hm]

/-- The pages from `base` on were unmapped and their frames given back. -/
structure Cleared (s s' : Space) (base : UInt64) (count : ℕ) : Prop where
  backed : s'.Backed
  regions : s'.regions = s.regions
  gone : ∀ v, base.toNat ≤ v.toNat → v.toNat < base.toNat + count * 4096 → s'.mapping v = none
  kept : ∀ v, v.toNat < userLimit →
    (v.toNat < base.toNat ∨ base.toNat + count * 4096 ≤ v.toNat) → s'.mapping v = s.mapping v
  free : ∀ page, s.paging.pmm.Free page → s'.paging.pmm.Free page
  freed : ∀ a ∈ s.framesOf base count, s'.paging.pmm.Free (a / pageSize)

theorem unmapPages_spec {s : Space} (h : s.Backed) {b : UInt64} {c : ℕ}
    (hal : b.toNat % 4096 = 0) (he : b.toNat + c * 4096 ≤ userLimit) :
    ∃ s', s.unmapPages b c = some (s.framesOf b c, s') ∧ Cleared s s' b c := by
  have := two_pow_47
  induction c with
  | zero =>
    exact ⟨s, rfl, h, rfl, fun v _ _ => by omega, fun v _ _ => rfl, fun _ hf => hf,
      fun a ha => by simp [framesOf] at ha⟩
  | succ c ih =>
    have hne : b.toNat + (c + 1) * 4096 = b.toNat + c * 4096 + 4096 := by
      rw [Nat.add_one_mul, Nat.add_assoc]
    have he' := he
    rw [hne] at he'
    obtain ⟨s1, hr, hc⟩ := ih (Nat.le_trans (Nat.le_add_right _ _) he')
    have : (pageAt b c).toNat = b.toNat + c * 4096 := toNat_pageAt (by omega)
    have hsa := hc.kept (pageAt b c) (by omega) (by omega)
    rw [unmapPages, hr, framesOf_succ]
    dsimp only
    cases hm : s.mapping (pageAt b c) with
    | none =>
      rw [hm] at hsa
      rw [unmapPage_of_none hc.backed.sound hsa]
      refine ⟨s1, rfl, hc.backed, hc.regions, fun v hge hlt => ?_, fun v hl hout => ?_, hc.free, ?_⟩
      · rw [hne] at hlt
        by_cases hv : v.toNat < b.toNat + c * 4096
        · exact hc.gone v hge hv
        · rw [← hc.backed.sound.mapping_congr
            ((samePage_pageAt_iff hal he (by omega)).2 ⟨Nat.not_lt.1 hv, by rwa [hne]⟩)]
          exact hsa
      · rw [hne] at hout
        exact hc.kept v hl (by omega)
      rw [framesOf_succ, hm]
      simpa using hc.freed
    | some m =>
      obtain ⟨a, w, u⟩ := m
      rw [hm] at hsa
      obtain ⟨s2, hu, hb, hre, hno, hot, hfr, hfd⟩ := unmapPage_spec hc.backed (by omega) hsa
      rw [hu]
      refine ⟨s2, rfl, hb, hre.trans hc.regions, fun v hge hlt => ?_,
        fun v hl hout => ?_, fun page hf => hfr page (hc.free page hf), ?_⟩
      · by_cases hv : SamePage (pageAt b c) v
        · rw [← hb.sound.mapping_congr hv]
          exact hno
        · rw [hot v hv]
          rw [hne] at hlt
          rw [samePage_pageAt_iff hal he (by omega), hne] at hv
          exact hc.gone v hge (by omega)
      · rw [hne] at hout
        rw [hot v, hc.kept v hl (by omega)]
        rw [samePage_pageAt_iff hal he hl, hne]
        omega
      rw [framesOf_succ, hm]
      intro a' ha'
      rcases mem_append.1 ha' with hold | hnew
      · exact hfr _ (hc.freed a' hold)
      obtain rfl : a' = a := by simpa using hnew
      exact hfd

/-! ## Tidy address spaces -/
end Menios.User.Space

namespace Menios.User
open Common Mem Mem.Paging List

namespace Region
/-- The number of pages that `vm_unmap` goes through for the region. -/
def pages (r : Region) : ℕ := (pageAlignUp r.length / 4096).toNat

/-- The address is on one of these pages. -/
def Spans (r : Region) (v : UInt64) : Prop :=
  r.base.toNat ≤ v.toNat ∧ v.toNat < r.base.toNat + r.pages * 4096

/-- The region starts at a page and lies in the lower half. -/
structure Placed (r : Region) : Prop where
  aligned : r.base.toNat % 4096 = 0
  nonempty : r.length ≠ 0
  low : r.base.toNat + r.length.toNat ≤ Space.userLimit

lemma pages_eq {r : Region} (hle : r.length ≠ 0) (hl : r.length.toNat ≤ Space.userLimit) :
    r.pages = (r.length.toNat + 4095) / 4096 := by
  have : (2 : ℕ) ^ 47 = Space.userLimit := by decide
  have h4096 : (4096 : UInt64).toNat = 4096 := rfl
  have hone : (1 : UInt64).toNat = 1 := rfl
  rw [pages, pageAlignUp, if_neg hle]
  by_cases hmod : r.length % 4096 = 0
  · rw [if_pos hmod]
    have hm' := congrArg UInt64.toNat hmod
    rw [UInt64.toNat_mod, h4096, UInt64.toNat_zero] at hm'
    rw [UInt64.toNat_div, h4096]
    omega
  rw [if_neg hmod]
  have hm' : r.length.toNat % 4096 ≠ 0 := fun he => hmod (UInt64.toNat_inj.1 (by
    rw [UInt64.toNat_mod, h4096, he, UInt64.toNat_zero]))
  rw [UInt64.toNat_div, UInt64.toNat_mul, UInt64.toNat_add, UInt64.toNat_div, h4096, hone]
  omega

namespace Placed
variable {r : Region} (h : r.Placed)
include h
lemma pages_bounds : r.length.toNat ≤ r.pages * 4096 ∧ 0 < r.pages ∧
      r.base.toNat + r.pages * 4096 ≤ Space.userLimit := by
  have hl := h.low
  have := h.aligned
  have : 0 < r.length.toNat := Nat.pos_of_ne_zero fun hz => h.nonempty (UInt64.toNat_inj.1 hz)
  rw [pages_eq h.nonempty (by omega)]
  simp only [Space.userLimit] at hl ⊢
  omega

lemma holds_iff (v : UInt64) :
    r.holds v = true ↔ r.base.toNat ≤ v.toNat ∧ v.toNat < r.base.toNat + r.length.toNat := by
  have := h.low
  have : (2 : ℕ) ^ 47 = Space.userLimit := by decide
  have he : (r.base + r.length).toNat = r.base.toNat + r.length.toNat := by
    rw [UInt64.toNat_add]
    omega
  rw [holds, decide_eq_true_iff, limit, UInt64.le_iff_toNat_le, UInt64.lt_iff_toNat_lt, he]

lemma spans_of_holds {v : UInt64} (hv : r.holds v = true) : r.Spans v := by
  obtain ⟨hp, -⟩ := h.pages_bounds
  obtain ⟨hge, hlt⟩ := (h.holds_iff v).1 hv
  exact ⟨hge, by omega⟩

lemma holds_base : r.holds r.base = true := by
  have : 0 < r.length.toNat := Nat.pos_of_ne_zero fun hz => h.nonempty (UInt64.toNat_inj.1 hz)
  exact (h.holds_iff _).2 ⟨le_rfl, by omega⟩

lemma pageAlignDown_base : pageAlignDown r.base = r.base := by
  have := h.aligned
  refine UInt64.toNat_inj.1 ?_
  rw [toNat_pageAlignDown]
  omega
end Placed
end Region

namespace Space
/-- Every page of the lower half belongs to a region, the regions are placed at pages, and no
two of them share a page. -/
structure Tidy (s : Space) : Prop extends s.Backed where
  placed : ∀ r ∈ s.regions, r.Placed
  disjoint : s.regions.Pairwise fun r r' => ∀ v, r.Spans v → ¬ r'.Spans v
  covered : ∀ v m, v.toNat < userLimit → s.mapping v = some m → ∃ r ∈ s.regions, r.Spans v

variable {s : Space}
/-- `vm_unmap` for the last region of a tidy address space. -/
theorem vmUnmap_spec (h : s.Tidy) {i : List Region} {r : Region} (hr : s.regions = i ++ [r]) :
    ∃ s', s.vmUnmap r.base r.length = some (true, s.framesOf r.base r.pages, s') ∧ s'.Tidy ∧
      s'.regions = i ∧ (∀ v, r.Spans v → s'.mapping v = none) ∧
      (∀ v, v.toNat < userLimit → ¬ r.Spans v → s'.mapping v = s.mapping v) ∧
      (∀ page, s.paging.pmm.Free page → s'.paging.pmm.Free page) ∧
      ∀ a ∈ s.framesOf r.base r.pages, s'.paging.pmm.Free (a / pageSize) := by
  have hmem : ∀ r' ∈ i, r' ∈ s.regions := fun r' hr' => by simp [hr, hr']
  have hp : r.Placed := h.placed r (by simp [hr])
  obtain ⟨-, hpos, hend⟩ := hp.pages_bounds
  have hdi := h.disjoint
  rw [hr, pairwise_append] at hdi
  obtain ⟨hin, -, hcr⟩ := hdi
  -- only the region itself holds its base
  have hf : vmRegionFind s.regions r.base = some i.length := by
    have hno : i.findIdx? (·.holds r.base) = none := by
      rw [List.findIdx?_eq_none_iff]
      intro r' hr'
      by_contra hh
      rw [Bool.not_eq_false] at hh
      exact hcr r' hr' r (by simp) r.base ((h.placed r' (hmem r' hr')).spans_of_holds hh)
        (hp.spans_of_holds hp.holds_base)
    rw [vmRegionFind, hr, List.findIdx?_append, hno, List.findIdx?_cons, hp.holds_base]
    simp
  obtain ⟨s1, hrun, hc⟩ := unmapPages_spec h.toBacked hp.aligned hend
  have hsa : ∀ v, mapping { s1 with regions := s1.regions.eraseIdx i.length } v =
      s1.mapping v := fun _ => rfl
  have he : s1.regions.eraseIdx i.length = i := by
    rw [hc.regions, hr, eraseIdx_append_of_length_le le_rfl]
    simp
  refine ⟨{ s1 with regions := s1.regions.eraseIdx i.length }, ?_,
    ⟨{ hc.backed with sound := { hc.backed.sound with } }, ?_, ?_, ?_⟩, he, ?_, ?_, hc.free,
    hc.freed⟩
  · rw [vmUnmap, if_neg hp.nonempty]
    dsimp only
    rw [hp.pageAlignDown_base, hf]
    rw [show (pageAlignUp r.length / 4096).toNat = r.pages from rfl, hrun]
  · intro r' hr'
    exact h.placed r' (hmem r' (by rwa [he] at hr'))
  · rw [he]
    exact hin
  · intro v m hl hm
    rw [hsa] at hm
    have hout : ¬ r.Spans v := fun hsp => by
      rw [hc.gone v hsp.1 hsp.2] at hm
      cases hm
    rw [Region.Spans, not_and_or, Nat.not_le, Nat.not_lt] at hout
    rw [hc.kept v hl hout] at hm
    obtain ⟨r', hr', hsp⟩ := h.covered v m hl hm
    rw [he]
    rw [hr, mem_append, mem_singleton] at hr'
    rcases hr' with hr' | rfl
    · exact ⟨r', hr', hsp⟩
    · rcases hout with hlt | hge
      · exact absurd hsp.1 (by omega)
      · exact absurd hsp.2 (by omega)
  · intro v hsp
    exact hc.gone v hsp.1 hsp.2
  intro v hl hout
  rw [Region.Spans, not_and_or, Nat.not_le, Nat.not_lt] at hout
  exact hc.kept v hl hout

/-- A frame is mapped in the lower half. -/
def Holds (s : Space) (a : ℕ) : Prop := ∃ v w u, v.toNat < userLimit ∧ s.mapping v = some (a, w, u)

lemma mem_framesOf {b : UInt64} {c a : ℕ} : a ∈ s.framesOf b c ↔
      ∃ page < c, ∃ w u, s.mapping (pageAt b page) = some (a, w, u) := by
  simp [framesOf]

lemma page_of_offset {base v p : ℕ} (h : base ≤ v) (hp : p = (v - base) / 4096) :
    base + p * 4096 ≤ v ∧ v < base + (p + 1) * 4096 := by
  omega

lemma mem_framesOf_iff (h : s.Backed) {r : Region} (hr : r.Placed) (a : ℕ) :
    a ∈ s.framesOf r.base r.pages ↔ ∃ v w u, r.Spans v ∧ s.mapping v = some (a, w, u) := by
  have := two_pow_47
  obtain ⟨-, -, he⟩ := hr.pages_bounds
  have ha := hr.aligned
  rw [mem_framesOf]
  constructor
  · rintro ⟨page, hp, w, u, hm⟩
    have hle : (page + 1) * 4096 ≤ r.pages * 4096 := Nat.mul_le_mul_right _ hp
    rw [Nat.add_one_mul] at hle
    have : (pageAt r.base page).toNat = r.base.toNat + page * 4096 := toNat_pageAt (by omega)
    exact ⟨pageAt r.base page, w, u, ⟨by omega, by omega⟩, hm⟩
  rintro ⟨v, w, u, ⟨hge, hlt⟩, hm⟩
  obtain ⟨page, hp⟩ := @exists_eq _ ((v.toNat - r.base.toNat) / 4096)
  have hb : page < r.pages := by omega
  have hle : (page + 1) * 4096 ≤ r.pages * 4096 := Nat.mul_le_mul_right _ hb
  have hsa : SamePage (pageAt r.base page) v :=
    (samePage_pageAt_iff ha (Nat.le_trans (Nat.add_le_add_left hle _) he)
      (Nat.lt_of_lt_of_le hlt he)).2 (page_of_offset hge hp)
  exact ⟨page, hb, w, u, by rw [h.sound.mapping_congr hsa]; exact hm⟩

lemma nodup_framesOf (h : s.Backed) {b : UInt64} {c : ℕ}
    (hal : b.toNat % 4096 = 0) (he : b.toNat + c * 4096 ≤ userLimit) : (s.framesOf b c).Nodup := by
  have := two_pow_47
  induction c with
  | zero => exact nodup_nil
  | succ c ih =>
    have hne : b.toNat + (c + 1) * 4096 = b.toNat + c * 4096 + 4096 := by
      rw [Nat.add_one_mul, Nat.add_assoc]
    have he' := he
    rw [hne] at he'
    rw [framesOf_succ]
    refine nodup_append.2 ⟨ih (Nat.le_trans (Nat.le_add_right _ _) he'), ?_, ?_⟩
    · cases s.mapping (pageAt b c) <;> simp
    rintro a ha a' ha' rfl
    obtain ⟨page, hp, w, u, hm⟩ := mem_framesOf.1 ha
    obtain ⟨m, hm', rfl⟩ : ∃ m, s.mapping (pageAt b c) = some m ∧ m.1 = a := by simpa using ha'
    obtain ⟨a', w', u'⟩ := m
    have : (pageAt b page).toNat = b.toNat + page * 4096 := toNat_pageAt (by omega)
    have : (pageAt b c).toNat = b.toNat + c * 4096 := toNat_pageAt (by omega)
    obtain ⟨rfl, -⟩ := h.user _ a' w u (by omega) hm
    obtain ⟨rfl, -⟩ := h.user _ a' w' u' (by omega) hm'
    exact not_samePage_of_low (by omega) (by omega) (by omega)
      (h.apart _ _ a' w w' (by omega) hm hm')

/-- `proc_release_user_memory` on a tidy address space: no region and no page is left, and the
frames are given back once each. -/
theorem releaseLoop_spec (h : s.Tidy) :
    ∃ freed s', releaseLoop s.regions.length s = some (freed, s') ∧ s'.regions = [] ∧
      (∀ v, v.toNat < userLimit → s'.mapping v = none) ∧ freed.Nodup ∧
      (∀ a, a ∈ freed ↔ s.Holds a) ∧ (∀ page, s.paging.pmm.Free page → s'.paging.pmm.Free page) ∧
      ∀ a ∈ freed, s'.paging.pmm.Free (a / pageSize) := by
  induction hlen : s.regions.length generalizing s with
  | zero =>
    have hno : s.regions = [] := length_eq_zero_iff.1 hlen
    have hu : ∀ v, v.toNat < userLimit → s.mapping v = none := by
      intro v hl
      by_contra hso
      obtain ⟨m, hm⟩ := Option.ne_none_iff_exists'.1 hso
      obtain ⟨r, hr, -⟩ := h.covered v m hl hm
      rw [hno] at hr
      cases hr
    refine ⟨[], s, rfl, hno, hu, nodup_nil, fun a => ?_, fun _ hf => hf, by simp⟩
    refine ⟨fun ha => absurd ha (by simp), ?_⟩
    rintro ⟨v, w, u, hl, hm⟩
    rw [hu v hl] at hm
    cases hm
  | succ n ih =>
    obtain ⟨init, r, hre⟩ : ∃ init r, s.regions = init ++ [r] :=
      ⟨_, _, (dropLast_append_getLast (fun hnil => by simp [hnil] at hlen)).symm⟩
    have hr : r.Placed := h.placed r (by simp [hre])
    obtain ⟨-, -, he⟩ := hr.pages_bounds
    obtain ⟨s1, hrun, ht, hin, hgo, hk, hfe, hfd⟩ := vmUnmap_spec h hre
    obtain ⟨freed, s', hrs, hno, hu, hnd, hmem, hf', hfd'⟩ :=
      ih ht (by rw [hin]; simpa [hre] using hlen)
    have hfr := mem_framesOf_iff h.toBacked hr
    refine ⟨s.framesOf r.base r.pages ++ freed, s', ?_, hno, hu, ?_, fun a => ?_,
      fun page hf => hf' page (hfe page hf), fun a ha => ?_⟩
    · rw [releaseLoop, hre, List.getLast?_append]
      simp only [List.getLast?_singleton, Option.some_or]
      rw [hrun]
      dsimp only
      rw [hrs]
      rfl
    · refine nodup_append.2 ⟨nodup_framesOf h.toBacked hr.aligned he, hnd, ?_⟩
      rintro a ha a' ha' rfl
      -- a frame of the region is not mapped anywhere else
      obtain ⟨v, w, u, hsp, hm⟩ := (hfr a).1 ha
      obtain ⟨v', w', u', hl', hm'⟩ := (hmem a).1 ha'
      have hout : ¬ r.Spans v' := fun hs' => by
        rw [hgo v' hs'] at hm'
        cases hm'
      rw [hk v' hl' hout] at hm'
      have hl : v.toNat < userLimit := lt_of_lt_of_le hsp.2 he
      obtain ⟨rfl, -⟩ := h.user v a w u hl hm
      obtain ⟨rfl, -⟩ := h.user v' a w' u' hl' hm'
      have hsa := h.apart v v' a w w' hl hm hm'
      have : v.toNat / 4096 = v'.toNat / 4096 := by
        by_contra hne
        exact not_samePage_of_low hl hl' hne hsa
      have := hr.aligned
      exact hout ⟨by have := hsp.1; omega, by have := hsp.2; omega⟩
    · rw [mem_append, hfr, hmem]
      constructor
      · rintro (⟨v, w, u, hsp, hm⟩ | ⟨v, w, u, hl, hm⟩)
        · exact ⟨v, w, u, lt_of_lt_of_le hsp.2 he, hm⟩
        · have hout : ¬ r.Spans v := fun hsp => by
            rw [hgo v hsp] at hm
            cases hm
          exact ⟨v, w, u, hl, by rwa [hk v hl hout] at hm⟩
      · rintro ⟨v, w, u, hl, hm⟩
        by_cases hsp : r.Spans v
        · exact .inl ⟨v, w, u, hsp, hm⟩
        · exact .inr ⟨v, w, u, hl, by rwa [hk v hl hsp]⟩
    rcases mem_append.1 ha with hold | hnew
    · exact hf' _ (hfd a hold)
    · exact hfd' a hnew
end Space
end Menios.User
