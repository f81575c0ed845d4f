import Menios.User.Copy
import Menios.User.Teardown

/-!
# Building an address space and tearing it down

How program segments (`map_segment`), `vm_map`, the stack of a new process and page faults add
to an address space, and what `proc_release_user_memory` makes of the result.

Results:

* `Tidy.grow`, `Tidy.vmMap`, `Tidy.mapSegment`, `Tidy.mapStack`: an address space stays tidy
  when a region is added at a page where no other region is.
* `not_tornDown_of_unaligned`: with a last region that does not start at a page, the teardown
  leaves a region.
* `teardown_frees_everything`: the teardown of an address space that was built so is complete.
-/

namespace Menios.Mem.Pmm
/-- The pages that `pmm_alloc_pages` returns were free and are in use now. -/
lemma pmmAllocPages_some {m m' : Pmm} {cn : UInt64} (hc : 0 < cn.toNat) {phys : ℕ}
    (hr : m.pmmAllocPages cn = some (phys, m')) (hp : phys ≠ 0) :
    ∃ place, phys = place * pageSize ∧ place + cn.toNat ≤ pageLimit ∧
      (∀ page, place ≤ page → page < place + cn.toNat → m.used page = false) ∧
      Marks m m' place cn.toNat := by
  obtain ⟨place, he, hf, -, hpl⟩ | ⟨-, hno⟩ :=
    pmmAllocInternal_cases m pageSize.toUInt64 (2 ^ 64 - 1) hc
  · obtain ⟨m'', hm'', hma, -⟩ :=
      m.setPagesUsed_spec he (fun _ => True) trivial (fun _ _ _ _ => trivial)
    rw [pmmAllocPages, hpl, hm''] at hr
    cases hr
    exact ⟨place, rfl, he, hf.free, hma⟩
  rw [pmmAllocPages, hno] at hr
  exact absurd (Prod.mk.inj (Option.some.inj hr)).1.symm hp
end Menios.Mem.Pmm

namespace Menios.User.Space
open Common Mem Mem.Paging List Option

/-! ## Frames -/
section
variable {s s' : Space}
lemma Backed.of_mapping (h : s.Backed) (hr : s'.root = s.root)
    (htr : Tree s'.paging s'.root) (hmap : ∀ v, s'.mapping v = s.mapping v)
    (hu : ∀ page, s.paging.pmm.used page = true → s'.paging.pmm.used page = true)
    (hta : ∀ t, IsTable s'.paging s'.root t → IsTable s.paging s.root t) : s'.Backed where
  sound := by
    refine ⟨hr.trans_ne h.sound.root, htr, fun v a w hm => ?_⟩
    rw [hmap] at hm
    obtain ⟨hf, ht⟩ := h.sound.frames v a w hm
    rw [not_free_iff] at hf ⊢
    exact ⟨hf.imp_right (hu _), fun ht' => ht (hta _ ht')⟩
  user v a w u hl hm := h.user v a w u hl (by rwa [hmap] at hm)
  apart v v' a w w' hl hm hm' := h.apart v v' a w w' hl (by rwa [hmap] at hm) (by rwa [hmap] at hm')

lemma Backed.extends (h : s.Backed) {wr : Bool} (he : Extends wr s s') : s'.Backed where
  sound := he.sound
  user v a w u hl hm := by
    rcases he.old_or_fresh hm with hold | ⟨-, hu, -, hf⟩
    · exact h.user v a w u hl hold
    · exact ⟨hu, hf.1⟩
  apart v v' a w w' hl hm hm' := by
    rcases he.old_or_same hm hm' (fun hold => (h.sound.frames v a w hold).1)
      (fun hold => (h.sound.frames v' a w' hold).1) with ⟨hold, ho'⟩ | hsa
    · exact h.apart v v' a w w' hl hold ho'
    · exact hsa

/-- A frame that is allocated but has no use yet. -/
structure Reserved (s : Space) (page : ℕ) : Prop where
  lt : page < pageLimit
  used : s.paging.pmm.used page = true
  noTable : ¬ IsTable s.paging s.root page
  unmapped : ∀ v a w, s.mapping v = some (a, w, true) → a / pageSize ≠ page

lemma Backed.map (h : s.Backed) {pa : ℕ} (hp : s.Reserved pa) {v : UInt64} {wr : Bool} {pn : Paging}
    (hrun : s.paging.mapPageInRoot s.root v (pa * pageSize).toUInt64 wr true =
      some (true, pn)) (hpa : s'.paging = pn) (hro : s'.root = s.root) :
    s'.Backed ∧ (∀ v', ¬ SamePage v v' → s'.mapping v' = s.mapping v') ∧
      ∀ other, other ≠ pa → s.Reserved other → s'.Reserved other := by
  obtain ⟨ok, p', hr', hma, -⟩ := mapPageInRoot_spec h.sound.tree v (pa * pageSize).toUInt64 wr true
  obtain ⟨rfl, rfl⟩ : ok = true ∧ p' = pn := by
    rw [hrun] at hr'
    simpa [eq_comm] using hr'
  obtain ⟨hso, hh, hot, -⟩ := sound_mapped h.sound hp.lt hp.used hp.noTable
    (fun t ht => ht) hma hpa hro
  have hdiv := mul_pageSize_div pa
  -- a mapping is the new one or an old one on another frame
  have hc : ∀ v' a w u, s'.mapping v' = some (a, w, u) →
      (SamePage v v' ∧ a = pa * pageSize ∧ u = true) ∨
        (¬ SamePage v v' ∧ s.mapping v' = some (a, w, u)) := by
    intro v' a w u hm
    by_cases hsa : SamePage v v'
    · rw [hh v' hsa] at hm
      obtain ⟨rfl, -, rfl⟩ : pa * pageSize = a ∧ wr = w ∧ true = u := by simpa using hm
      exact .inl ⟨hsa, rfl, rfl⟩
    rw [hot v' hsa] at hm
    exact .inr ⟨hsa, hm⟩
  have hf : ∀ v' w, s.mapping v' ≠ some (pa * pageSize, w, true) := fun v' w hm =>
    hp.unmapped v' _ w hm hdiv
  refine ⟨⟨hso, ?_, ?_⟩, hot, ?_⟩
  · intro v' a w u hl hm
    rcases hc v' a w u hm with ⟨-, rfl, hu⟩ | ⟨-, hold⟩
    · exact ⟨hu, by rw [hdiv]; exact hp.lt⟩
    · exact h.user v' a w u hl hold
  · intro v1 v2 a w1 w2 hl hm1 hm2
    rcases hc v1 a w1 true hm1 with ⟨hs1, rfl, -⟩ | ⟨-, ho1⟩
    · rcases hc v2 _ w2 true hm2 with ⟨hs2, -, -⟩ | ⟨-, ho2⟩
      · exact hs1.symm.trans hs2
      · exact absurd ho2 (hf v2 w2)
    · rcases hc v2 a w2 true hm2 with ⟨-, rfl, -⟩ | ⟨-, ho2⟩
      · exact absurd ho1 (hf v1 w1)
      · exact h.apart v1 v2 a w1 w2 hl ho1 ho2
  intro other hne hr
  refine ⟨hr.lt, hpa ▸ hma.used hr.used, ?_, fun v' a w hm => ?_⟩
  · rw [hpa, hro]
    exact hma.not_isTable hr.used hr.noTable
  rcases hc v' a w true hm with ⟨-, rfl, -⟩ | ⟨-, hold⟩
  · rw [hdiv]
    exact hne.symm
  · exact hr.unmapped v' a w hold

/-- What `pmm_alloc_pages` hands out. -/
lemma Backed.alloc (h : s.Backed) {cn : UInt64} (hc : 0 < cn.toNat) {phys : ℕ}
    {pmm : Pmm} (hrun : s.paging.pmm.pmmAllocPages cn = some (phys, pmm)) (hph : phys ≠ 0)
    (hp : s'.paging = { s.paging with pmm := pmm }) (hr : s'.root = s.root) :
    s'.Backed ∧ (∀ v, s'.mapping v = s.mapping v) ∧ ∃ place, phys = place * pageSize ∧
      ∀ page < cn.toNat, s'.Reserved (place + page) := by
  obtain ⟨place, rfl, he, hf, hma⟩ := Pmm.pmmAllocPages_some hc hrun hph
  have hmap : ∀ v, s'.mapping v = s.mapping v := by
    intro v
    rw [mapping, mapping, activeRoot_eq (hr.trans_ne h.sound.root), activeRoot_eq h.sound.root,
      hp, hr]
    rfl
  have hta : ∀ t, IsTable s'.paging s'.root t ↔ IsTable s.paging s.root t := by
    intro t
    rw [hp, hr]
    exact Iff.rfl
  have hu : ∀ t, s'.paging.pmm.used t =
      (s.paging.pmm.used t || decide (place ≤ t ∧ t < place + cn.toNat)) := by
    intro t
    rw [hp]
    exact hma t
  have hb : ∀ t, s.paging.pmm.used t = true → s'.paging.pmm.used t = true := by
    intro t ht
    rw [hu, ht, Bool.true_or]
  have htr : Tree s'.paging s'.root := by
    rw [hr]
    refine h.sound.tree.mono (fun _ _ => ?_) hb
    rw [hp]
    rfl
  refine ⟨h.of_mapping hr htr hmap hb fun t => (hta t).1, hmap, place, rfl, ?_⟩
  · intro page hpg
    have hth : s.paging.pmm.used (place + page) = false := hf _ (by omega) (by omega)
    have hlt : place + page < pageLimit := by omega
    refine ⟨hlt, ?_, fun ht => ?_, fun v a w hm hdiv => ?_⟩
    · rw [hu, hth, Bool.false_or, decide_eq_true_iff]
      omega
    · exact h.sound.tree.not_isTable hth ((hta _).1 ht)
    · rw [hmap] at hm
      refine (h.sound.frames v a w hm).1 ?_
      rw [hdiv]
      exact ⟨hlt, hth⟩
end

/-! ## Filling a range with pages -/

/-- The first `page` of `count` pages of a range were mapped, the frames of the others are
reserved, and nothing else changed. -/
structure Filling (s₀ s : Space) (base : UInt64) (place page count : ℕ) : Prop where
  backed : s.Backed
  regions : CommitsAll s₀.regions s.regions
  kept : ∀ v, v.toNat < userLimit →
    (v.toNat < base.toNat ∨ base.toNat + page * 4096 ≤ v.toNat) → s.mapping v = s₀.mapping v
  reserved : ∀ i, page ≤ i → i < count → s.Reserved (place + i)

section
variable {s₀ s s' : Space} {b : UInt64} {p pg c : ℕ} {w : Bool}
lemma Filling.step (h : Filling s₀ s b p pg c) (hp : pg < c)
    (ha : b.toNat % 4096 = 0) (he : b.toNat + (pg + 1) * 4096 ≤ userLimit)
    {pa : Paging} (hr : s.paging.mapPageInRoot s.root (pageAt b pg)
      (p * pageSize + pg * pageSize).toUInt64 w true = some (true, pa))
    (hpa : s'.paging = pa) (hro : s'.root = s.root)
    (hre : CommitsAll s.regions s'.regions) : Filling s₀ s' b p (pg + 1) c := by
  rw [← Nat.add_mul] at hr
  obtain ⟨hb, hot, hrs⟩ := h.backed.map (h.reserved pg le_rfl hp) hr hpa hro
  refine ⟨hb, h.regions.trans hre, fun v hl hout => ?_, fun i hle hlt => ?_⟩
  · have hne : b.toNat + (pg + 1) * 4096 = b.toNat + pg * 4096 + 4096 := by
      rw [Nat.add_one_mul, Nat.add_assoc]
    rw [hot v, h.kept v hl]
    · rw [hne] at hout
      omega
    · rw [samePage_pageAt_iff ha he hl]
      omega
  · exact hrs _ (by omega) (h.reserved i (by omega) hlt)

lemma mapSegmentPages_filling {left : ℕ} (ha : b.toNat % 4096 = 0)
    (he : b.toNat + c * 4096 ≤ userLimit) (hc : pg + left = c) (h : Filling s₀ s b p pg c)
    (hr : mapSegmentPages b (p * pageSize) w pg left s = some (true, s')) :
    Filling s₀ s' b p c c := by
  induction left generalizing pg s with
  | zero =>
    obtain rfl : s = s' := by simpa [mapSegmentPages] using hr
    obtain rfl : pg = c := hc
    exact h
  | succ left ih =>
    rw [mapSegmentPages] at hr
    split at hr
    · cases hr
    · cases hr
    next paging hmap =>
    have hle : (pg + 1) * 4096 ≤ c * 4096 := Nat.mul_le_mul_right _ (by omega)
    refine ih (by omega) ?_ hr
    exact h.step (by omega) ha (Nat.le_trans (Nat.add_le_add_left hle _) he) hmap rfl rfl (.refl _)

lemma commitsAll_noteMapping (rs : List Region) (index : ℕ) (b ln : UInt64) :
    CommitsAll rs (rs.modify index (·.noteMapping b ln)) := by
  cases hget : rs[index]? with
  | none =>
    rw [modify_eq_self (by simpa using hget)]
    exact .refl rs
  | some r =>
    rw [List.modify_eq_set_getElem?, hget]
    exact .set hget (r.commits_noteMapping b ln)

lemma mapPagesFrom_filling {i left : ℕ} (ha : b.toNat % 4096 = 0)
    (he : b.toNat + c * 4096 ≤ userLimit) (hc : pg + left = c) (h : Filling s₀ s b p pg c)
    (hr : mapPagesFrom b (p * pageSize) w true i pg left s =
      some (true, s')) : Filling s₀ s' b p c c := by
  induction left generalizing pg s with
  | zero =>
    obtain rfl : s = s' := by simpa [mapPagesFrom] using hr
    obtain rfl : pg = c := hc
    exact h
  | succ left ih =>
    rw [mapPagesFrom] at hr
    dsimp only at hr
    split at hr
    · cases hr
    · exact absurd hr (by simp)
    next paging hmap =>
    split at hr
    · split at hr
      · cases hr
      · exact absurd hr (by simp)
    have hle : (pg + 1) * 4096 ≤ c * 4096 := Nat.mul_le_mul_right _ (by omega)
    refine ih (by omega) ?_ hr
    exact h.step (by omega) ha (Nat.le_trans (Nat.add_le_add_left hle _) he) hmap rfl rfl
      (commitsAll_noteMapping _ _ _ _)
end
end Menios.User.Space

/-! ## A region more -/
namespace Menios.User
open Common Mem Mem.Paging List Option

section
variable {r r' : Region} {rs rs' : List Region}
lemma Region.Commits.spans_iff (h : r.Commits r') (v : UInt64) : r'.Spans v ↔ r.Spans v := by
  rw [Region.Spans, Region.Spans, Region.pages, Region.pages, h.base, h.length]

lemma Region.Commits.placed (h : r.Commits r') (hr : r.Placed) : r'.Placed := by
  refine ⟨?_, ?_, ?_⟩
  · rw [h.base]
    exact hr.aligned
  · rw [h.length]
    exact hr.nonempty
  rw [h.base, h.length]
  exact hr.low

lemma CommitsAll.exists_left (h : CommitsAll rs rs') (hr : r' ∈ rs') : ∃ r ∈ rs, r.Commits r' := by
  obtain ⟨index, hget⟩ := List.mem_iff_getElem?.1 hr
  obtain ⟨r, hg', hc⟩ := h.get hget
  exact ⟨r, List.mem_iff_getElem?.2 ⟨index, hg'⟩, hc⟩

lemma CommitsAll.exists_right (h : CommitsAll rs rs') (hr : r ∈ rs) : ∃ r' ∈ rs', r.Commits r' := by
  induction h with
  | nil => simp at hr
  | cons hc _ ih =>
    rcases mem_cons.1 hr with rfl | hr
    · exact ⟨_, by simp, hc⟩
    obtain ⟨r', hr', hc'⟩ := ih hr
    exact ⟨r', mem_cons_of_mem _ hr', hc'⟩

/-- No two regions share a page. -/
def Apart (rs : List Region) : Prop := rs.Pairwise fun r r' => ∀ v, r.Spans v → ¬ r'.Spans v

lemma CommitsAll.apart (h : CommitsAll rs rs') (hrs : Apart rs) : Apart rs' := by
  induction h with
  | nil => exact hrs
  | cons hr hre ih =>
    obtain ⟨hf, hot⟩ := pairwise_cons.1 hrs
    refine pairwise_cons.2 ⟨fun r' hr' v hsp hs' => ?_, ih hot⟩
    obtain ⟨r, hmem, hc⟩ := CommitsAll.exists_left hre hr'
    exact hf r hmem v ((hr.spans_iff v).1 hsp) ((hc.spans_iff v).1 hs')

/-- The region that `vm_region_add` appends. -/
def Region.new (base length : UInt64) (type : RegionType) (flags : RegionFlags) : Region where
  base := base
  length := length
  type := type
  flags := flags
  committedBase := if flags.growDown then base + length else base
  committedTop := if flags.growDown then base + length else base

lemma vmRegionAdd_eq_some {bs ln : UInt64} {t : RegionType} {flags : RegionFlags} :
    vmRegionAdd rs bs ln t flags = some rs' ↔ (ln ≠ 0 ∧ rs.length < procMaxVmRegions) ∧
        rs' = rs ++ [Region.new bs ln t flags] := by
  rw [vmRegionAdd, ite_none_left_eq_some, not_or, Nat.not_le, some_inj, eq_comm (a := rs')]
  rfl

/-- The region of a program segment. -/
def Space.Phdr.region (p : Space.Phdr) : Region := .new p.vaddr p.memsz p.regionType p.regionFlags

/-- The region has no page in common with those there are. -/
def Region.ClearOf (r : Region) (rs : List Region) : Prop := ∀ r' ∈ rs, ∀ v, r'.Spans v → ¬ r.Spans v
end

namespace Space
section
variable {s s' : Space} {r : Region}
lemma Tidy.commits (h : s.Tidy) (hb : s'.Backed) (hre : CommitsAll s.regions s'.regions)
    (hmap : ∀ v m, v.toNat < userLimit → s'.mapping v = some m →
      s.mapping v = some m ∨ ∃ r ∈ s.regions, r.Spans v) : s'.Tidy where
  toBacked := hb
  placed r' hr' := by
    obtain ⟨r, hr, hc⟩ := hre.exists_left hr'
    exact hc.placed (h.placed r hr)
  disjoint := hre.apart h.disjoint
  covered v m hl hm := by
    obtain ⟨r, hr, hsp⟩ : ∃ r ∈ s.regions, r.Spans v := by
      rcases hmap v m hl hm with hold | hnew
      · exact h.covered v m hl hold
      · exact hnew
    obtain ⟨r', hr', hc⟩ := hre.exists_right hr
    exact ⟨r', hr', (hc.spans_iff v).2 hsp⟩

/-- What was mapped stays so. -/
abbrev TidyFrom (s s' : Space) : Prop :=
  s'.Tidy ∧ ∀ v m, v.toNat < userLimit → s.mapping v = some m → s'.mapping v = some m

lemma Tidy.append (h : s.Tidy) (hr : r.Placed) (hcl : r.ClearOf s.regions)
    (hb : s'.Backed) (hre : CommitsAll (s.regions ++ [r]) s'.regions)
    (hk : ∀ v, v.toNat < userLimit → ¬ r.Spans v → s'.mapping v = s.mapping v) : TidyFrom s s' := by
  refine ⟨⟨hb, fun r' hr' => ?_, hre.apart ?_, fun v m hl hm => ?_⟩, fun v m hl hm => ?_⟩
  · obtain ⟨r0, hr0, hc⟩ := hre.exists_left hr'
    refine hc.placed ?_
    rcases mem_append.1 hr0 with hold | hnew
    · exact h.placed r0 hold
    · rw [mem_singleton.1 hnew]
      exact hr
  · refine pairwise_append.2 ⟨h.disjoint, pairwise_singleton _ _, fun r0 hr0 r1 hr1 => ?_⟩
    rw [mem_singleton.1 hr1]
    exact hcl r0 hr0
  · obtain ⟨r0, hr0, hsp⟩ : ∃ r0 ∈ s.regions ++ [r], r0.Spans v := by
      by_cases hsp : r.Spans v
      · exact ⟨r, by simp, hsp⟩
      · rw [hk v hl hsp] at hm
        obtain ⟨r0, hr0, hs0⟩ := h.covered v m hl hm
        exact ⟨r0, by simp [hr0], hs0⟩
    obtain ⟨r', hr', hc⟩ := hre.exists_right hr0
    exact ⟨r', hr', (hc.spans_iff v).2 hsp⟩
  obtain ⟨r0, hr0, hsp⟩ := h.covered v m hl hm
  rw [hk v hl (hcl r0 hr0 v hsp)]
  exact hm

/-- A page fault that a region grows at. -/
theorem Tidy.grow (h : s.Tidy) {v : UInt64} {wr : Bool} (hno : s.mapping v = none)
    (hrun : s.handlePageFault v wr = some (true, s')) :
    s'.Tidy ∧ ∀ v m, s.mapping v = some m → s'.mapping v = some m := by
  obtain ⟨ok, s1, hr1, hok, -⟩ := handlePageFault_spec wr h.sound hno
  obtain ⟨rfl, rfl⟩ : ok = true ∧ s1 = s' := by
    rw [hrun] at hr1
    simpa [eq_comm] using hr1
  obtain ⟨he, hot⟩ := hok rfl
  refine ⟨h.commits (h.toBacked.extends he) he.regions fun v' m hl hm => ?_, he.kept⟩
  by_cases hsa : SamePage v v'
  · right
    rw [handlePageFault] at hrun
    cases hf : vmRegionFind s.regions v with
    | none => simp [hf] at hrun
    | some index =>
      obtain ⟨r, hr, hh⟩ : ∃ r ∈ s.regions, r.holds v = true := by
        obtain ⟨hlt, hh, -⟩ := List.findIdx?_eq_some_iff_getElem.1 hf
        exact ⟨_, getElem_mem hlt, hh⟩
      have hp := h.placed r hr
      obtain ⟨hpa, -, hend⟩ := hp.pages_bounds
      obtain ⟨hge, hlt⟩ := hp.spans_of_holds hh
      have : v.toNat / 4096 = v'.toNat / 4096 := by
        by_contra hne
        exact not_samePage_of_low (lt_of_lt_of_le hlt hend) hl hne hsa
      have := hp.aligned
      exact ⟨r, hr, by omega, by omega⟩
  left
  rw [← hot v' hsa]
  exact hm

lemma Tidy.fill (h : s.Tidy) (hr : r.Placed) (hc : r.ClearOf s.regions) {s₀ s1 : Space}
    {pl : ℕ} (hf : Filling s₀ s1 r.base pl r.pages r.pages)
    (hmap : ∀ v, s₀.mapping v = s.mapping v) (hp : s'.paging = s1.paging)
    (hro : s'.root = s1.root) (hre : CommitsAll (s.regions ++ [r]) s'.regions) : TidyFrom s s' := by
  have hm1 : ∀ v, s'.mapping v = s1.mapping v := by
    intro v
    rw [mapping, mapping, activeRoot_eq hf.backed.sound.root,
      activeRoot_eq (hro.trans_ne hf.backed.sound.root), hp, hro]
  refine h.append hr hc ?_ hre fun v hl hout => ?_
  · refine hf.backed.of_mapping hro ?_ hm1 (fun page hu => ?_) fun t ht => ?_
    · rw [hp, hro]
      exact hf.backed.sound.tree
    · rw [hp]
      exact hu
    · rwa [hp, hro] at ht
  rw [Region.Spans, not_and_or, Nat.not_le, Nat.not_lt] at hout
  rw [hm1, hf.kept v hl hout, hmap]

variable {p : Phdr}
lemma Phdr.totalPages_of_placed (hr : p.region.Placed) : p.totalPages.toNat = p.region.pages := by
  have hb : pageAlignDown p.vaddr = p.vaddr := hr.pageAlignDown_base
  have : p.vaddr.toNat + p.memsz.toNat ≤ userLimit := hr.low
  have := two_pow_47
  have h4096 : (4096 : UInt64).toNat = 4096 := rfl
  have h4095 : (4095 : UInt64).toNat = 4095 := rfl
  rw [Region.pages_eq hr.nonempty (show p.memsz.toNat ≤ userLimit by omega), totalPages, pageOffset,
    hb, UInt64.sub_self, UInt64.zero_add, UInt64.toNat_div, UInt64.toNat_add, h4096, h4095]
  show _ = (p.memsz.toNat + 4095) / 4096
  omega

lemma Tidy.filling (h : s.Tidy) {cn : UInt64} (hc : 0 < cn.toNat) {phys : ℕ}
    {pmm : Pmm} (hr : s.paging.pmm.pmmAllocPages cn = some (phys, pmm)) (hp : phys ≠ 0)
    {s₀ : Space} (hpa : s₀.paging = { s.paging with pmm := pmm }) (hro : s₀.root = s.root)
    (bs : UInt64) : (∀ v, s₀.mapping v = s.mapping v) ∧ ∃ place, phys = place * pageSize ∧
      Filling s₀ s₀ bs place 0 cn.toNat := by
  obtain ⟨hb, hmap, place, hpl, hre⟩ := h.toBacked.alloc hc hr hp hpa hro
  exact ⟨hmap, place, hpl, hb, .refl _, fun _ _ _ => rfl, fun i _ hi => hre i hi⟩

/-- What a successful `map_segment` did. -/
lemma mapSegment_cases {i : List UInt8} (hme : p.memsz ≠ 0)
    (hr : s.mapSegment i p = some (true, s')) :
    ∃ phys pmm s₀ s1, s.paging.pmm.pmmAllocPages p.totalPages = some (phys, pmm) ∧ phys ≠ 0 ∧
      s₀.paging = { s.paging with pmm := pmm } ∧ s₀.root = s.root ∧ s₀.regions = s.regions ∧
      mapSegmentPages (pageAlignDown p.vaddr) phys p.regionFlags.write 0 p.totalPages.toNat s₀ =
        some (true, s1) ∧ s'.paging = s1.paging ∧ s'.root = s1.root ∧
      CommitsAll ((vmRegionAdd s1.regions p.vaddr p.memsz p.regionType p.regionFlags).getD
        s1.regions) s'.regions := by
  rw [Space.mapSegment, if_neg hme] at hr
  split at hr
  · cases hr
  split at hr
  · cases hr
  next phys pmm ha =>
  dsimp only at hr
  split at hr
  · cases hr
  next hp =>
  split at hr
  · exact absurd hr (by simp)
  split at hr
  · cases hr
  split at hr
  · cases hr
  · cases hr
  next s1 hl =>
  refine ⟨phys, pmm, _, s1, ha, hp, ?_, ?_, ?_, hl, ?_⟩
  · rfl
  · rfl
  · rfl
  split at hr
  · cases hr
    exact ⟨rfl, rfl, .refl _⟩
  cases hr
  exact ⟨rfl, rfl, commitsAll_noteMapping _ _ _ _⟩

/-- `map_segment` for a segment that starts at a page. -/
theorem Tidy.mapSegment (h : s.Tidy) {i : List UInt8} (hr : p.region.Placed)
    (hc : p.region.ClearOf s.regions) (hrm : s.regions.length < procMaxVmRegions)
    (hrun : s.mapSegment i p = some (true, s')) : TidyFrom s s' := by
  have hp := Phdr.totalPages_of_placed hr
  obtain ⟨-, hpos, he⟩ := hr.pages_bounds
  obtain ⟨phys, pmm, s₀, s1, hal, hph, hp0, hr0, hre0, hl, hpg, hro,
    hre⟩ := mapSegment_cases hr.nonempty hrun
  obtain ⟨hmap, place, rfl, hf⟩ := h.filling (by omega) hal hph hp0 hr0 p.region.base
  rw [show pageAlignDown p.vaddr = p.region.base from hr.pageAlignDown_base, hp] at hl
  rw [hp] at hf
  have hfi := mapSegmentPages_filling hr.aligned he (Nat.zero_add _) hf hl
  have hsa := hfi.regions
  rw [hre0] at hsa
  have := List.Forall₂.length_eq hsa
  have ha : vmRegionAdd s1.regions p.vaddr p.memsz p.regionType p.regionFlags =
      some (s1.regions ++ [p.region]) := vmRegionAdd_eq_some.2 ⟨⟨hr.nonempty, by omega⟩, rfl⟩
  rw [ha] at hre
  refine h.fill hr hc hfi hmap hpg hro ?_
  exact CommitsAll.trans (rel_append hsa (CommitsAll.refl [p.region])) hre

/-- The region of `vm_map`. -/
def mapRegion (base length : UInt64) (type : RegionType) (flags : RegionFlags) : Region :=
  .new (pageAlignDown base) (pageAlignUp length) type flags

variable {l : UInt64}
lemma pageAlignUp_pageAlignUp (h : pageAlignUp l ≠ 0) :
    pageAlignUp (pageAlignUp l) = pageAlignUp l := by
  have hmod : pageAlignUp l % 4096 = 0 := by
    rw [pageAlignUp]
    split_ifs with hz hmod
    · rfl
    · exact hmod
    refine UInt64.toNat_inj.1 ?_
    rw [toNat_mod_page, UInt64.toNat_mul]
    show _ * 4096 % 2 ^ 64 % 4096 = 0
    omega
  generalize pageAlignUp l = x at h hmod
  rw [pageAlignUp, if_neg h, if_pos hmod]

/-- What a successful `vm_map` did. -/
lemma vmMap_cases {bs : UInt64} {t : RegionType} {flags : RegionFlags}
    (hr : s.vmMap bs l t flags = some (true, s')) : ∃ index phys pmm s₀,
      s.paging.pmm.pmmAllocPages (pageAlignUp l / 4096) = some (phys, pmm) ∧ phys ≠ 0 ∧
      s₀.paging = { s.paging with pmm := pmm } ∧ s₀.root = s.root ∧
      s₀.regions = s.regions ++ [mapRegion bs l t flags] ∧
      mapPagesFrom (pageAlignDown bs) phys flags.write flags.user index 0
        (pageAlignUp l / 4096).toNat s₀ = some (true, s') := by
  rw [Space.vmMap] at hr
  split at hr
  · cases hr
  dsimp only at hr
  split at hr
  · cases hr
  next regions ha =>
  split at hr
  · cases hr
  next index hf =>
  split at hr
  · cases hr
  next phys pmm hal =>
  split at hr
  · cases hr
  next hp =>
  split at hr
  · cases hr
  · next s1 hl =>
    cases hr
    obtain ⟨-, rfl⟩ := vmRegionAdd_eq_some.1 ha
    refine ⟨index, phys, pmm, _, hal, hp, ?_, ?_, ?_, hl⟩
    · rfl
    · rfl
    · rfl
  · exact absurd hr (by simp)

/-- `vm_map` where no region is. -/
theorem Tidy.vmMap (h : s.Tidy) {bs : UInt64} {t : RegionType} {fl : RegionFlags}
    (hu : fl.user = true) (hr : (mapRegion bs l t fl).Placed)
    (hc : (mapRegion bs l t fl).ClearOf s.regions)
    (hrun : s.vmMap bs l t fl = some (true, s')) : TidyFrom s s' := by
  obtain ⟨-, hpos, he⟩ := hr.pages_bounds
  obtain ⟨index, phys, pmm, s₀, ha, hph, hp0, hr0, hre0, hl⟩ := vmMap_cases hrun
  have hp : (pageAlignUp l / 4096).toNat = (mapRegion bs l t fl).pages := by
    rw [Region.pages, show (mapRegion bs l t fl).length = pageAlignUp l from rfl,
      pageAlignUp_pageAlignUp hr.nonempty]
  obtain ⟨hmap, place, rfl, hf⟩ := h.filling (by omega) ha hph hp0 hr0 (mapRegion bs l t fl).base
  rw [hp, hu] at hl
  rw [hp] at hf
  have hfi := mapPagesFrom_filling hr.aligned he (Nat.zero_add _) hf hl
  refine h.fill hr hc hfi hmap rfl rfl ?_
  rw [← hre0]
  exact hfi.regions

/-- The region of the stack. -/
def stackRegion (top : UInt64) : Region :=
  .new (top - procUserStackSize) procUserStackSize .stack stackFlags

lemma mapStackPage_cases {pa : UInt64} (hr : s.mapStackPage pa = some s') :
    ∃ phys pmm paging, ∃ s₀ : Space, s.paging.pmm.pmmAllocPages 1 = some (phys, pmm) ∧ phys ≠ 0 ∧
      s₀.paging = { s.paging with pmm := pmm } ∧ s₀.root = s.root ∧
      s₀.paging.mapPageInRoot s₀.root pa phys.toUInt64 true true = some (true, paging) ∧
      s'.paging = paging ∧ s'.root = s.root ∧ CommitsAll s.regions s'.regions := by
  unfold mapStackPage at hr
  split at hr
  · cases hr
  next phys pmm ha =>
  split at hr
  · cases hr
  next hp =>
  dsimp only at hr
  split at hr
  · next paging hmap =>
    split at hr
    · cases hr
    refine ⟨phys, pmm, paging, { s with
      paging := { s.paging with pmm := pmm }
      bytes := zeroPages s.bytes phys 1 }, ha, hp, rfl, rfl, hmap, ?_⟩
    split at hr
    · cases hr
      exact ⟨rfl, rfl, .refl _⟩
    · cases hr
      exact ⟨rfl, rfl, commitsAll_noteMapping _ _ _ _⟩
  · cases hr

variable {t : UInt64}
lemma toNat_stackPageAt {pa : ℕ} (h : (pa + 1) * 4096 ≤ t.toNat) :
    (stackPageAt t pa).toNat = t.toNat - (pa + 1) * 4096 := by
  have := t.toNat_lt
  have hof : ((pa + 1).toUInt64 * 4096).toNat = (pa + 1) * 4096 := by
    have he : (pa + 1).toUInt64 * 4096 = ((pa + 1) * 4096).toUInt64 := by simp [Nat.toUInt64_eq]
    rw [he, Nat.toUInt64_eq, UInt64.toNat_ofNat']
    omega
  rw [stackPageAt, UInt64.toNat_sub_of_le _ _ (by rw [UInt64.le_iff_toNat_le, hof]; exact h), hof]

lemma mapStackPages_spec (hag : t.toNat % 4096 = 0) (ht : t.toNat ≤ userLimit)
    {pa left : ℕ} (he : (pa + left) * 4096 ≤ t.toNat) (h : s.Backed)
    (hr : mapStackPages t pa left s = some s') :
    s'.Backed ∧ CommitsAll s.regions s'.regions ∧ ∀ v, v.toNat < userLimit →
      (v.toNat + (pa + left) * 4096 < t.toNat ∨ t.toNat ≤ v.toNat) →
      s'.mapping v = s.mapping v := by
  induction left generalizing pa s with
  | zero =>
    obtain rfl : s = s' := by simpa [mapStackPages] using hr
    exact ⟨h, .refl _, fun _ _ _ => rfl⟩
  | succ left ih =>
    rw [mapStackPages] at hr
    obtain ⟨s1, hp, hr⟩ := bind_eq_some_iff.1 hr
    obtain ⟨phys, pmm, paging, s₀, hal, hph, hp0, hr0, hmap, hp1, hr1,
      hre1⟩ := mapStackPage_cases hp
    obtain ⟨hb0, hm0, place, rfl, hre⟩ := h.alloc (by decide) hal hph hp0 hr0
    obtain ⟨hb1, hot, -⟩ := hb0.map (hre 0 (by decide)) hmap hp1 (hr1.trans hr0.symm)
    have hc : pa + 1 + left = pa + (left + 1) := by omega
    obtain ⟨hb, hrg, hk⟩ := ih (by rwa [hc]) hb1 hr
    refine ⟨hb, hre1.trans hrg, fun v hl hout => ?_⟩
    rw [hk v hl (by rwa [hc]), hot v, hm0]
    have hle : (pa + 1) * 4096 ≤ (pa + (left + 1)) * 4096 := Nat.mul_le_mul_right _ (by omega)
    have ha := toNat_stackPageAt (Nat.le_trans hle he)
    refine not_samePage_of_low ?_ hl ?_
    · rw [ha]
      omega
    rw [ha]
    omega

/-- The stack of a new process. -/
theorem Tidy.mapStack (h : s.Tidy) (hr : (stackRegion t).Placed)
    (hc : (stackRegion t).ClearOf s.regions) (hrun : s.mapStack t = some s') : TidyFrom s s' := by
  have := two_pow_47
  have : (t - procUserStackSize).toNat + 0x100000 ≤ userLimit := hr.low
  have : (t - procUserStackSize).toNat % 4096 = 0 := hr.aligned
  have hp : (stackRegion t).pages = 256 := by
    show (pageAlignUp procUserStackSize / 4096).toNat = 256
    decide
  have : t.toNat = (t - procUserStackSize).toNat + 0x100000 := by
    have he : t = t - procUserStackSize + procUserStackSize := by simp
    have hsz : procUserStackSize.toNat = 0x100000 := rfl
    have hnat := congrArg UInt64.toNat he
    rw [UInt64.toNat_add, hsz] at hnat
    omega
  rw [Space.mapStack] at hrun
  split at hrun
  · cases hrun
  next regions ha =>
  obtain ⟨-, rfl⟩ := vmRegionAdd_eq_some.1 ha
  obtain ⟨hb, hre, hk⟩ := mapStackPages_spec (s := { s with
      regions := s.regions ++ [stackRegion t] }) (by omega) (by omega)
    (show (0 + 4) * 4096 ≤ t.toNat by omega)
    (h.toBacked.of_mapping rfl h.sound.tree (fun _ => rfl) (fun _ hu => hu) fun _ ht => ht) hrun
  refine h.append hr hc hb hre fun v hv hout => ?_
  rw [Region.Spans, not_and_or, Nat.not_le, Nat.not_lt, hp] at hout
  refine hk v hv ?_
  have : (stackRegion t).base.toNat = (t - procUserStackSize).toNat := rfl
  rcases hout with hlt | hge
  · left
    show v.toNat + (0 + 4) * 4096 < t.toNat
    omega
  right
  omega
end

/-! ## Building and tearing down -/

/-- The ways a process gets memory. -/
inductive Building
  | segment (image : List UInt8) (p : Phdr)
  | map (base length : UInt64) (type : RegionType) (flags : RegionFlags)
  | stack (top : UInt64)
  | fault (v : UInt64) (write : Bool)

namespace Building
/-- A page fault happens at a page that is not mapped. -/
def run (s : Space) : Building → Option (Bool × Space)
  | segment image p => s.mapSegment image p
  | map base length type flags => s.vmMap base length type flags
  | stack top => (s.mapStack top).map (true, ·)
  | fault v write => if (s.mapping v).isSome then some (true, s) else s.handlePageFault v write

/-- The region that is added. -/
def region : Building → Option Region
  | segment _ p => if p.memsz = 0 then none else some p.region
  | map base length type flags => some (mapRegion base length type flags)
  | stack top => some (stackRegion top)
  | fault _ _ => none

/-- `vm_map` is called for user pages. -/
def ForUser : Building → Prop
  | map _ _ _ flags => flags.user = true
  | _ => True

/-- There is room for the region, it starts at a page, and no page of it belongs to another. -/
def Careful (s : Space) (b : Building) : Prop :=
  b.ForUser ∧ ∀ r, b.region = some r →
    s.regions.length < procMaxVmRegions ∧ r.Placed ∧ r.ClearOf s.regions
end Building

/-- A new address space. -/
structure Fresh (s : Space) : Prop where
  sound : s.Sound
  regions : s.regions = []
  empty : ∀ v, v.toNat < userLimit → s.mapping v = none

/-- The address spaces that are built carefully, with the frames that were mapped in the lower
half up to now. -/
inductive Built : Space → Set ℕ → Prop
  | fresh {s : Space} (h : s.Fresh) : Built s ∅
  | step {s s' : Space} {frames : Set ℕ} {b : Building} (h : Built s frames) (hb : b.Careful s)
      (hrun : b.run s = some (true, s')) : Built s' (frames ∪ {a | s'.Holds a})

/-- `proc_release_user_memory` leaves no region and no page, and gives every one of the frames
back once. -/
def TornDown (s : Space) (frames : Set ℕ) : Prop :=
  ∃ freed s', s.releaseUserMemory = some (freed, s') ∧ s'.regions = [] ∧
    (∀ v, v.toNat < userLimit → s'.mapping v = none) ∧ freed.Nodup ∧ (∀ a, a ∈ freed ↔ a ∈ frames) ∧
    ∀ a ∈ freed, s'.paging.pmm.Free (a / pageSize)

section
variable {s s' : Space}
lemma Tidy.building (h : s.Tidy) {b : Building} (hb : b.Careful s)
    (hr : b.run s = some (true, s')) : TidyFrom s s' := by
  obtain ⟨hu, hreg⟩ := hb
  cases b with
  | segment i p =>
    by_cases hz : p.memsz = 0
    · rw [Building.run, Space.mapSegment, if_pos hz] at hr
      cases hr
      exact ⟨h, fun _ _ _ hm => hm⟩
    obtain ⟨hro, hp, hc⟩ := hreg p.region (if_neg hz)
    exact h.mapSegment hp hc hro hr
  | map base length type flags =>
    obtain ⟨-, hp, hc⟩ := hreg _ rfl
    exact h.vmMap hu hp hc hr
  | stack top =>
    obtain ⟨-, hp, hc⟩ := hreg _ rfl
    obtain ⟨s1, hst, he⟩ := map_eq_some_iff.1 hr
    cases he
    exact h.mapStack hp hc hst
  | fault v write =>
    rw [Building.run] at hr
    split_ifs at hr with hso
    · cases hr
      exact ⟨h, fun _ _ _ hm => hm⟩
    obtain ⟨ht, hk⟩ := h.grow (not_isSome_iff_eq_none.1 hso) hr
    exact ⟨ht, fun v m _ hm => hk v m hm⟩

lemma Fresh.tidy (h : s.Fresh) : s.Tidy where
  sound := h.sound
  user v a w u hl hm := by simp [h.empty v hl] at hm
  apart v v' a w w' hl hm := by simp [h.empty v hl] at hm
  placed r hr := by simp [h.regions] at hr
  disjoint := by simp [h.regions]
  covered v m hl hm := by simp [h.empty v hl] at hm

lemma Built.tidy {fr : Set ℕ} (h : Built s fr) : s.Tidy ∧ ∀ a, a ∈ fr ↔ s.Holds a := by
  induction h with
  | fresh h =>
    refine ⟨h.tidy, fun a => ⟨fun ha => absurd ha (Set.notMem_empty a), ?_⟩⟩
    rintro ⟨v, w, u, hl, hm⟩
    simp [h.empty v hl] at hm
  | step _ hb hr ih =>
    obtain ⟨ht, hf⟩ := ih
    obtain ⟨ht', hk⟩ := ht.building hb hr
    refine ⟨ht', fun a => ⟨?_, .inr⟩⟩
    rintro (ha | ha)
    · obtain ⟨v, w, u, hl, hm⟩ := (hf a).1 ha
      exact ⟨v, w, u, hl, hk v _ hl hm⟩
    · exact ha

/-- `proc_release_user_memory` on a tidy address space. -/
lemma Tidy.tornDown (h : s.Tidy) : s.TornDown {a | s.Holds a} := by
  obtain ⟨freed, s', hr, hre, hno, hnd, hmem, -, hf⟩ := releaseLoop_spec h
  exact ⟨freed, { s' with segments := [] }, by rw [releaseUserMemory, hr]; rfl, hre, hno,
    hnd, hmem, hf⟩

/-! ## A region that does not start at a page -/
variable {f : List ℕ}
lemma unmapPage_regions {v : UInt64} {o : Bool} (h : s.unmapPage v = some (o, f, s')) :
    s'.regions = s.regions := by
  rw [unmapPage] at h
  split at h
  · obtain ⟨-, -, rfl⟩ : o = false ∧ f = [] ∧ s = s' := by simpa [eq_comm] using h
    rfl
  split at h
  · cases h
  · next paging _ =>
    obtain rfl : { s with paging := paging } = s' := (Prod.mk.inj (Prod.mk.inj (Option.some.inj h)).2).2
    rfl
  obtain ⟨-, he⟩ := Prod.mk.inj (Option.some.inj h)
  rw [← (Prod.mk.inj he).2]

lemma unmapPages_regions {bs : UInt64} {cn : ℕ}
    (h : s.unmapPages bs cn = some (f, s')) : s'.regions = s.regions := by
  induction cn generalizing f s' with
  | zero =>
    cases h
    rfl
  | succ cn ih =>
    rw [unmapPages] at h
    split at h
    · cases h
    next f1 s1 hr =>
    split at h
    · cases h
    next hp =>
    cases h
    exact (unmapPage_regions hp).trans (ih hr)

variable {r : Region}
lemma not_holds_pageAlignDown (hr : r.base.toNat % 4096 ≠ 0) :
    r.holds (pageAlignDown r.base) = false := by
  rw [Region.holds, decide_eq_false_iff_not, UInt64.le_iff_toNat_le, toNat_pageAlignDown]
  omega

variable {init : List Region}
/-- `vm_unmap` for a last region that does not start at a page leaves this region there. -/
lemma vmUnmap_unaligned (hre : s.regions = init ++ [r]) (hr : r.base.toNat % 4096 ≠ 0) {o : Bool}
    (hrun : s.vmUnmap r.base r.length = some (o, f, s')) : ∃ i', s'.regions = i' ++ [r] := by
  rw [vmUnmap] at hrun
  split at hrun
  · cases hrun
    exact ⟨init, hre⟩
  dsimp only at hrun
  split at hrun
  · cases hrun
    exact ⟨init, hre⟩
  next index hf =>
  split at hrun
  · cases hrun
  next f1 s1 hp =>
  cases hrun
  obtain ⟨hlt, hh, -⟩ := List.findIdx?_eq_some_iff_getElem.1 hf
  have hin : index < init.length := by
    by_contra hge
    have hl : index = init.length := by
      simp only [hre, length_append, length_singleton] at hlt
      omega
    simp only [hre, hl, getElem_concat_length] at hh
    rw [not_holds_pageAlignDown hr] at hh
    cases hh
  refine ⟨init.eraseIdx index, ?_⟩
  show s1.regions.eraseIdx index = _
  rw [unmapPages_regions hp, hre, eraseIdx_append_of_lt_length hin]

lemma releaseLoop_unaligned {fl : ℕ} (hre : s.regions = init ++ [r])
    (hr : r.base.toNat % 4096 ≠ 0) (hrun : releaseLoop fl s = some (f, s')) : s'.regions ≠ [] := by
  induction fl generalizing s init f with
  | zero =>
    cases hrun
    simp [hre]
  | succ fl ih =>
    rw [releaseLoop, hre, List.getLast?_concat] at hrun
    dsimp only at hrun
    split at hrun
    · cases hrun
    · next hu =>
      cases hrun
      obtain ⟨i', hi'⟩ := vmUnmap_unaligned hre hr hu
      simp [hi']
    next s1 hu =>
    obtain ⟨i', hi'⟩ := vmUnmap_unaligned hre hr hu
    obtain ⟨⟨f1, s2⟩, hrs, he⟩ := map_eq_some_iff.1 hrun
    cases he
    exact ih hi' hrs

theorem not_tornDown_of_unaligned (hre : s.regions = init ++ [r])
    (hr : r.base.toNat % 4096 ≠ 0) (fr : Set ℕ) : ¬ s.TornDown fr := by
  rintro ⟨f, s', hrun, hnil, -⟩
  obtain ⟨⟨f1, s1⟩, hl, he⟩ := map_eq_some_iff.1 hrun
  cases he
  exact releaseLoop_unaligned hre hr hl hnil

/-- The teardown is complete when the address space was built carefully. It never is when the
last region does not start at a page. -/
theorem teardown_frees_everything (s : Space) (frames : Set ℕ) :
    (Built s frames → s.TornDown frames) ∧
      ∀ init r, s.regions = init ++ [r] → r.base.toNat % 4096 ≠ 0 → ¬ s.TornDown frames := by
  refine ⟨fun h => ?_, fun init r hre hr => not_tornDown_of_unaligned hre hr frames⟩
  obtain ⟨ht, hf⟩ := h.tidy
  rw [show frames = {a | s.Holds a} from Set.ext hf]
  exact ht.tornDown
end

/-! ## A small process -/

/-- Nothing is mapped, the tables for the first addresses are there, and page 5 is free. -/
def newSpace : Space :=
  { onePage 0 TableEntry.zero with
    paging := { fourTables 0 TableEntry.zero with pmm := Pmm.pageBitmapInitialize.markFree 5 } }

lemma fresh_newSpace : newSpace.Fresh := by
  have hno : ∀ v, newSpace.mapping v = none := by
    intro v
    by_contra hso
    obtain ⟨m, hm⟩ := ne_none_iff_exists'.1 hso
    obtain ⟨-, -, hp, -⟩ := entry_onePage (show (onePage 0 TableEntry.zero).mapping v = some m
      from hm)
    cases hp
  exact ⟨⟨Nat.one_ne_zero, tree_freePage (tree_fourTables 0 TableEntry.zero)
    (not_isTable_fourTables (by decide)), fun v a w hm => by simp [hno v] at hm⟩, rfl,
    fun v _ => hno v⟩

/-- A writable segment of 16 bytes. -/
def smallSegment (vaddr : UInt64) : Phdr where
  flags := pfW
  offset := 0
  vaddr := vaddr
  filesz := 0
  memsz := 16

lemma run_smallSegment (vaddr : UInt64)
    (h : ((newSpace.mapSegment [] (smallSegment vaddr)).map fun r => (r.1, r.2.regions.map (·.base))) =
      some (true, [vaddr])) :
    ∃ s r, newSpace.mapSegment [] (smallSegment vaddr) = some (true, s) ∧ s.regions = [r] ∧
      r.base = vaddr := by
  obtain ⟨⟨ok, s⟩, hrun, he⟩ := map_eq_some_iff.1 h
  obtain ⟨rfl, hb⟩ := Prod.mk.inj he
  obtain ⟨r, hr, hv⟩ := map_eq_singleton_iff.1 hb
  exact ⟨s, r, hrun, hr, hv⟩

theorem teardown_frees_small_segment :
    ∃ s frames, Built s frames ∧ s.regions ≠ [] ∧ s.TornDown frames := by
  obtain ⟨s, r, hrun, hre, -⟩ := run_smallSegment 0x1000 (by decide +kernel)
  have hb : Built s (∅ ∪ {a | s.Holds a}) := by
    refine .step (.fresh fresh_newSpace) (b := .segment [] (smallSegment 0x1000)) ⟨trivial, ?_⟩ hrun
    rintro r hr
    cases hr
    exact ⟨by decide, ⟨by decide, by decide, by decide⟩, fun r' hr' => absurd hr'
      (by simp [newSpace, onePage])⟩
  exact ⟨s, _, hb, by simp [hre], (teardown_frees_everything s _).1 hb⟩

/-- A segment at `0x1010` is loaded into a new address space. The teardown gives nothing back:
the region and the page are still there after it. -/
theorem teardown_keeps_unaligned_segment :
    newSpace.Fresh ∧ ∃ s s', newSpace.mapSegment [] (smallSegment 0x1010) = some (true, s) ∧
      s.releaseUserMemory = some ([], s') ∧ s'.regions.length = 1 ∧
      s'.mapping 0x1010 = some (0x5000, true, true) ∧ ∀ frames, ¬ s.TornDown frames := by
  have hc : ((newSpace.mapSegment [] (smallSegment 0x1010)).bind fun r =>
      r.2.releaseUserMemory.map fun r' =>
        (r'.1, r'.2.regions.length, decide (r'.2.mapping 0x1010 = some (0x5000, true, true)))) =
      some ([], 1, true) := by
    decide +kernel
  obtain ⟨s, r, hr, hrg, hb⟩ := run_smallSegment 0x1010 (by decide +kernel)
  rw [hr, bind_some] at hc
  obtain ⟨⟨freed, s'⟩, hre, he⟩ := map_eq_some_iff.1 hc
  obtain ⟨rfl, hle, hma⟩ : freed = [] ∧ s'.regions.length = 1 ∧
      s'.mapping 0x1010 = some (0x5000, true, true) := by simpa using he
  refine ⟨fresh_newSpace, s, s', hr, hre, hle, hma, fun frames => ?_⟩
  exact not_tornDown_of_unaligned (show s.regions = [] ++ [r] from hrg) (by rw [hb]; decide) frames
end Space
end Menios.User
