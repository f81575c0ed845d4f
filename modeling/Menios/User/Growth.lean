import Menios.User.Space

/-!
# Growing regions on demand

What `proc_user_touch_range` (`src/kernel/proc/proc.c`, lines 1843-1886) and the growth of
regions behind it (`src/kernel/user/vm_region.c`, lines 88-197) do to an address space.

Results:

* `Extends`: mappings are only added, for user pages that were free, and no page in use is
  written.
* `touchRange_spec`: a range that was touched successfully is mapped, and in the lower half
  a page that no region can supply makes the call fail.
* `touchRange_present`: a range that is mapped is accepted as it is, whatever its address and
  the permissions of its pages.
-/

namespace Menios.Mem.Paging
/-! ## Pages and addresses -/

lemma samePage_iff (v v' : UInt64) :
    SamePage v v' ↔ v.toNat / 4096 % 2 ^ 36 = v'.toNat / 4096 % 2 ^ 36 := by
  simp only [SamePage, pathOf, pml4Index, pdptIndex, pdIndex, ptIndex, tableIndex,
    List.cons.injEq, Fin.mk.injEq, and_true]
  omega

variable {v v' : UInt64}
lemma SamePage.of_div (h : v.toNat / 4096 = v'.toNat / 4096) : SamePage v v' :=
  (samePage_iff v v').2 (by rw [h])

lemma SamePage.symm (h : SamePage v v') : SamePage v' v := ⟨h.1.symm, h.2.symm⟩

lemma SamePage.trans {v'' : UInt64} (h : SamePage v v') (h' : SamePage v' v'') : SamePage v v'' :=
  ⟨h.1.trans h'.1, h.2.trans h'.2⟩

lemma getMapping_congr (s : Paging) {r : ℕ} (hr : r ≠ 0) (h : SamePage v v') :
    s.getMapping r v = s.getMapping r v' := by
  rw [getMapping_eq_mappingOf s hr, getMapping_eq_mappingOf s hr, h.1, h.2]
end Menios.Mem.Paging

namespace Menios.User
open Common Mem Mem.Paging Nat
variable {v : UInt64}
lemma toNat_add_ofNat {i : ℕ} (h : v.toNat + i < 2 ^ 64) :
    (v + i.toUInt64).toNat = v.toNat + i := by
  have hi : i.toUInt64.toNat = i := by
    rw [toUInt64_eq, UInt64.toNat_ofNat']
    omega
  rw [UInt64.toNat_add, hi, mod_eq_of_lt h]

lemma add_ofNat_add (v : UInt64) (i j : ℕ) :
    v + i.toUInt64 + j.toUInt64 = v + (i + j).toUInt64 := by
  simp [toUInt64_eq, UInt64.add_assoc]

lemma toNat_mod_page (v : UInt64) : (v % 4096).toNat = v.toNat % 4096 := by
  rw [UInt64.toNat_mod]
  rfl

lemma toNat_pageAlignDown (v : UInt64) : (pageAlignDown v).toNat = v.toNat / 4096 * 4096 := by
  have := v.toNat_lt
  rw [pageAlignDown, UInt64.toNat_mul, UInt64.toNat_div]
  show v.toNat / 4096 * 4096 % 2 ^ 64 = _
  omega

lemma samePage_pageAlignDown (v : UInt64) : SamePage (pageAlignDown v) v :=
  .of_div (by rw [toNat_pageAlignDown]; omega)

lemma samePage_add {i : ℕ} (h : v.toNat % 4096 + i < 4096) : SamePage v (v + i.toUInt64) := by
  have := v.toNat_lt
  refine .of_div ?_
  rw [toNat_add_ofNat (by omega)]
  omega

lemma not_samePage_of_low {v' : UInt64} (hv : v.toNat < Space.userLimit)
    (hv' : v'.toNat < Space.userLimit) (h : v.toNat / 4096 ≠ v'.toNat / 4096) :
    ¬ SamePage v v' := by
  rw [samePage_iff]
  simp only [Space.userLimit] at hv hv'
  omega

namespace Space
/-! ## Sound address spaces -/

/-- An address space whose tables form a tree, and whose user pages are neither free nor page
tables. -/
structure Sound (s : Space) : Prop where
  root : s.root ≠ 0
  tree : Tree s.paging s.root
  frames : ∀ v a w, s.mapping v = some (a, w, true) →
    ¬ s.paging.pmm.Free (a / pageSize) ∧ ¬ IsTable s.paging s.root (a / pageSize)

section
variable {s s' s'' : Space}
lemma activeRoot_eq (h : s.root ≠ 0) : s.activeRoot = s.root := if_neg h

lemma Sound.mapping_congr (h : s.Sound) {v v' : UInt64} (hv : SamePage v v') :
    s.mapping v = s.mapping v' := by
  rw [mapping, mapping, activeRoot_eq h.root]
  exact getMapping_congr _ h.root hv

lemma Sound.page_aligned (h : s.Sound) {v : UInt64} {a : ℕ} {w u : Bool}
    (hv : s.mapping v = some (a, w, u)) : a % pageSize = 0 := by
  rw [mapping, activeRoot_eq h.root] at hv
  obtain ⟨p, -, -, rfl⟩ := exists_entry_of_getMapping h.root hv
  rw [← TableEntry.page_mul_pageSize]
  exact mul_mod_left _ _

/-! ## Extending an address space -/
end
end Space

/-- The region is the same, and more of it is committed. -/
structure Region.Commits (r r' : Region) : Prop where
  base : r'.base = r.base
  length : r'.length = r.length
  flags : r'.flags = r.flags
  committedBase : r'.committedBase ≤ r.committedBase
  committedTop : r.committedTop ≤ r'.committedTop

lemma Region.Commits.refl (r : Region) : r.Commits r :=
  ⟨rfl, rfl, rfl, UInt64.le_refl _, UInt64.le_refl _⟩

variable {r' : Region}
lemma Region.Commits.trans {r r'' : Region} (h : r.Commits r') (h' : r'.Commits r'') :
    r.Commits r'' where
  base := h'.base.trans h.base
  length := h'.length.trans h.length
  flags := h'.flags.trans h.flags
  committedBase := UInt64.le_trans h'.committedBase h.committedBase
  committedTop := UInt64.le_trans h.committedTop h'.committedTop

lemma Region.commits_noteMapping (r : Region) (b ln : UInt64) : r.Commits (r.noteMapping b ln) := by
  rw [Region.noteMapping]
  split_ifs with h hb ht ht
  · exact .refl r
  · exact ⟨rfl, rfl, rfl, UInt64.le_of_lt hb, UInt64.le_of_lt ht⟩
  · exact ⟨rfl, rfl, rfl, UInt64.le_of_lt hb, UInt64.le_refl _⟩
  · exact ⟨rfl, rfl, rfl, UInt64.le_refl _, UInt64.le_of_lt ht⟩
  · exact ⟨rfl, rfl, rfl, UInt64.le_refl _, UInt64.le_refl _⟩

/-- The regions are the same, and more of them is committed. -/
def CommitsAll (rs rs' : List Region) : Prop := List.Forall₂ Region.Commits rs rs'

lemma CommitsAll.refl (rs : List Region) : CommitsAll rs rs :=
  List.forall₂_same.2 fun r _ => .refl r

variable {rs rs' : List Region}
lemma CommitsAll.trans {r'' : List Region} (h : CommitsAll rs rs') (h' : CommitsAll rs' r'') :
    CommitsAll rs r'' := by
  induction h generalizing r'' with
  | nil => exact h'
  | cons hr _ ih =>
    cases h' with
    | cons hr' h' => exact .cons (hr.trans hr') (ih h')

lemma CommitsAll.set {index : ℕ} {r : Region} (hget : rs[index]? = some r) (h : r.Commits r') :
    CommitsAll rs (rs.set index r') := by
  induction rs generalizing index with
  | nil => simp at hget
  | cons r0 rs ih =>
    cases index with
    | zero =>
      obtain rfl : r0 = r := by simpa using hget
      exact .cons h (CommitsAll.refl rs)
    | succ index => exact .cons (.refl r0) (ih (by simpa using hget))

lemma CommitsAll.get (h : CommitsAll rs rs') {index : ℕ} (hget : rs'[index]? = some r') :
    ∃ r, rs[index]? = some r ∧ r.Commits r' := by
  induction h generalizing index with
  | nil => simp at hget
  | cons hr _ ih =>
    cases index with
    | zero =>
      obtain rfl : _ = r' := by simpa using hget
      exact ⟨_, rfl, hr⟩
    | succ index => exact ih (by simpa using hget)

lemma CommitsAll.vmRegionFind (h : CommitsAll rs rs') (ad : UInt64) :
    vmRegionFind rs' ad = vmRegionFind rs ad := by
  rw [User.vmRegionFind, User.vmRegionFind]
  induction h with
  | nil => rfl
  | cons hr _ ih =>
    rw [List.findIdx?_cons, List.findIdx?_cons, ih, Region.holds, Region.holds, Region.limit,
      Region.limit, hr.base, hr.length]

namespace Space
/-- Mappings were added, for free pages that user code may use (and write to, if `write`),
and pages in use were not written. -/
structure Extends (write : Bool) (s s' : Space) : Prop where
  sound : s'.Sound
  root : s'.root = s.root
  writeProtect : s'.writeProtect = s.writeProtect
  kept : ∀ v m, s.mapping v = some m → s'.mapping v = some m
  fresh : ∀ v a w u, s.mapping v = none → s'.mapping v = some (a, w, u) →
    u = true ∧ (write = true → w = true) ∧ s.paging.pmm.Free (a / pageSize)
  apart : ∀ v v' a w u w' u', s.mapping v = none → s.mapping v' = none →
    s'.mapping v = some (a, w, u) → s'.mapping v' = some (a, w', u') → SamePage v v'
  bytes : ∀ x, ¬ s.paging.pmm.Free (x / pageSize) → s'.bytes x = s.bytes x
  busy : ∀ page, ¬ s.paging.pmm.Free page → ¬ s'.paging.pmm.Free page
  regions : CommitsAll s.regions s'.regions

section
variable {s s' s'' : Space} {wr : Bool}
lemma Extends.refl (h : s.Sound) : Extends wr s s where
  sound := h
  root := rfl
  writeProtect := rfl
  kept _ _ hv := hv
  fresh v a w u hno hso := by simp [hno] at hso
  apart v v' a w u w' u' hno _ hso := by simp [hno] at hso
  bytes _ _ := rfl
  busy _ h := h
  regions := .refl _

variable {v v' : UInt64} {a : ℕ} {w u w' u' : Bool} (h : Extends wr s s')
include h
lemma Extends.old_or_fresh (hm : s'.mapping v = some (a, w, u)) : s.mapping v = some (a, w, u) ∨
      s.mapping v = none ∧ u = true ∧ (wr = true → w = true) ∧ s.paging.pmm.Free (a / pageSize) := by
  cases hold : s.mapping v with
  | none => exact .inr ⟨rfl, h.fresh v a w u hold hm⟩
  | some m => exact .inl ((h.kept v m hold).symm.trans hm)

/-- Two addresses with one frame are on one page, or had that frame before: a frame that was in
use was not free. -/
lemma Extends.old_or_same (hm : s'.mapping v = some (a, w, u))
    (hm' : s'.mapping v' = some (a, w', u'))
    (hb : s.mapping v = some (a, w, u) → ¬ s.paging.pmm.Free (a / pageSize))
    (hb' : s.mapping v' = some (a, w', u') → ¬ s.paging.pmm.Free (a / pageSize)) :
    s.mapping v = some (a, w, u) ∧ s.mapping v' = some (a, w', u') ∨ SamePage v v' := by
  rcases h.old_or_fresh hm with hold | ⟨hno, -, -, hf⟩
  · rcases h.old_or_fresh hm' with ho' | ⟨-, -, -, hf⟩
    · exact .inl ⟨hold, ho'⟩
    · exact absurd hf (hb hold)
  rcases h.old_or_fresh hm' with ho' | ⟨hn', -⟩
  · exact absurd hf (hb' ho')
  · exact .inr (h.apart v v' a w u w' u' hno hn' hm hm')

lemma Extends.trans (h' : Extends wr s' s'') : Extends wr s s'' where
  sound := h'.sound
  root := h'.root.trans h.root
  writeProtect := h'.writeProtect.trans h.writeProtect
  kept v m hv := h'.kept v m (h.kept v m hv)
  fresh v a w u hno hso := by
    rcases h'.old_or_fresh hso with hmid | ⟨-, hu, hw, hf⟩
    · exact h.fresh v a w u hno hmid
    · exact ⟨hu, hw, Decidable.not_not.1 fun hb => h.busy _ hb hf⟩
  apart v v' a w u w' u' hno hn' hso hs' := by
    -- a page that the first step mapped is not free in the second one
    have hb : ∀ x w u, s.mapping x = none → s'.mapping x = some (a, w, u) →
        ¬ s'.paging.pmm.Free (a / pageSize) := by
      intro x w u hx hx'
      obtain ⟨rfl, -⟩ := h.fresh x a w u hx hx'
      exact (h.sound.frames x a w hx').1
    rcases h'.old_or_same hso hs' (hb v w u hno) (hb v' w' u' hn') with
      ⟨hmid, hm'⟩ | hsa
    · exact h.apart v v' a w u w' u' hno hn' hmid hm'
    · exact hsa
  bytes x hx := (h'.bytes x (h.busy _ hx)).trans (h.bytes x hx)
  busy page hp := h'.busy page (h.busy page hp)
  regions := h.regions.trans h'.regions
end

/-! ## Adding a page -/

lemma not_free_iff (m : Pmm) (p : ℕ) : ¬ m.Free p ↔ pageLimit ≤ p ∨ m.used p = true := by
  rw [Pmm.Free, not_and_or, Nat.not_lt, Bool.not_eq_false]

lemma freePage_of_lt (s : Space) {p : ℕ} (h : p < pageLimit) :
    ∃ s', s.freePage (p * pageSize) = some s' := by
  rw [freePage, s.paging.freePage_of_lt h]
  exact ⟨_, rfl⟩

section
variable {s s' : Space} {write : Bool}
lemma toNat_pageAddress {p : ℕ} (h : p < pageLimit) :
    (p * pageSize).toUInt64.toNat = p * pageSize ∧ p * pageSize < 2 ^ 40 := by
  rw [pageLimit_eq] at h
  rw [toUInt64_eq, UInt64.toNat_ofNat']
  simp only [pageSize]
  omega

variable {al : UInt64}
/-- The address space after an allocated page was mapped at `aligned`. -/
lemma sound_mapped (h : s.Sound) {pg : ℕ} {pmm : Pmm} (hlt : pg < pageLimit)
    (hpg : pmm.used pg = true) (hnew : ¬ IsTable s.paging s.root pg)
    (hb : ∀ t, s.paging.pmm.used t = true → pmm.used t = true) {wt : Bool} {p : Paging}
    (hma : Mapped { s.paging with pmm := pmm } s.root [] al (pg * pageSize).toUInt64
      wt true true p) (hp : s'.paging = p) (hr : s'.root = s.root) : s'.Sound ∧
      (∀ v, SamePage al v → s'.mapping v = some (pg * pageSize, wt, true)) ∧
      (∀ v, ¬ SamePage al v → s'.mapping v = s.mapping v) ∧
      ∀ t, ¬ s.paging.pmm.Free t → ¬ s'.paging.pmm.Free t := by
  obtain ⟨hpd, hbig⟩ := toNat_pageAddress hlt
  obtain ⟨hse, hoh⟩ := hma.getMapping h.root (by rw [hpd]; exact mul_mod_left _ _)
  rw [hpd, mod_eq_of_lt hbig] at hse
  have hmap : ∀ v, s'.mapping v = p.getMapping s.root v := by
    intro v
    rw [mapping, activeRoot_eq (hr.trans_ne h.root), hr, hp]
  have hh : ∀ v, SamePage al v → s'.mapping v = some (pg * pageSize, wt, true) := by
    intro v hv
    rw [hmap, ← getMapping_congr p h.root hv]
    exact hse
  have hot : ∀ v, ¬ SamePage al v → s'.mapping v = s.mapping v := by
    intro v hv
    rw [hmap, mapping, activeRoot_eq h.root]
    exact hoh v hv
  have hk : ∀ t, ¬ s.paging.pmm.Free t → ¬ s'.paging.pmm.Free t := by
    intro t ht
    rw [hp]
    rw [not_free_iff] at ht ⊢
    exact ht.imp_right fun hu => hma.used (hb t hu)
  refine ⟨⟨hr.trans_ne h.root, ?_, fun v a w hv => ?_⟩, hh, hot, hk⟩
  · rw [hr, hp]
    exact hma.tree
  by_cases hsa : SamePage al v
  · obtain rfl := (Prod.mk.inj (Option.some.inj (hv.symm.trans (hh v hsa)))).1
    rw [mul_pageSize_div, hp, hr]
    exact ⟨(not_free_iff _ _).2 (.inr (hma.used hpg)), hma.not_isTable hpg hnew⟩
  rw [hot v hsa] at hv
  obtain ⟨hf, ht⟩ := h.frames v a w hv
  refine ⟨hk _ hf, ?_⟩
  rw [hp, hr]
  rcases (not_free_iff _ _).1 hf with hge | hin
  · rintro ⟨pt, hl, hpt⟩
    exact absurd (hma.tree.used pt _ hl hpt).1 (Nat.not_lt.2 hge)
  · exact hma.not_isTable (hb _ hin) ht

/-- The page was free. -/
lemma extends_mapped (s' : Space) (h : s.Sound) {p : ℕ} {pmm : Pmm} (hlt : p < pageLimit)
    (hf : s.paging.pmm.used p = false)
    (hu : ∀ other, pmm.used other = (s.paging.pmm.used other || decide (other = p)))
    {wt : Bool} {pg : Paging}
    (hma : Mapped { s.paging with pmm := pmm } s.root [] al (p * pageSize).toUInt64
      wt true true pg) (hno : s.mapping al = none)
    (hwr : write = true → wt = true) (hpg : s'.paging = pg)
    (hr : s'.root = s.root) (hpr : s'.writeProtect = s.writeProtect)
    (hb : s'.bytes = zeroPages s.bytes (p * pageSize) 1) (hre : CommitsAll s.regions s'.regions) :
    Extends write s s' ∧ s'.mapping al = some (p * pageSize, wt, true) ∧
      ∀ v, ¬ SamePage al v → s'.mapping v = s.mapping v := by
  obtain ⟨hsn, hh, hot, hk⟩ := sound_mapped h hlt (by simp [hu])
    (h.tree.not_isTable hf) (fun t ht => by rw [hu, ht]; rfl) hma hpg hr
  have hbe : ∀ v, SamePage al v → s.mapping v = none := fun v hv => by
    rw [← h.mapping_congr hv]
    exact hno
  refine ⟨⟨hsn, hr, hpr, ?_, ?_, ?_, ?_, hk, hre⟩, hh al ⟨rfl, rfl⟩, hot⟩
  · intro v m hv
    by_cases hp : SamePage al v
    · rw [hbe v hp] at hv
      cases hv
    · rw [hot v hp, hv]
  · intro v a w u hv hv'
    by_cases hp : SamePage al v
    · rw [hh v hp] at hv'
      obtain ⟨rfl, rfl, rfl⟩ : p * pageSize = a ∧ wt = w ∧ true = u := by simpa using hv'
      exact ⟨rfl, hwr, by rw [mul_pageSize_div]; exact ⟨hlt, hf⟩⟩
    · rw [hot v hp, hv] at hv'
      cases hv'
  · intro v v' a w u w' u' hv hv' hso hs'
    by_cases hp : SamePage al v
    · by_cases hp' : SamePage al v'
      · exact hp.symm.trans hp'
      · rw [hot v' hp', hv'] at hs'
        cases hs'
    · rw [hot v hp, hv] at hso
      cases hso
  intro x hx
  rw [hb, zeroPages, if_neg]
  rintro ⟨hge, hle⟩
  have hxp : x / pageSize = p := by
    simp only [pageSize] at hge hle ⊢
    omega
  exact hx (hxp ▸ ⟨hlt, hf⟩)

lemma commitPage_spec (h : s.Sound) {index : ℕ} {r : Region} (hget : s.regions[index]? = some r)
    (hno : s.mapping al = none) (hwr : write = true → r.flags.write = true) :
    ∃ ok s', s.commitPage index r al = some (ok, s') ∧
      (ok = true → Extends write s s' ∧ (∃ a, s'.mapping al = some (a, r.flags.write, true)) ∧
        ∀ v, ¬ SamePage al v → s'.mapping v = s.mapping v) := by
  obtain ⟨page, pmm, ha, hlt, hfr, hu⟩ | ⟨-, ha⟩ := s.paging.pmm.pmmAllocPages_one
  · unfold commitPage
    rw [ha]
    dsimp only
    by_cases hz : page * pageSize = 0
    · rw [if_pos hz]
      exact ⟨false, _, rfl, fun hf => by simp at hf⟩
    · rw [if_neg hz]
      have htr : Tree { s.paging with pmm := pmm } s.root := by
        refine h.tree.mono (fun _ _ => rfl) fun t ht => ?_
        show pmm.used t = true
        rw [hu, ht]
        rfl
      obtain ⟨ok, paging, hmap, hma, hok⟩ :=
        mapPageInRoot_spec htr al (page * pageSize).toUInt64 r.flags.write true
      rw [hmap]
      cases ok with
      | false =>
        obtain ⟨s', hs'⟩ := freePage_of_lt
          { s with paging := paging, bytes := zeroPages s.bytes (page * pageSize) 1 } hlt
        exact ⟨false, s', by dsimp only; rw [hs']; rfl, fun hf => by simp at hf⟩
      | true =>
        cases hr : registerUserSegment s.segments (page * pageSize).toUInt64 1 with
        | none =>
          dsimp only
          obtain ⟨-, hh, -⟩ := extends_mapped { s with
              paging := paging, bytes := zeroPages s.bytes (page * pageSize) 1 } h hlt hfr hu
            hma hno hwr rfl rfl rfl rfl (.refl _)
          have hh' : paging.getMapping s.root al = some (page * pageSize, r.flags.write, true) := by
            rw [← activeRoot_eq h.root]
            exact hh
          have hnot := hma.not_isTable (by simp [hu]) (h.tree.not_isTable hfr)
          rw [← mul_pageSize_div page] at hnot
          obtain ⟨p', hun, -⟩ := unmapPageInRoot_spec hma.tree h.root hh'
            (by rw [mul_pageSize_div]; exact hlt) hnot
          obtain ⟨s', hs'⟩ := freePage_of_lt
            { s with paging := p', bytes := zeroPages s.bytes (page * pageSize) 1 } hlt
          rw [hun]
          exact ⟨false, s', by dsimp only; rw [hs']; rfl, fun hf => by simp at hf⟩
        | some segments =>
          refine ⟨true, _, rfl, fun _ => ?_⟩
          obtain ⟨he, hh, hot⟩ := extends_mapped { s with
              paging := paging, bytes := zeroPages s.bytes (page * pageSize) 1
              segments := segments
              regions := s.regions.set index (r.noteMapping al 4096) } h hlt hfr hu
            hma hno hwr rfl rfl rfl rfl
            (.set hget (r.commits_noteMapping al 4096))
          exact ⟨he, ⟨_, hh⟩, hot⟩
  unfold commitPage
  rw [ha]
  exact ⟨false, _, rfl, fun hf => by simp at hf⟩

variable {ok : Bool}
variable {v : UInt64}
/-- A region can supply the page of the address: it grows, allows the access and has not
committed the page yet. -/
def Supplies (s : Space) (v : UInt64) (write : Bool) : Prop :=
  ∃ index r, vmRegionFind s.regions v = some index ∧ s.regions[index]? = some r ∧
    (write = true → r.flags.write = true) ∧
    ((r.flags.growDown = true ∧ r.base ≤ pageAlignDown v ∧ pageAlignDown v < r.committedBase) ∨
      (r.flags.growDown = false ∧ r.flags.growUp = true ∧ pageAlignDown v < r.limit ∧
        r.committedTop ≤ pageAlignDown v))

/-- A fault fails, or is taken for resolved because the page counts as committed, or a page is
committed. -/
lemma handlePageFault_cases (s : Space) (v : UInt64) (write : Bool) :
    s.handlePageFault v write = some (false, s) ∨
    s.handlePageFault v write = some (true, s) ∧ ¬ s.Supplies v write ∨
    s.Supplies v write ∧ ∃ index r, vmRegionFind s.regions v = some index ∧
      s.regions[index]? = some r ∧ (write = true → r.flags.write = true) ∧
      s.handlePageFault v write = s.commitPage index r (pageAlignDown v) := by
  rw [handlePageFault]
  cases hf : vmRegionFind s.regions v with
  | none => exact .inl rfl
  | some index =>
    dsimp only
    cases hget : s.regions[index]? with
    | none => exact .inl rfl
    | some r =>
      dsimp only
      split_ifs with hfl hdo hu
      · exact .inl rfl
      · have hwr : write = true → r.flags.write = true := by simpa using hfl
        rw [growDown]
        split_ifs with hb hc
        · exact .inl rfl
        · refine .inr (.inl ⟨rfl, ?_⟩)
          rintro ⟨i, r', hi, hr', -, hgr⟩
          cases hf.symm.trans hi
          cases hget.symm.trans hr'
          rcases hgr with ⟨-, -, hlt⟩ | ⟨hu, -⟩
          · exact UInt64.not_le.2 hlt hc
          · simp [hdo] at hu
        · exact .inr (.inr ⟨⟨index, r, hf, hget, hwr, .inl
            ⟨hdo, UInt64.not_lt.1 hb, UInt64.not_le.1 hc⟩⟩, index, r, rfl, hget, hwr, rfl⟩)
      · have hwr : write = true → r.flags.write = true := by simpa using hfl
        rw [growUp]
        split_ifs with hl hc
        · exact .inl rfl
        · refine .inr (.inl ⟨rfl, ?_⟩)
          rintro ⟨i, r', hi, hr', -, hgr⟩
          cases hf.symm.trans hi
          cases hget.symm.trans hr'
          rcases hgr with ⟨hd', -⟩ | ⟨-, -, -, hle⟩
          · exact hdo hd'
          · exact UInt64.not_lt.2 hle hc
        · exact .inr (.inr ⟨⟨index, r, hf, hget, hwr, .inr ⟨Bool.not_eq_true _ ▸ hdo, hu,
            UInt64.not_le.1 hl, UInt64.not_lt.1 hc⟩⟩, index, r, rfl, hget, hwr, rfl⟩)
      · exact .inl rfl

end

/-! ## Touching -/
section
variable {s s' : Space} {write : Bool} {v : UInt64}
lemma Supplies.of_commits (h : CommitsAll s.regions s'.regions) (hv : s'.Supplies v write) :
    s.Supplies v write := by
  obtain ⟨index, r', hf, hget, hfl, hgr⟩ := hv
  obtain ⟨r, hg0, hr⟩ := h.get hget
  refine ⟨index, r, (h.vmRegionFind v).symm.trans hf, hg0, hr.flags ▸ hfl, ?_⟩
  rw [hr.flags, Region.limit, hr.base, hr.length] at hgr
  refine hgr.imp (fun hd => ⟨hd.1, hd.2.1, ?_⟩) fun hu => ⟨hu.1, hu.2.1, hu.2.2.1, ?_⟩
  · exact UInt64.lt_of_lt_of_le hd.2.2 hr.committedBase
  · exact UInt64.le_trans hr.committedTop hu.2.2.2

/-- The page of the address is mapped as its region says, and no other mapping changed. -/
def Resolves (s : Space) (v : UInt64) (s' : Space) : Prop :=
  (∃ index r a, vmRegionFind s.regions v = some index ∧ s.regions[index]? = some r ∧
    s'.mapping v = some (a, r.flags.write, true)) ∧
  ∀ v', ¬ SamePage v v' → s'.mapping v' = s.mapping v'

lemma handlePageFault_spec (write : Bool) (h : s.Sound) (hnone : s.mapping v = none) :
    ∃ ok s', s.handlePageFault v write = some (ok, s') ∧
      (ok = true → Extends write s s' ∧ ∀ v', ¬ SamePage v v' → s'.mapping v' = s.mapping v') ∧
      (¬ s.Supplies v write → ok = true → s' = s) ∧
      (s.Supplies v write → ok = true → s.Resolves v s') := by
  rcases handlePageFault_cases s v write with
    hr | ⟨hr, hno⟩ | ⟨hs, index, r, hfi, hget, hwr, hr⟩
  · exact ⟨false, s, hr, fun hf => by simp at hf, fun _ _ => rfl, fun _ hf => by simp at hf⟩
  · exact ⟨true, s, hr, fun _ => ⟨.refl h, fun _ _ => rfl⟩, fun _ _ => rfl, fun hs => absurd hs hno⟩
  have hsa := samePage_pageAlignDown v
  obtain ⟨ok, s', hc, hok⟩ := commitPage_spec h hget ((h.mapping_congr hsa).trans hnone) hwr
  have hot : ok = true → ∀ v', ¬ SamePage v v' → s'.mapping v' = s.mapping v' :=
    fun heq v' hv' => (hok heq).2.2 v' fun hv => hv' (hsa.symm.trans hv)
  refine ⟨ok, s', hr.trans hc, fun heq => ⟨(hok heq).1, hot heq⟩,
    fun hno => absurd hs hno, fun _ heq => ⟨?_, hot heq⟩⟩
  obtain ⟨he, ⟨a, ha⟩, -⟩ := hok heq
  exact ⟨index, r, a, hfi, hget, (he.sound.mapping_congr hsa).symm.trans ha⟩

lemma touchPage_spec (write : Bool) (h : s.Sound) (v : UInt64) :
    ∃ ok s', s.touchPage v write = some (ok, s') ∧
      (ok = true → Extends write s s' ∧ (s'.mapping v).isSome = true ∧
        ∀ v', ¬ SamePage v v' → s'.mapping v' = s.mapping v') ∧
      (s.mapping v = none → ¬ s.Supplies v write → ok = false) := by
  rw [touchPage]
  cases hmap : s.mapping v with
  | some m =>
    exact ⟨true, s, rfl, fun _ => ⟨.refl h, by rw [hmap]; rfl, fun _ _ => rfl⟩,
      fun hnone => by simp at hnone⟩
  | none =>
    obtain ⟨ok, s', hr, hok, hno, -⟩ := handlePageFault_spec write h hmap
    rw [if_neg (by simp), hr]
    cases ok with
    | false => exact ⟨false, s', rfl, fun hf => by simp at hf, fun _ _ => rfl⟩
    | true =>
      obtain ⟨he, hot⟩ := hok rfl
      refine ⟨_, s', rfl, fun hso => ⟨he, hso, hot⟩, fun _ hsu => ?_⟩
      rw [hno hsu rfl, hmap]
      rfl

variable {l : ℕ}
lemma pageRemaining_spec (v : UInt64) (hle : 0 < l) :
    0 < pageRemaining v l ∧ pageRemaining v l ≤ l ∧
      (∀ i < pageRemaining v l, v.toNat % 4096 + i < 4096) ∧
      (pageRemaining v l < l → (v.toNat + pageRemaining v l) % 4096 = 0) := by
  rw [pageRemaining, toNat_mod_page]
  refine ⟨by omega, by omega, fun i hi => by omega, fun hlt => ?_⟩
  rw [min_eq_left (by omega)]
  omega

/-- There is a page in the range that is not mapped and that no region can supply. -/
def Lacks (s : Space) (addr : UInt64) (length : ℕ) (write : Bool) : Prop :=
  ∃ i < length, s.mapping (addr + i.toUInt64) = none ∧
    ∀ v, SamePage (addr + i.toUInt64) v → ¬ s.Supplies v write

lemma touchFrom_spec {f : ℕ} (hfu : l ≤ f) (h : s.Sound) :
    ∃ ok s', touchFrom write f s v l = some (ok, s') ∧
      (ok = true → Extends write s s' ∧ ∀ i < l, (s'.mapping (v + i.toUInt64)).isSome = true) ∧
      (v.toNat + l ≤ userLimit → s.Lacks v l write → ok = false) := by
  induction f generalizing s v l with
  | zero =>
    obtain rfl : l = 0 := by omega
    exact ⟨true, s, rfl, fun _ => ⟨.refl h, fun i hi => by omega⟩, fun _ ⟨i, hi, _⟩ => by omega⟩
  | succ f ih =>
    cases l with
    | zero =>
      exact ⟨true, s, rfl, fun _ => ⟨.refl h, fun i hi => by omega⟩, fun _ ⟨i, hi, _⟩ => by omega⟩
    | succ l =>
      obtain ⟨ok, s1, hr, hok, hno⟩ := touchPage_spec write h v
      obtain ⟨hpos, hle, hin, hend⟩ := pageRemaining_spec v (show 0 < l + 1 by omega)
      obtain ⟨step, hst⟩ := @exists_eq _ (pageRemaining v (l + 1))
      rw [← hst] at hpos hle hin hend
      have hl' : (2 : ℕ) ^ 47 = userLimit := by decide
      rw [touchFrom, hr]
      cases ok with
      | false => exact ⟨false, s1, rfl, fun hf => by simp at hf, fun _ _ => rfl⟩
      | true =>
        obtain ⟨he, hso, hot⟩ := hok rfl
        rw [← hst]
        obtain ⟨ok, s', hr', ho', hn'⟩ := ih (v := v + step.toUInt64)
          (show l + 1 - step ≤ f by omega) he.sound
        refine ⟨ok, s', hr', fun heq => ?_, fun hl ⟨i, hi, hnone, hsu⟩ => ?_⟩
        · obtain ⟨he', hma⟩ := ho' heq
          refine ⟨he.trans he', fun i hi => ?_⟩
          by_cases hh : i < step
          · rw [← he'.sound.mapping_congr (samePage_add (hin i hh))]
            obtain ⟨m, hm⟩ := Option.isSome_iff_exists.1 hso
            rw [he'.kept v m hm]
            rfl
          · have := hma (i - step) (by omega)
            rwa [add_ofNat_add, Nat.add_sub_cancel' (by omega)] at this
        by_cases hh : i < step
        · -- the page that is missing is the one at hand
          have hsa := samePage_add (hin i hh)
          have hnn' : s.mapping v = none := (h.mapping_congr hsa).trans hnone
          exact absurd (hno hnn' (hsu v hsa.symm)) (by simp)
        have hne : (v + step.toUInt64).toNat = v.toNat + step := toNat_add_ofNat (by omega)
        have hsh : v + step.toUInt64 + (i - step).toUInt64 = v + i.toUInt64 := by
          rw [add_ofNat_add, Nat.add_sub_cancel' (by omega)]
        have hi' : (v + i.toUInt64).toNat = v.toNat + i := toNat_add_ofNat (by omega)
        refine hn' (by omega) ⟨i - step, by omega, ?_, fun v' hv' => ?_⟩
        · rw [hsh, hot, hnone]
          refine not_samePage_of_low (by omega) (by omega) ?_
          omega
        rw [hsh] at hv'
        exact fun hs => hsu v' hv' (hs.of_commits he.regions)

/-- `proc_user_touch_range` maps the range if it succeeds, and fails if a page of a range in the
lower half is lacking. -/
theorem touchRange_spec (h : s.Sound) (ad : UInt64) (ln : ℕ) (write : Bool) :
    ∃ ok s', s.touchRange ad ln write = some (ok, s') ∧
      (ok = true → Extends write s s' ∧ ∀ i < ln, (s'.mapping (ad + i.toUInt64)).isSome = true) ∧
      (ad.toNat + ln ≤ userLimit → s.Lacks ad ln write → ok = false) :=
  touchFrom_spec le_rfl h

/-- A range that is mapped passes `proc_user_touch_range`, whatever its pages allow. -/
lemma touchFrom_present {f : ℕ} (hfu : l ≤ f)
    (h : ∀ i < l, (s.mapping (v + i.toUInt64)).isSome = true) :
    touchFrom write f s v l = some (true, s) := by
  induction f generalizing v l with
  | zero =>
    obtain rfl : l = 0 := by omega
    rfl
  | succ f ih =>
    cases l with
    | zero => rfl
    | succ l =>
      obtain ⟨hpos, hle, -, -⟩ := pageRemaining_spec v (show 0 < l + 1 by omega)
      have hf : (s.mapping v).isSome = true := by simpa using h 0 (by omega)
      rw [touchFrom, touchPage, if_pos hf]
      refine ih (by omega) fun i hi => ?_
      rw [add_ofNat_add]
      exact h _ (by omega)

theorem touchRange_present {ad : UInt64} {ln : ℕ} (write : Bool)
    (h : ∀ i < ln, (s.mapping (ad + i.toUInt64)).isSome = true) :
    s.touchRange ad ln write = some (true, s) :=
  touchFrom_present le_rfl h
end
end Space
end Menios.User
