import Menios.Mem.Forest
import Menios.User.Teardown
import Menios.User.VmShared

/-!
# Copying the memory of a process

`fork` copies the memory of the parent with `vm_clone` (`src/kernel/user/vm.c`, lines 298-369):
every page that is mapped within the committed part of a region that is not shared memory is
copied to a new frame, which the child maps at the same address.

Regions need not start and end at pages. A page that several regions reach into is copied once
for each of them, and the last copy stays: it has the write permission of the last of these
regions, whatever the permissions of the others.

Results:

* `vm_clone_copies`: what the child and the parent map after `vm_clone`.
* `clone_page_of_two_regions`: the write permission is not that of the first of two regions.
-/

namespace Menios.User
open Common Mem Mem.Paging List Option Function Nat Finset Space

/-! ## Statement -/
namespace Region
/-- The region has an address in the page of `v`. -/
def Reaches (r : Region) (v : UInt64) : Prop :=
  ∃ v', v'.toNat / 4096 = v.toNat / 4096 ∧ r.holds v' = true

/-- The region lies in the user half, and its committed part within it. -/
structure Formed (r : Region) : Prop where
  nonempty : 0 < r.length.toNat
  low : r.base.toNat + r.length.toNat ≤ userLimit
  base : r.base.toNat ≤ r.committedBase.toNat
  order : r.committedBase.toNat ≤ r.committedTop.toNat
  top : r.committedTop.toNat ≤ r.base.toNat + r.length.toNat

/-- The number of the first page of the committed part. -/
def firstPage (r : Region) : ℕ := r.committedBase.toNat / 4096

/-- The number of the page after the committed part. -/
def endPage (r : Region) : ℕ := (r.committedTop.toNat + 4095) / 4096
end Region

/-- The last region that is no shared memory and reaches into the page of `v`. -/
def LastReaching (regions : List Region) (v : UInt64) (r : Region) : Prop :=
  ∃ before after, regions = before ++ r :: after ∧ r.type ≠ .shared ∧ r.Reaches v ∧
    ∀ r' ∈ after, r'.type ≠ .shared → ¬ r'.Reaches v

namespace Space
/-- The process `s` is about to get a copy of the memory of the process with the root `source` and
these regions: its user half is empty, the tables of the parent are not in it, and the
frames of the parent are not free. -/
structure Forkable (s : Space) (source : ℕ) (regions : List Region) : Prop where
  root : s.root ≠ 0
  child : Tree s.paging s.root
  empty : ∀ v, v.toNat < userLimit → s.mapping v = none
  sourceRoot : source ≠ 0
  parent : Tree s.paging source
  apart : ∀ t, IsTable s.paging source t → ¬ LowTable s.paging s.root t
  frames : ∀ v a w u, s.paging.getMapping source v = some (a, w, u) →
    ¬ s.paging.pmm.Free (a / pageSize)
  formed : ∀ r ∈ regions, r.type ≠ .shared → r.Formed
  committed : ∀ r ∈ regions, r.type ≠ .shared → ∀ v, r.holds v = true →
    s.paging.getMapping source v ≠ none →
    r.firstPage ≤ v.toNat / 4096 ∧ v.toNat / 4096 < r.endPage

/-- The child maps copies of the pages of the parent, and nothing else; the parent keeps its
pages. -/
structure Copied (s s' : Space) (source : ℕ) (regions : List Region) : Prop where
  copied : ∀ r ∈ regions, r.type ≠ .shared → ∀ v, r.holds v = true → ∀ a w u,
    s.paging.getMapping source v = some (a, w, u) → ∃ last frame, LastReaching regions v last ∧
      s'.mapping v = some (frame * pageSize, last.flags.write, last.flags.user) ∧
      s.paging.pmm.Free frame ∧
      ∀ k, k < pageSize → s'.bytes (frame * pageSize + k) = s.bytes (a + k)
  distinct : ∀ v v' m m', v.toNat < userLimit → v'.toNat < userLimit → s'.mapping v = some m →
    s'.mapping v' = some m' → m.1 = m'.1 → v.toNat / 4096 = v'.toNat / 4096
  only : ∀ v, v.toNat < userLimit → s'.mapping v ≠ none →
    s.paging.getMapping source v ≠ none ∧ ∃ r ∈ regions, r.type ≠ .shared ∧ r.Reaches v
  parent : ∀ v, s'.paging.getMapping source v = s.paging.getMapping source v
  contents : ∀ v a w u, s.paging.getMapping source v = some (a, w, u) →
    ∀ k, k < pageSize → s'.bytes (a + k) = s.bytes (a + k)

/-! ## One page -/

/-- The state while memory is copied. `done`: the flags of the region that a page was last copied
for. -/
structure Cloning (s₀ s : Space) (source : ℕ) (done : ℕ → Option RegionFlags) : Prop where
  root : s.root = s₀.root
  growth : LowGrowth s₀.paging s.paging s₀.root
  bytes : ∀ x, ¬ s₀.paging.pmm.Free (x / pageSize) → s.bytes x = s₀.bytes x
  unmapped : ∀ v, v.toNat < userLimit →
    done (v.toNat / 4096) = none ∨ s₀.paging.getMapping source v = none → s.mapping v = none
  copied : ∀ v, v.toNat < userLimit → ∀ flags, done (v.toNat / 4096) = some flags → ∀ a w u,
    s₀.paging.getMapping source v = some (a, w, u) → ∃ frame,
      s.mapping v = some (frame * pageSize, flags.write, flags.user) ∧
      s₀.paging.pmm.Free frame ∧ s.paging.pmm.used frame = true ∧
      ∀ k, k < pageSize → s.bytes (frame * pageSize + k) = s₀.bytes (a + k)
  distinct : ∀ v v' m m', v.toNat < userLimit → v'.toNat < userLimit → s.mapping v = some m →
    s.mapping v' = some m' → m.1 = m'.1 → v.toNat / 4096 = v'.toNat / 4096

section
variable {s₀ s s' : Space} {sr : ℕ} {r : List Region} {done : ℕ → Option RegionFlags}
lemma Forkable.cloning (h : Forkable s sr r) : Cloning s s sr fun _ => none where
  root := rfl
  growth := .refl h.child
  bytes _ _ := rfl
  unmapped v hv _ := h.empty v hv
  copied v hv flags hdo := by cases hdo
  distinct v v' m m' hv hv' hm := by
    rw [h.empty v hv] at hm
    cases hm

section
variable (hs : Cloning s₀ s sr done)
include hs
lemma Cloning.parent (h : Forkable s₀ sr r)
    (v : UInt64) : s.paging.getMapping sr v = s₀.paging.getMapping sr v :=
  hs.growth.getMapping_other h.parent h.sourceRoot h.apart v

lemma Cloning.mapping_eq (h : Forkable s₀ sr r)
    (v : UInt64) : s.mapping v = s.paging.getMapping s₀.root v := by
  rw [mapping, activeRoot_eq (hs.root.trans_ne h.root), hs.root]

lemma Cloning.congr (hp : s'.paging = s.paging) (hb : s'.bytes = s.bytes) (hr : s'.root = s.root)
    (hk : s'.kernelRoot = s.kernelRoot) : Cloning s₀ s' sr done := by
  have hma : ∀ v, s'.mapping v = s.mapping v := fun v => by
    rw [mapping, mapping, activeRoot, activeRoot, hp, hr, hk]
  refine ⟨hr.trans hs.root, hp ▸ hs.growth, fun x hx => hb ▸ hs.bytes x hx,
    fun v hv hno => (hma v).trans (hs.unmapped v hv hno), fun v hv flags hdo a w u ha => ?_,
    fun v v' m m' hv hv' hm hm' => ?_⟩
  · rw [hma, hp, hb]
    exact hs.copied v hv flags hdo a w u ha
  rw [hma] at hm hm'
  exact hs.distinct v v' m m' hv hv' hm hm'
end

lemma samePage_low {v v' : UInt64} (hv : v.toNat < userLimit) (hv' : v'.toNat < userLimit) :
    SamePage v v' ↔ v.toNat / 4096 = v'.toNat / 4096 :=
  ⟨fun h => by_contra fun hne => not_samePage_of_low hv hv' hne h, .of_div⟩

lemma getMapping_aligned {p : Paging} {rt : ℕ} (hr : rt ≠ 0) {v : UInt64} {a : ℕ}
    {w u : Bool} (h : p.getMapping rt v = some (a, w, u)) : a % pageSize = 0 := by
  obtain ⟨pt, -, -, rfl⟩ := exists_entry_of_getMapping hr h
  rw [← TableEntry.page_mul_pageSize]
  exact mul_mod_left _ _

variable (hs : Cloning s₀ s sr done)
include hs
variable (h : Forkable s₀ sr r)
include h
lemma Cloning.pass {vd : UInt64} (hv : vd.toNat < userLimit)
    (hno : s₀.paging.getMapping sr vd = none) (f : RegionFlags) :
    Cloning s₀ s sr (Function.update done (vd.toNat / 4096) (some f)) := by
  have hp : ∀ v : UInt64, v.toNat < userLimit → v.toNat / 4096 = vd.toNat / 4096 →
      s₀.paging.getMapping sr v = none := fun v hl he => by
    rw [getMapping_congr _ h.sourceRoot ((samePage_low hl hv).2 he), hno]
  refine ⟨hs.root, hs.growth, hs.bytes, fun v hl hv' => ?_, fun v hl f' hdo a w u ha => ?_,
    hs.distinct⟩
  · by_cases he : v.toNat / 4096 = vd.toNat / 4096
    · exact hs.unmapped v hl (.inr (hp v hl he))
    · rw [update_of_ne he] at hv'
      exact hs.unmapped v hl hv'
  by_cases he : v.toNat / 4096 = vd.toNat / 4096
  · rw [hp v hl he] at ha
    cases ha
  rw [update_of_ne he] at hdo
  exact hs.copied v hl f' hdo a w u ha

lemma Cloning.copy {vd : UInt64} (hv : vd.toNat < userLimit) {a : ℕ} {w u : Bool}
    (ha : s₀.paging.getMapping sr vd = some (a, w, u)) {f : RegionFlags} {p : ℕ}
    {pmm : Pmm} (hlt : p < pageLimit) (hf : s.paging.pmm.used p = false)
    (hu : ∀ other, pmm.used other = (s.paging.pmm.used other || decide (other = p)))
    {pg : Paging} (hma : Mapped { s.paging with pmm := pmm } s₀.root [] vd
      (p * pageSize).toUInt64 f.write f.user true pg)
    (hgr : LowGrowth { s.paging with pmm := pmm } pg s₀.root)
    (hp : s'.paging = pg) (hby : s'.bytes = copyPage s.bytes (p * pageSize) a)
    (hr : s'.root = s.root) :
    Cloning s₀ s' sr (Function.update done (vd.toNat / 4096) (some f)) := by
  have hpageSize : pageSize = 4096 := rfl
  obtain ⟨hpd, hbig⟩ := toNat_pageAddress hlt
  obtain ⟨hse, hot⟩ := hma.getMapping h.root (by rw [hpd]; exact mul_mod_left _ _)
  rw [hpd, mod_eq_of_lt hbig] at hse
  have hmo : ∀ t, s.paging.pmm.used t = true → pmm.used t = true := fun t ht => by
    rw [hu, ht]
    rfl
  have hg' : LowGrowth s₀.paging s'.paging s₀.root := by
    rw [hp]
    exact hs.growth.trans ((lowGrowth_alloc hs.growth.tree hmo).trans hgr)
  have hf0 : s₀.paging.pmm.Free p := by
    refine ⟨hlt, Bool.eq_false_iff.2 fun hb => ?_⟩
    rw [hs.growth.used p hb] at hf
    cases hf
  have hmp : ∀ v, s'.mapping v = pg.getMapping s₀.root v := fun v => by
    rw [mapping, activeRoot_eq ((hr.trans hs.root).trans_ne h.root), hr, hs.root, hp]
  have hh : ∀ v : UInt64, v.toNat < userLimit → v.toNat / 4096 = vd.toNat / 4096 →
      s'.mapping v = some (p * pageSize, f.write, f.user) := fun v hl he => by
    rw [hmp, getMapping_congr _ h.root ((samePage_low hl hv).2 he), hse]
  have hth : ∀ v : UInt64, v.toNat < userLimit → v.toNat / 4096 ≠ vd.toNat / 4096 →
      s'.mapping v = s.mapping v := fun v hl hne => by
    rw [hmp, hot v (not_samePage_of_low hv hl (Ne.symm hne)), hs.mapping_eq h]
    rfl
  -- the bytes of other frames stay
  have hke : ∀ x, x / pageSize ≠ p → s'.bytes x = s.bytes x := fun x hx => by
    rw [hby, copyPage, if_neg]
    rintro ⟨hge, hle⟩
    rw [hpageSize] at hge hle hx
    omega
  -- the frames that are mapped already are in use
  have hfm : ∀ v m, v.toNat < userLimit → s.mapping v = some m → m.1 ≠ p * pageSize := by
    intro v m hl hm he
    cases hdo : done (v.toNat / 4096) with
    | none =>
      rw [hs.unmapped v hl (.inl hdo)] at hm
      cases hm
    | some f' =>
      cases hso : s₀.paging.getMapping sr v with
      | none =>
        rw [hs.unmapped v hl (.inr hso)] at hm
        cases hm
      | some m' =>
        obtain ⟨frame, hfm, -, hb, -⟩ := hs.copied v hl f' hdo m'.1 m'.2.1 m'.2.2 hso
        cases hm.symm.trans hfm
        obtain rfl : frame = p := eq_of_mul_eq_mul_right (by decide) he
        rw [hf] at hb
        cases hb
  refine ⟨hr.trans hs.root, hg', fun x hx => ?_, fun v hl hno => ?_,
    fun v hl f' hdo a' w' u' ha' => ?_, fun v v' m m' hl hl' hm hm' he => ?_⟩
  · rw [hke x fun hxp => hx (hxp ▸ hf0)]
    exact hs.bytes x hx
  · by_cases he : v.toNat / 4096 = vd.toNat / 4096
    · rw [he, update_self, getMapping_congr _ h.sourceRoot ((samePage_low hl hv).2 he), ha] at hno
      rcases hno with hno | hno <;> cases hno
    · rw [update_of_ne he] at hno
      rw [hth v hl he]
      exact hs.unmapped v hl hno
  · by_cases he : v.toNat / 4096 = vd.toNat / 4096
    · rw [he, update_self] at hdo
      cases hdo
      rw [getMapping_congr _ h.sourceRoot ((samePage_low hl hv).2 he), ha] at ha'
      obtain rfl := (Prod.mk.inj (Option.some.inj ha')).1
      refine ⟨p, hh v hl he, hf0, ?_, fun k hk => ?_⟩
      · rw [hp]
        refine hma.used ?_
        show pmm.used p = true
        rw [hu, decide_eq_true rfl, Bool.or_true]
      · -- the frame of the parent is not free, so no copy went there before
        have hso : (a + k) / pageSize = a / pageSize := by
          have := getMapping_aligned h.sourceRoot ha
          rw [hpageSize] at this hk ⊢
          omega
        rw [hby, copyPage, if_pos (by omega), Nat.add_sub_cancel_left]
        exact hs.bytes (a + k) (hso ▸ h.frames vd a w u ha)
    · rw [update_of_ne he] at hdo
      obtain ⟨frame, hf', hfe', hb, hc⟩ := hs.copied v hl f' hdo a' w' u' ha'
      refine ⟨frame, (hth v hl he).trans hf', hfe', ?_, fun k hk => ?_⟩
      · rw [hp]
        exact hma.used (hmo frame hb)
      · rw [hke _ fun hxp => ?_, hc k hk]
        have hdiv : (frame * pageSize + k) / pageSize = frame := by
          rw [hpageSize] at hk ⊢
          omega
        rw [← hxp, hdiv, hb] at hf
        cases hf
  by_cases hpg : v.toNat / 4096 = vd.toNat / 4096
  · by_cases hp' : v'.toNat / 4096 = vd.toNat / 4096
    · omega
    · rw [hh v hl hpg] at hm
      rw [hth v' hl' hp'] at hm'
      cases hm
      exact absurd he.symm (hfm v' m' hl' hm')
  rw [hth v hl hpg] at hm
  by_cases hp' : v'.toNat / 4096 = vd.toNat / 4096
  · rw [hh v' hl' hp'] at hm'
    cases hm'
    exact absurd he (hfm v m hl hm)
  rw [hth v' hl' hp'] at hm'
  exact hs.distinct v v' m m' hl hl' hm hm' he

lemma Cloning.clonePage {v : UInt64} (hv : v.toNat < userLimit) (f : RegionFlags) (i : ℕ) :
    ∃ ok s', s.clonePage sr f i v = some (ok, s') ∧ (ok = true →
        Cloning s₀ s' sr (Function.update done (v.toNat / 4096) (some f)) ∧
        s'.regions.length = s.regions.length) ∧
      (Small s.paging s.root → ∀ n, Enough s.paging (n + 4) →
        ok = true ∧ Small s'.paging s'.root ∧ Enough s'.paging n) := by
  unfold Space.clonePage
  rw [hs.parent h]
  cases ha : s₀.paging.getMapping sr v with
  | none =>
    exact ⟨true, s, rfl, fun _ => ⟨hs.pass h hv ha f, rfl⟩, fun hsm n hn =>
      ⟨rfl, hsm, hn.1, Nat.le_trans (Nat.le_add_right n 4) hn.2⟩⟩
  | some m =>
    obtain ⟨a, w, u⟩ := m
    obtain ⟨page, pmm, hal, hlt, hfr, hu⟩ | ⟨hfu, hal⟩ := s.paging.pmm.pmmAllocPages_one
    · rw [hal]
      dsimp only
      have hmo : ∀ t, s.paging.pmm.used t = true → pmm.used t = true := fun t ht => by
        rw [hu, ht]
        rfl
      by_cases hz : page * pageSize = 0
      · rw [if_pos hz]
        refine ⟨false, _, rfl, fun hf => absurd hf Bool.false_ne_true, fun _ n hn => ?_⟩
        obtain rfl : page = 0 := (Nat.mul_eq_zero.1 hz).resolve_right (by decide)
        rw [hn.1] at hfr
        cases hfr
      · rw [if_neg hz]
        have hgr := lowGrowth_alloc hs.growth.tree hmo
        obtain ⟨ok, paging, hmap, hma, hgw, he⟩ : ∃ ok s',
            { s.paging with pmm := pmm }.mapPageInRoot s₀.root v (page * pageSize).toUInt64
              f.write f.user = some (ok, s') ∧ _ :=
          mapPageInRoot_low hgr.tree (pml4Index_low hv)
        have hm' := hmap
        rw [← hs.root] at hm'
        rw [hm']
        have hp : ∀ n, Enough s.paging (n + 4) → Enough { s.paging with pmm := pmm } (n + 3) :=
          fun n hn => ⟨hmo 0 hn.1, card_clearPages_mark hu hn.2⟩
        have hag : (page * pageSize).toUInt64.toNat % pageSize = 0 := by
          rw [(toNat_pageAddress hlt).1]
          exact mul_mod_left _ _
        cases ok with
        | false =>
          obtain ⟨s', hs'⟩ := freePage_of_lt { s with
            paging := paging, bytes := copyPage s.bytes (page * pageSize) a } hlt
          refine ⟨false, s', by dsimp only; rw [hs']; rfl, fun hf => absurd hf Bool.false_ne_true,
            fun hsm n hn => ?_⟩
          rw [hs.root] at hsm
          exact absurd (he (hgr.small hsm) h.root hag n (hp n hn)).1 Bool.false_ne_true
        | true =>
          refine ⟨true, _, rfl, fun _ => ⟨?_, length_modify _ _ _⟩, fun hsm n hn => ?_⟩
          · exact hs.copy h hv ha hlt hfr hu hma hgw rfl rfl rfl
          · rw [hs.root] at hsm
            refine ⟨rfl, ?_, (he (hgr.small hsm) h.root hag n (hp n hn)).2⟩
            show Small paging s.root
            rw [hs.root]
            exact hgw.small (hgr.small hsm)
    rw [hal]
    refine ⟨false, _, rfl, fun hf => absurd hf Bool.false_ne_true, fun _ n hn => ?_⟩
    have hem : s.paging.pmm.clearPages = ∅ := filter_eq_empty_iff.2 fun page hpa => by
      rw [hfu page (Finset.mem_range.1 hpa)]
      decide
    have := hn.2
    rw [hem] at this
    exact absurd this (by simp)

/-! ## A region -/

/-- The loop over the pages `first + page`, …: every page is copied, and four free pages for each
are enough. -/
lemma Cloning.clonePages (f : RegionFlags) (i : ℕ) {st : UInt64} {first : ℕ}
    (hst : st.toNat = first * 4096) {pg left : ℕ} (hend : (first + pg + left) * 4096 ≤ userLimit) :
    ∃ ok s', clonePages sr f i st pg left s = some (ok, s') ∧
      (ok = true → Cloning s₀ s' sr (fun p =>
          if first + pg ≤ p ∧ p < first + pg + left then some f else done p) ∧
        s'.regions.length = s.regions.length) ∧
      (Small s.paging s.root → ∀ n, Enough s.paging (n + 4 * left) →
        ok = true ∧ Small s'.paging s'.root ∧ Enough s'.paging n) := by
  induction left generalizing s pg done with
  | zero =>
    refine ⟨true, s, rfl, fun _ => ⟨?_, rfl⟩, fun hsm n hn => ⟨rfl, hsm, hn⟩⟩
    have hsa : (fun p => if first + pg ≤ p ∧ p < first + pg + 0 then some f else done p) =
        done := funext fun p => if_neg (by omega)
    rw [hsa]
    exact hs
  | succ left ih =>
    have : userLimit = 2 ^ 47 := by decide
    have : (pageAt st pg).toNat = (first + pg) * 4096 := by
      rw [toNat_pageAt (by omega), hst]
      omega
    obtain ⟨ok, s1, hr, hc, he⟩ := hs.clonePage h
      (show (pageAt st pg).toNat < userLimit by omega) f i
    rw [clonePages, hr, bind_some]
    cases ok with
    | false =>
      refine ⟨false, s1, rfl, fun hf => absurd hf Bool.false_ne_true, fun hsm n hn => ?_⟩
      exact absurd (he hsm (n + 4 * left) hn).1 Bool.false_ne_true
    | true =>
      obtain ⟨hs1, hle⟩ := hc rfl
      have he' : (first + (pg + 1) + left) * 4096 ≤ userLimit := by
        rw [show first + (pg + 1) + left = first + pg + (left + 1) by omega]
        exact hend
      obtain ⟨ok, s', hr', hc', hen'⟩ := ih hs1 he'
      refine ⟨ok, s', hr', fun hok => ?_, fun hsm n hn => ?_⟩
      · obtain ⟨hs', hl'⟩ := hc' hok
        have hp : (pageAt st pg).toNat / 4096 = first + pg := by omega
        rw [hp] at hs'
        have hsa : (fun p => if first + pg ≤ p ∧ p < first + pg + (left + 1) then some f
            else done p) = fun p => if first + (pg + 1) ≤ p ∧ p < first + (pg + 1) + left then
              some f else Function.update done (first + pg) (some f) p := by
          funext p
          by_cases heq : p = first + pg
          · rw [if_pos (by omega), if_neg (by omega), heq, update_self]
          · rw [update_of_ne heq]
            exact if_congr (by omega) rfl rfl
        rw [hsa]
        exact ⟨hs', hl'.trans hle⟩
      obtain ⟨-, hsm1, hn1⟩ := he hsm (n + 4 * left) hn
      exact hen' hsm1 n hn1
end
end Space

namespace Region
/-- The pages of the committed part of the region are copied for it. -/
def cover (r : Region) (done : ℕ → Option RegionFlags) : ℕ → Option RegionFlags :=
  if r.type = .shared then done
  else fun p => if r.firstPage ≤ p ∧ p < r.endPage then some r.flags else done p

lemma cover_apply (r : Region) (done : ℕ → Option RegionFlags) (p : ℕ) : r.cover done p =
    if r.type ≠ .shared ∧ r.firstPage ≤ p ∧ p < r.endPage then some r.flags else done p := by
  unfold cover
  by_cases ht : r.type = .shared
  · rw [if_pos ht, if_neg fun h => h.1 ht]
  rw [if_neg ht]
  exact if_congr (by simp [ht]) rfl rfl

variable {r : Region} (h : r.Formed)
include h
lemma Formed.toNat_limit : r.limit.toNat = r.base.toNat + r.length.toNat := by
  have : userLimit = 2 ^ 47 := by decide
  have := h.low
  rw [limit, UInt64.toNat_add, mod_eq_of_lt (by omega)]

lemma Formed.holds_iff (v : UInt64) :
    r.holds v = true ↔ r.base.toNat ≤ v.toNat ∧ v.toNat < r.base.toNat + r.length.toNat := by
  rw [holds, decide_eq_true_iff, UInt64.le_iff_toNat_le, UInt64.lt_iff_toNat_lt, h.toNat_limit]

lemma Formed.toNat_cloneEnd : (cloneEnd r).toNat = r.endPage * 4096 := by
  have : userLimit = 2 ^ 47 := by decide
  have := h.low
  have := h.top
  have hz : (r.committedTop % 4096 = 0) ↔ r.committedTop.toNat % 4096 = 0 := by
    rw [← toNat_mod_page]
    exact ⟨fun he => by rw [he]; rfl, fun he => UInt64.toNat_inj.1 he⟩
  rw [cloneEnd, endPage]
  split_ifs with ha
  · have h4095 : (4095 : UInt64).toNat = 4095 := rfl
    rw [toNat_pageAlignDown, UInt64.toNat_add, h4095, mod_eq_of_lt (by omega)]
  rw [not_not, hz] at ha
  omega

lemma Formed.exists_holds {p : ℕ} (hf : r.firstPage ≤ p) (he : p < r.endPage) :
    ∃ v, v.toNat / 4096 = p ∧ r.holds v = true := by
  have : userLimit = 2 ^ 47 := by decide
  have := h.low
  have hb := h.base
  have := h.order
  have := h.top
  have := h.nonempty
  rw [firstPage] at hf
  rw [endPage] at he
  have hin : ∀ x, r.base.toNat ≤ x → x < r.base.toNat + r.length.toNat → x / 4096 = p →
      ∃ v, v.toNat / 4096 = p ∧ r.holds v = true := by
    intro x hge hlt hp
    have hx : (UInt64.ofNat x).toNat = x := by
      rw [UInt64.toNat_ofNat']
      omega
    exact ⟨UInt64.ofNat x, by rw [hx]; exact hp, (h.holds_iff _).2 (by rw [hx]; exact ⟨hge, hlt⟩)⟩
  by_cases hst : p * 4096 ≤ r.committedBase.toNat
  · by_cases hl : r.committedBase.toNat < r.base.toNat + r.length.toNat
    · exact hin r.committedBase.toNat hb hl (by omega)
    · -- nothing is committed at the end of a region that does not end at a page
      exact hin (r.committedBase.toNat - 1) (by omega) (by omega) (by omega)
  · exact hin (p * 4096) (by omega) (by omega) (by omega)
end Region

namespace Space
section
variable {s₀ s s' : Space} {so : ℕ} {regions : List Region} {done : ℕ → Option RegionFlags}
/-- `clone_region`. -/
lemma Cloning.cloneRegion (hs : Cloning s₀ s so done) (h : Forkable s₀ so regions)
    {r : Region} (hr : r.type ≠ .shared → r.Formed) : ∃ ok s', s.cloneRegion so r = some (ok, s') ∧
      (ok = true → Cloning s₀ s' so (r.cover done) ∧ s'.regions.length ≤ s.regions.length + 1) ∧
      (s.regions.length < procMaxVmRegions → Small s.paging s.root →
        ∀ n, Enough s.paging (n + 4 * (r.endPage - r.firstPage)) →
          ok = true ∧ Small s'.paging s'.root ∧ Enough s'.paging n) := by
  rw [Space.cloneRegion]
  by_cases hsh : r.type = .shared
  · rw [if_pos hsh]
    refine ⟨true, s, rfl, fun _ => ⟨?_, le_succ _⟩, fun _ hsm n hn => ⟨rfl, hsm, hn.1,
      Nat.le_trans (Nat.le_add_right n _) hn.2⟩⟩
    rw [Region.cover, if_pos hsh]
    exact hs
  rw [if_neg hsh]
  have hfo := hr hsh
  have hl : r.length ≠ 0 := fun hz => by
    have := hfo.nonempty
    rw [hz] at this
    exact absurd this (by decide)
  by_cases hfu : procMaxVmRegions ≤ s.regions.length
  · rw [vmRegionAdd, if_pos (.inr hfu)]
    exact ⟨false, s, rfl, fun hf => absurd hf Bool.false_ne_true, fun hro =>
      absurd hro (Nat.not_lt.2 hfu)⟩
  have hadd : vmRegionAdd s.regions r.base r.length r.type r.flags = some (s.regions ++
      [{ base := r.base, length := r.length, type := r.type, flags := r.flags
         committedBase := if r.flags.growDown then r.base + r.length else r.base
         committedTop := if r.flags.growDown then r.base + r.length else r.base }]) := by
    rw [vmRegionAdd, if_neg (not_or.2 ⟨hl, hfu⟩)]
  rw [hadd]
  dsimp only
  generalize hnew : s.regions ++ _ = added
  have ha : added.length = s.regions.length + 1 := by
    rw [← hnew, length_append]
    rfl
  have hs1 : Cloning s₀ { s with regions := added } so done := hs.congr rfl rfl rfl rfl
  obtain ⟨index, hfi⟩ : ∃ index, vmRegionFind added r.base = some index := by
    rw [← isSome_iff_exists, vmRegionFind, List.findIdx?_isSome, List.any_eq_true]
    refine ⟨_, hnew ▸ mem_append_right _ (List.mem_singleton_self _), ?_⟩
    exact (hfo.holds_iff r.base).2 ⟨Nat.le_refl _, Nat.lt_add_of_pos_right hfo.nonempty⟩
  rw [hfi]
  dsimp only
  have hst : (pageAlignDown r.committedBase).toNat = r.firstPage * 4096 :=
    toNat_pageAlignDown r.committedBase
  have hc : r.cover done = fun p =>
      if r.firstPage ≤ p ∧ p < r.endPage then some r.flags else done p := by
    rw [Region.cover, if_neg hsh]
  by_cases he : cloneEnd r ≤ pageAlignDown r.committedBase
  · rw [if_pos he]
    rw [UInt64.le_iff_toNat_le, hfo.toNat_cloneEnd, hst] at he
    refine ⟨true, _, rfl, fun _ => ⟨?_, ha.le⟩, fun _ hsm n hn => ⟨rfl, hsm, hn.1,
      Nat.le_trans (Nat.le_add_right n _) hn.2⟩⟩
    have hsa : r.cover done = done := by
      rw [hc]
      exact funext fun p => if_neg (by omega)
    rw [hsa]
    exact hs1
  rw [if_neg he]
  rw [UInt64.le_iff_toNat_le, hfo.toNat_cloneEnd, hst] at he
  have hcnt : ((cloneEnd r - pageAlignDown r.committedBase) / 4096).toNat =
      r.endPage - r.firstPage := by
    have hle : pageAlignDown r.committedBase ≤ cloneEnd r := by
      rw [UInt64.le_iff_toNat_le, hfo.toNat_cloneEnd, hst]
      omega
    rw [UInt64.toNat_div, UInt64.toNat_sub_of_le _ _ hle, hfo.toNat_cloneEnd, hst, ← Nat.sub_mul]
    exact Nat.mul_div_cancel _ (by decide)
  have hend : (r.firstPage + 0 + (r.endPage - r.firstPage)) * 4096 ≤ userLimit := by
    have hlow := hfo.low
    have ht := hfo.top
    have hli : userLimit = 34359738368 * 4096 := by decide
    rw [Region.endPage] at he ⊢
    omega
  obtain ⟨ok, s2, hrun, hcp, hen⟩ := hs1.clonePages h r.flags index hst hend
  rw [hcnt, hrun]
  refine ⟨ok, _, rfl, fun hok => ?_, fun _ hsm n hn => ?_⟩
  · subst hok
    obtain ⟨hs2, hl2⟩ := hcp rfl
    have hsa : r.cover done = fun p => if r.firstPage + 0 ≤ p ∧
        p < r.firstPage + 0 + (r.endPage - r.firstPage) then some r.flags else done p := by
      rw [hc]
      exact funext fun p => if_congr (by omega) rfl rfl
    rw [hsa]
    refine ⟨hs2.congr rfl rfl rfl rfl, ?_⟩
    show (s2.regions.modify index _).length ≤ _
    rw [length_modify, hl2]
    exact ha.le
  obtain ⟨hok, hs', hn'⟩ := hen hsm n hn
  subst hok
  exact ⟨rfl, hs', hn'⟩

/-! ## All regions -/

/-- What was copied after a list of regions. -/
def coverAll (regions : List Region) (done : ℕ → Option RegionFlags) : ℕ → Option RegionFlags :=
  regions.foldl (fun done r => r.cover done) done

/-- The pages that may have to be copied. -/
def clonedPages (regions : List Region) : ℕ := (regions.map fun r => r.endPage - r.firstPage).sum

variable {rs : List Region}
/-- `vm_clone`. -/
lemma Cloning.vmClone (hs : Cloning s₀ s so done) (h : Forkable s₀ so regions)
    (hre : ∀ r ∈ rs, r.type ≠ .shared → r.Formed) : ∃ ok s', vmClone so rs s = some (ok, s') ∧
      (ok = true → Cloning s₀ s' so (coverAll rs done)) ∧
      (s.regions.length + rs.length ≤ procMaxVmRegions → Small s.paging s.root →
        Enough s.paging (4 * clonedPages rs) → ok = true) := by
  induction rs generalizing s done with
  | nil => exact ⟨true, s, rfl, fun _ => hs, fun _ _ _ => rfl⟩
  | cons r rs ih =>
    obtain ⟨ok, s1, hrun, hc, he⟩ := hs.cloneRegion h (hre r (List.mem_cons_self ..))
    rw [vmClone, hrun, bind_some]
    have hp : 4 * clonedPages (r :: rs) = 4 * clonedPages rs + 4 * (r.endPage - r.firstPage) := by
      rw [clonedPages, List.map_cons, List.sum_cons, ← clonedPages]
      omega
    cases ok with
    | false =>
      refine ⟨false, s1, rfl, fun hf => absurd hf Bool.false_ne_true, fun hr hsm hn => ?_⟩
      rw [length_cons] at hr
      rw [hp] at hn
      exact (he (by omega) hsm _ hn).1
    | true =>
      obtain ⟨hs1, hle⟩ := hc rfl
      obtain ⟨ok, s', hru', hc', he'⟩ := ih hs1 fun r' hr' => hre r' (List.mem_cons_of_mem _ hr')
      refine ⟨ok, s', hru', hc', fun hr hsm hn => ?_⟩
      rw [length_cons] at hr
      rw [hp] at hn
      obtain ⟨-, hsm1, hn1⟩ := he (by omega) hsm _ hn
      exact he' (by omega) hsm1 hn1

lemma coverAll_some {p : ℕ} {f : RegionFlags} (h : coverAll rs done p = some f) :
    (∃ before r after, rs = before ++ r :: after ∧ r.type ≠ .shared ∧
      (r.firstPage ≤ p ∧ p < r.endPage) ∧ r.flags = f ∧
      ∀ r' ∈ after, r'.type ≠ .shared → ¬ (r'.firstPage ≤ p ∧ p < r'.endPage)) ∨ done p = some f ∧
      ∀ r ∈ rs, r.type ≠ .shared → ¬ (r.firstPage ≤ p ∧ p < r.endPage) := by
  induction rs generalizing done with
  | nil => exact .inr ⟨h, fun r hr => absurd hr not_mem_nil⟩
  | cons r rs ih =>
    rcases ih h with ⟨before, r', after, rfl, hr'⟩ | ⟨hdo, hno⟩
    · exact .inl ⟨r :: before, r', after, rfl, hr'⟩
    change r.cover done p = some f at hdo
    rw [Region.cover_apply] at hdo
    by_cases hin : r.type ≠ .shared ∧ r.firstPage ≤ p ∧ p < r.endPage
    · rw [if_pos hin] at hdo
      exact .inl ⟨[], r, rs, rfl, hin.1, hin.2, Option.some.inj hdo, hno⟩
    rw [if_neg hin] at hdo
    refine .inr ⟨hdo, fun r' hr' ht hp => ?_⟩
    rcases List.mem_cons.1 hr' with rfl | hr'
    · exact hin ⟨ht, hp⟩
    · exact hno r' hr' ht hp

lemma coverAll_ne_none {r : Region} (hr : r ∈ rs) (ht : r.type ≠ .shared)
    {p : ℕ} (hp : r.firstPage ≤ p ∧ p < r.endPage) : coverAll rs done p ≠ none := by
  have hk : ∀ (rs : List Region) (done : ℕ → Option RegionFlags), done p ≠ none →
      coverAll rs done p ≠ none := by
    intro rs
    induction rs with
    | nil => exact fun _ hdo => hdo
    | cons r rs ih =>
      refine fun done hdo => ih _ ?_
      show r.cover done p ≠ none
      rw [Region.cover_apply]
      split_ifs
      · exact some_ne_none _
      · exact hdo
  obtain ⟨before, after, rfl⟩ := append_of_mem hr
  rw [coverAll, foldl_append, foldl_cons]
  refine hk after _ ?_
  rw [Region.cover_apply, if_pos ⟨ht, hp⟩]
  exact some_ne_none _

lemma Cloning.finished (hs : Cloning s s' so (coverAll regions fun _ => none))
    (h : Forkable s so regions) : Copied s s' so regions := by
  have hre : ∀ r ∈ regions, r.type ≠ .shared → ∀ v : UInt64,
      r.firstPage ≤ v.toNat / 4096 ∧ v.toNat / 4096 < r.endPage → r.Reaches v :=
    fun r hr ht v hp => (h.formed r hr ht).exists_holds hp.1 hp.2
  -- a region that reaches into a page of the parent has it in its committed part
  have hc : ∀ r ∈ regions, r.type ≠ .shared → ∀ v : UInt64,
      s.paging.getMapping so v ≠ none → r.Reaches v →
      r.firstPage ≤ v.toNat / 4096 ∧ v.toNat / 4096 < r.endPage := by
    rintro r hr ht v hma ⟨v', hpa, hh⟩
    rw [← hpa]
    refine h.committed r hr ht v' hh ?_
    rw [getMapping_congr _ h.sourceRoot (.of_div hpa)]
    exact hma
  refine ⟨fun r hr ht v hh a w u ha => ?_, hs.distinct, fun v hv hm => ?_, hs.parent h,
    fun v a w u ha k hk => ?_⟩
  · have hma : s.paging.getMapping so v ≠ none := by
      rw [ha]
      exact some_ne_none _
    have hlow : v.toNat < userLimit := by
      have hfo := h.formed r hr ht
      exact Nat.lt_of_lt_of_le ((hfo.holds_iff v).1 hh).2 hfo.low
    have hcv : coverAll regions (fun _ => none) (v.toNat / 4096) ≠ none :=
      coverAll_ne_none hr ht (h.committed r hr ht v hh hma)
    obtain ⟨flags, hf⟩ := ne_none_iff_exists'.1 hcv
    obtain ⟨before, last, after, hsp, hl, hp, rfl, haf⟩ | ⟨hdo, -⟩ := coverAll_some hf
    · obtain ⟨frame, hfr, hfe, -, hcn⟩ := hs.copied v hlow _ hf a w u ha
      have hmem : last ∈ regions := hsp ▸ mem_append_right _ (List.mem_cons_self ..)
      refine ⟨last, frame, ⟨before, after, hsp, hl, hre last hmem hl v hp,
        fun r' hr' ht' hrc => ?_⟩, hfr, hfe, hcn⟩
      have hm' : r' ∈ regions := hsp ▸ mem_append_right _ (List.mem_cons_of_mem _ hr')
      exact haf r' hr' ht' (hc r' hm' ht' v hma hrc)
    · cases hdo
  · have hso : s.paging.getMapping so v ≠ none := fun hno => hm (hs.unmapped v hv (.inr hno))
    obtain ⟨flags, hf⟩ := ne_none_iff_exists'.1 fun hno => hm (hs.unmapped v hv (.inl hno))
    obtain ⟨before, last, after, hsp, hl, hp, -⟩ | ⟨hdo, -⟩ := coverAll_some hf
    · have hmem : last ∈ regions := hsp ▸ mem_append_right _ (List.mem_cons_self ..)
      exact ⟨hso, last, hmem, hl, hre last hmem hl v hp⟩
    · cases hdo
  have hal := getMapping_aligned h.sourceRoot ha
  have hpa : (a + k) / pageSize = a / pageSize := by
    have hpageSize : pageSize = 4096 := rfl
    rw [hpageSize] at hal hk ⊢
    omega
  exact hs.bytes (a + k) (hpa ▸ h.frames v a w u ha)
end

/-- `vm_clone` copies the memory of a process: the child maps a copy of every page of the parent
that lies in a region other than shared memory, with the write permission of the last of the
regions that reach into the page, and nothing else, and the parent keeps its memory. -/
theorem vm_clone_copies {s s' : Space} {source : ℕ} {regions : List Region}
    (h : s.Forkable source regions) (hclone : vmClone source regions s = some (true, s')) :
    Copied s s' source regions := by
  obtain ⟨ok, s1, hr, hc, -⟩ := h.cloning.vmClone h h.formed
  cases hr.symm.trans hclone
  exact (hc rfl).finished h

/-! ## Two regions in one page -/

/-- Page 1 is the root of the parent, which maps page 6 at address 0; page 5 is the empty root of
the child; pages from 8 on are free. -/
def twoRoots : Paging :=
  { fourTables 0 (pageEntry 6) with
    pmm := { Pmm.pageBitmapInitialize with pageBitmap := fun word => if word = 0 then 0xff else 0 } }

/-- The child. -/
def newChild : Space where
  paging := twoRoots
  bytes := fun _ => 0
  writeProtect := true
  kernelRoot := 5
  root := 5
  regions := []
  segments := []

/-- Code in the first half of page 0, and data in the second. -/
def codeAndData : List Region :=
  [⟨0, 0x800, .text, ⟨true, false, true, true, false, false⟩, 0, 0x800⟩,
    ⟨0x800, 0x800, .data, ⟨true, true, false, true, false, false⟩, 0x800, 0x1000⟩]

lemma used_twoRoots {t : ℕ} (h : t < 8) : twoRoots.pmm.used t = true := by
  have : ∀ t : Fin 8, twoRoots.pmm.used t = true := by decide
  exact this ⟨t, h⟩

lemma tree_twoRoots : Tree twoRoots 1 := by
  refine (tree_fourTables 0 (pageEntry 6)).congr (fun _ _ => rfl) fun t ht => used_twoRoots ?_
  by_contra hge
  exact not_isTable_fourTables (by omega) ht

lemma tableAt_newChild {p : List (Fin 512)} {t : ℕ} (h : twoRoots.tableAt 5 p = some t) :
    p = [] ∧ t = 5 := by
  cases p with
  | nil => exact ⟨rfl, (Option.some.inj h).symm⟩
  | cons i p =>
    obtain ⟨u, hu, -⟩ := bind_eq_some_iff.1 h
    obtain ⟨-, rfl, hle⟩ := next_fourTables (by decide) hu
    omega

lemma getMapping_twoRoots {v : UInt64} {a : ℕ} {w u : Bool}
    (h : twoRoots.getMapping 1 v = some (a, w, u)) : a / pageSize = 6 := by
  obtain ⟨p, hpt, hp, rfl⟩ := exists_entry_of_getMapping (by decide) h
  obtain ⟨hpa, -, hle⟩ := descend_fourTables (pathOf v) 0 1 p (by simp [length_pathOf]) hpt
  obtain rfl : p = 4 := by
    have := congrArg List.length hpa
    rw [length_pathOf, length_fourPath] at this
    omega
  by_cases hi : ptIndex v = 0
  · rw [hi]
    decide
  rw [show twoRoots.mem 4 (ptIndex v) = TableEntry.zero from if_neg hi] at hp
  cases hp

lemma forkable_newChild : newChild.Forkable 1 codeAndData where
  root := by decide
  child := by
    refine ⟨fun p t _ ht => ?_, fun p p' t _ _ ht ht' => ?_⟩
    · obtain ⟨-, rfl⟩ := tableAt_newChild ht
      exact ⟨by rw [pageLimit_eq]; decide, used_twoRoots (by decide)⟩
    · rw [(tableAt_newChild ht).1, (tableAt_newChild ht').1]
  empty v _ := by
    show twoRoots.getMapping 5 v = none
    rw [getMapping_eq_mappingOf _ (by decide)]
    cases hp : twoRoots.tableAt 5 (pathOf v) with
    | none => rfl
    | some pt => exact absurd (tableAt_newChild hp).1 (cons_ne_nil _ _)
  sourceRoot := by decide
  parent := tree_twoRoots
  apart t ht := by
    rintro ⟨p, -, -, hpa⟩
    obtain ⟨-, rfl⟩ := tableAt_newChild hpa
    exact not_isTable_fourTables (by decide) ht
  frames v a w u ha hf := by
    rw [getMapping_twoRoots ha] at hf
    have hu := used_twoRoots (show 6 < 8 by decide)
    rw [show twoRoots.pmm.used 6 = false from hf.2] at hu
    cases hu
  formed r hr _ := by
    rcases List.mem_cons.1 hr with rfl | hr
    · constructor <;> decide
    obtain rfl := List.mem_singleton.1 hr
    constructor <;> decide
  committed r hr _ v hh _ := by
    have hpg : v.toNat / 4096 = 0 := by
      rcases List.mem_cons.1 hr with rfl | hr
      · have := UInt64.lt_iff_toNat_lt.1 (of_decide_eq_true hh).2
        have : v.toNat < 0x800 := this
        omega
      obtain rfl := List.mem_singleton.1 hr
      have := UInt64.lt_iff_toNat_lt.1 (of_decide_eq_true hh).2
      have : v.toNat < 0x1000 := this
      omega
    rw [hpg]
    rcases List.mem_cons.1 hr with rfl | hr
    · decide
    obtain rfl := List.mem_singleton.1 hr
    decide

lemma vmClone_newChild : ∃ s', vmClone 1 codeAndData newChild = some (true, s') ∧
    Cloning newChild s' 1 (coverAll codeAndData fun _ => none) := by
  obtain ⟨ok, s', hr, hc, he⟩ :=
    forkable_newChild.cloning.vmClone forkable_newChild forkable_newChild.formed
  have hsm : Small newChild.paging newChild.root := by
    rintro t ⟨p, -, -, hp⟩ i
    obtain ⟨-, rfl⟩ := tableAt_newChild hp
    show (if i = 0 then TableEntry.zero else TableEntry.zero).largePage = false
    split_ifs <;> rfl
  have hf : Enough newChild.paging (4 * clonedPages codeAndData) := by
    refine ⟨used_twoRoots (by decide), ?_⟩
    have hsub : Finset.Ico 8 16 ⊆ newChild.paging.pmm.clearPages := by
      intro t ht
      rw [mem_Ico] at ht
      refine Finset.mem_filter.2 ⟨Finset.mem_range.2 (by rw [pageLimit_eq]; omega), ?_⟩
      have hcr : ∀ t : Fin 8, twoRoots.pmm.used (8 + t) = false := by decide
      have := hcr ⟨t - 8, by omega⟩
      rwa [show 8 + (t - 8) = t by omega] at this
    exact card_le_card hsub
  obtain rfl := he (by decide) hsm hf
  exact ⟨s', hr, hc rfl⟩

theorem vm_clone_copies_two_regions : ∃ s', vmClone 1 codeAndData newChild = some (true, s') ∧
    newChild.Forkable 1 codeAndData ∧ Copied newChild s' 1 codeAndData := by
  obtain ⟨s', hr, -⟩ := vmClone_newChild
  exact ⟨s', hr, forkable_newChild, vm_clone_copies forkable_newChild hr⟩

/-- Code and data share a page, and no address. The child may write to the page with the code. -/
theorem clone_page_of_two_regions : ∃ code data s', codeAndData = [code, data] ∧
    newChild.Forkable 1 codeAndData ∧
    (∀ v, ¬ (code.holds v = true ∧ data.holds v = true)) ∧
    vmClone 1 codeAndData newChild = some (true, s') ∧
    code.holds 0 = true ∧ newChild.paging.getMapping 1 0 ≠ none ∧ code.flags.write = false ∧
    ∃ frame, s'.mapping 0 = some (frame * pageSize, true, true) := by
  obtain ⟨s', hr, hc⟩ := vmClone_newChild
  have hma : newChild.paging.getMapping 1 0 = some (6 * pageSize, false, false) := by
    have hp : newChild.paging.tableAt 1 (pathOf 0) = some 4 :=
      pathOf_zero ▸ (tableAt_fourTables 0 (pageEntry 6)).2.2
    rw [getMapping_eq_mappingOf _ (by decide), hp]
    rfl
  obtain ⟨frame, hf, -⟩ := hc.copied 0 (by decide) _ rfl _ _ _ hma
  refine ⟨_, _, s', rfl, forkable_newChild, fun v hb => ?_, hr, by decide,
    hma ▸ some_ne_none _, rfl, frame, hf⟩
  have hco := UInt64.lt_iff_toNat_lt.1 (of_decide_eq_true hb.1).2
  have hda := UInt64.le_iff_toNat_le.1 (of_decide_eq_true hb.2).1
  exact absurd (Nat.lt_of_le_of_lt hda hco) (by decide)
end Space
end Menios.User
