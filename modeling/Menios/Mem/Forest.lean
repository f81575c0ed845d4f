import Menios.Mem.KernelHalf

/-!
# Many address spaces

The address spaces of the processes share the tables of the kernel half and have tables of
their own for the lower half. This module says what mapping and unmapping a page of the lower
half in one of them does to all of them.

Results:

* `LowStep`: a change of the lower half of one root; `mapPageInRoot_low`: mapping a page is such
  a change, and succeeds when three pages are free.
* `LowStep.getMapping_other`: roots with other tables do not see it.
-/

namespace Menios.Mem.Paging
open Common Finset

/-! ## The lower half of a root -/

/-- The path leads into the lower half. -/
def LowPath (path : List (Fin 512)) : Prop := ∀ i, path.head? = some i → i.val < 256

/-- Page `t` is a table of the lower half of the root, or the root itself. -/
def LowTable (s : Paging) (root t : ℕ) : Prop :=
  ∃ path, path.length ≤ 3 ∧ LowPath path ∧ s.tableAt root path = some t

lemma lowPath_cons {i : Fin 512} (h : i.val < 256) (pt : List (Fin 512)) : LowPath (i :: pt) := by
  intro j hj
  obtain rfl : i = j := by simpa using hj
  exact h

lemma LowTable.isTable {s : Paging} {root t : ℕ} (h : LowTable s root t) : IsTable s root t :=
  h.imp fun _ hp => ⟨hp.1, hp.2.2⟩

/-- The tables of the lower half of the root changed, or pages that were not in use. -/
structure LowStep (s s' : Paging) (root : ℕ) : Prop where
  tree : Tree s' root
  still : ∀ t i, s.pmm.used t = true → (¬ LowTable s root t ∨ t = root ∧ 256 ≤ i.val) →
    s'.mem t i = s.mem t i
  tables : ∀ t, LowTable s' root t →
    LowTable s root t ∨ s.pmm.used t = false ∧ ∀ i, (s'.mem t i).largePage = false
  large : ∀ t i, LowTable s root t → (s'.mem t i).largePage = (s.mem t i).largePage

section
variable {s s' s'' : Paging} {r : ℕ}
lemma LowStep.refl (h : Tree s r) : LowStep s s r :=
  ⟨h, fun _ _ _ _ => rfl, fun _ ht => .inl ht, fun _ _ _ => rfl⟩

lemma LowStep.trans (h : LowStep s s' r) (h' : LowStep s' s'' r)
    (hu : ∀ t, s.pmm.used t = true → s'.pmm.used t = true)
    (hlow : ∀ t, LowTable s r t → LowTable s' r t) : LowStep s s'' r where
  tree := h'.tree
  still t i ht hsi := by
    rw [h'.still t i (hu t ht), h.still t i ht hsi]
    refine hsi.imp_left fun hnot hl' => ?_
    rcases h.tables t hl' with hold | ⟨hf, -⟩
    · exact hnot hold
    rw [ht] at hf
    cases hf
  tables t ht := by
    rcases h'.tables t ht with hmid | ⟨hf, hl⟩
    · rcases h.tables t hmid with hold | ⟨hf, hl⟩
      · exact .inl hold
      · exact .inr ⟨hf, fun i => by rw [h'.large t i hmid, hl i]⟩
    refine .inr ⟨?_, hl⟩
    by_contra hne
    rw [Bool.not_eq_false] at hne
    rw [hu t hne] at hf
    cases hf
  large t i ht := by rw [h'.large t i (hlow t ht), h.large t i ht]

/-- A root whose tables are not tables of the lower half that changes keeps its mappings. -/
theorem LowStep.getMapping_other {o : ℕ} (hst : LowStep s s' r) (h : Tree s o)
    (hot : o ≠ 0) (ha : ∀ t, IsTable s o t → ¬ LowTable s r t) (vd : UInt64) :
    s'.getMapping o vd = s.getMapping o vd := by
  have hmem : ∀ pa t, pa.length ≤ 3 → s.tableAt o pa = some t →
      ∀ i, s'.mem t i = s.mem t i := fun pa t hl ht i =>
    hst.still t i (h.used pa t hl ht).2 (.inl (ha t ⟨pa, hl, ht⟩))
  have hta : s'.tableAt o (pathOf vd) = s.tableAt o (pathOf vd) := by
    refine Radix.descend_congr fun before i after hsp t ht => ?_
    have hl : before.length ≤ 3 := by
      have := congrArg List.length hsp
      simp [length_pathOf] at this
      omega
    rw [hmem before t hl ht i]
  rw [getMapping_eq_mappingOf _ hot, getMapping_eq_mappingOf _ hot, hta]
  cases hp : s.tableAt o (pathOf vd) with
  | none => rfl
  | some pt => rw [Option.bind_some, Option.bind_some, hmem _ pt (length_pathOf vd).le hp]
end

/-! ## Mapping -/
section
variable {s s' : Paging} {root : ℕ}
/-- The new tables are those that `Grows` allows, so a lower table is an old one or new. -/
lemma Grows.lowTable {tp : List (Fin 512)} (hgr : Grows s s' root tp)
    {t : ℕ} (ht : LowTable s' root t) (hu : s.pmm.used t = true) : LowTable s root t := by
  obtain ⟨pt, hlen, hl, hp⟩ := ht
  by_contra hnot
  by_cases hta : IsTable s root t
  · obtain ⟨p', hl', hp'⟩ := hta
    have hk := hgr.keep p' t hl' hp'
    rw [hgr.tree.path_eq hlen hl' hp hk] at hl
    exact hnot ⟨p', hl', hl, hp'⟩
  · exact (hgr.other t hu hta).2 ⟨pt, hlen, hp⟩

lemma Grows.lowTable_keep {tp : List (Fin 512)} (hgr : Grows s s' root tp) {t : ℕ}
    (ht : LowTable s root t) : LowTable s' root t := by
  obtain ⟨pt, hlen, hl, hp⟩ := ht
  exact ⟨pt, hlen, hl, hgr.keep pt t hlen hp⟩

lemma card_clearPages_mark {m m' : Pmm} {pg n : ℕ}
    (h : ∀ u, m'.used u = (m.used u || decide (u = pg))) (hn : n + 1 ≤ m.clearPages.card) :
    n ≤ m'.clearPages.card := by
  have hsub : m.clearPages.erase pg ⊆ m'.clearPages := by
    intro u hu
    obtain ⟨hne, hu⟩ := mem_erase.1 hu
    rw [Pmm.mem_clearPages] at hu ⊢
    exact ⟨hu.1, by rw [h, hu.2]; simpa using hne⟩
  have := card_le_card hsub
  have := pred_card_le_card_erase (s := m.clearPages) (a := pg)
  omega

section
variable (h : Tree s root)
include h
/-- `ensureTable` in a table of the lower half. -/
lemma ensureTable_low {pt : List (Fin 512)} {t : ℕ} (hlen : pt.length ≤ 2)
    (ht : s.tableAt root pt = some t) {i : Fin 512} (hl : LowPath (pt ++ [i])) (user k : Bool) :
    ∃ ok s', s.ensureTable t i user k = some (ok, s') ∧ Grows s s' root [] ∧
      LowStep s s' root ∧ (ok = true → (s'.mem t i).present = true) ∧
      (s.pmm.used 0 = true → ∀ n, n + 1 ≤ s.pmm.clearPages.card →
        ok = true ∧ n ≤ s'.pmm.clearPages.card) := by
  obtain ⟨ok, s', hr, hgr, hp⟩ := ensureTable_spec h List.nil_prefix hlen ht i user k
  have hlo : LowTable s root t := by
    refine ⟨pt, by omega, fun j hj => hl j ?_, ht⟩
    rw [List.head?_append, hj]
    rfl
  have hsi : ∀ u j, (¬ LowTable s root u ∨ u = root ∧ 256 ≤ j.val) → u ≠ t ∨ j ≠ i := by
    rintro u j (hnot | ⟨rfl, hj⟩)
    · exact .inl fun he => hnot (he ▸ hlo)
    by_contra hbo
    obtain ⟨rfl, rfl⟩ := not_or.1 hbo |>.imp not_not.1 not_not.1
    have hnil : pt = [] := h.path_eq (by omega) (by simp) ht rfl
    have := hl j (by rw [hnil]; rfl)
    omega
  have hold : ∀ u, LowTable s' root u → s.pmm.used u = true → LowTable s root u := fun u hu hus =>
    hgr.lowTable hu hus
  have hb : ∀ u, LowTable s root u → s.pmm.used u = true := fun u hu => h.busy hu.isTable
  have hnew : ∀ u, LowTable s' root u → s'.pmm.used u = true := fun u hu => hgr.tree.busy hu.isTable
  obtain ⟨-, u', hc⟩ | ⟨pmm, hc, -, ha⟩ | ⟨-, page, pmm, u', -, hf, hpmm, hc⟩ :=
    ensureTable_cases s t i user k
  · obtain ⟨rfl, rfl⟩ : ok = true ∧ s' = s.setEntry t i { s.mem t i with user := u' } := by
      rw [hr] at hc
      simpa using hc
    refine ⟨true, _, hr, hgr, ⟨hgr.tree, fun u j _ hu => ?_, fun u hu => ?_, fun u j _ => ?_⟩,
      hp, fun _ n hn => ⟨rfl, Nat.le_of_succ_le hn⟩⟩
    · show Radix.setEntry s.mem t i _ u j = _
      rw [Radix.setEntry_apply, if_neg]
      rcases hsi u j hu with hne | hne
      · exact fun he => hne he.1
      · exact fun he => hne he.2
    · exact .inl (hold u hu (hnew u hu))
    · show (Radix.setEntry s.mem t i _ u j).largePage = _
      rw [Radix.setEntry_apply]
      split_ifs with he
      · rw [he.1, he.2]
      · rfl
  · obtain ⟨rfl, rfl⟩ : ok = false ∧ s' = { s with pmm := pmm } := by
      rw [hr] at hc
      simpa using hc
    refine ⟨false, _, hr, hgr, ⟨hgr.tree, fun _ _ _ _ => rfl, fun u hu => .inl hu,
      fun _ _ _ => rfl⟩, hp, fun hz n hn => ?_⟩
    have hno : s.pmm.clearPages = ∅ := filter_eq_empty_iff.2 fun u hu => by
      simp [ha hz u (mem_range.1 hu)]
    simp [hno] at hn
  obtain ⟨s0, hs0⟩ := @exists_eq _ (Function.update s.mem page fun _ => TableEntry.zero)
  rw [← hs0] at hc
  obtain ⟨rfl, rfl⟩ : ok = true ∧ s' = { pmm := pmm, mem := Radix.setEntry s0 t i { s0 t i with
      present := true
      writable := true
      user := u'
      base := BitVec.ofNat 40 page } } := by
    rw [hr] at hc
    simpa using hc
  have hsa : ∀ u, s.pmm.used u = true → s0 u = s.mem u := by
    intro u hu
    rw [hs0, Function.update_of_ne]
    rintro rfl
    rw [hf] at hu
    cases hu
  have htp : page ≠ t := by
    rintro rfl
    rw [hb page hlo] at hf
    cases hf
  refine ⟨true, _, hr, hgr, ⟨hgr.tree, fun u j hus hu => ?_, fun u hu => ?_,
    fun u j hu => ?_⟩, hp, fun _ n hn => ⟨rfl, card_clearPages_mark hpmm hn⟩⟩
  · show Radix.setEntry s0 t i _ u j = _
    rw [Radix.setEntry_apply, if_neg, hsa u hus]
    rcases hsi u j hu with hne | hne
    · exact fun he => hne he.1
    · exact fun he => hne he.2
  · cases hus : s.pmm.used u with
    | true => exact .inl (hold u hu hus)
    | false =>
      have hpa : u = page := by
        have := hnew u hu
        rw [show pmm.used u = _ from hpmm u, hus] at this
        simpa using this
      refine .inr ⟨rfl, fun j => ?_⟩
      show (Radix.setEntry s0 t i _ u j).largePage = _
      rw [Radix.setEntry_apply, if_neg (fun he => htp (hpa.symm.trans he.1)), hs0, hpa,
        Function.update_self]
      rfl
  show (Radix.setEntry s0 t i _ u j).largePage = _
  rw [Radix.setEntry_apply]
  split_ifs with he
  · rw [he.1, he.2, hsa t (hb t hlo)]
  · rw [hsa u (hb u hu)]

/-- No entry of the lower half is a large page. -/
def Small (s : Paging) (root : ℕ) : Prop :=
  ∀ t, LowTable s root t → ∀ i, (s.mem t i).largePage = false

omit h in
lemma LowStep.small (h : LowStep s s' root) (hs : Small s root) : Small s' root := by
  intro t ht i
  rcases h.tables t ht with hold | ⟨-, hl⟩
  · rw [h.large t i hold]
    exact hs t hold i
  · exact hl i

/-- A change of the lower half that takes nothing away. -/
structure LowGrowth (s s' : Paging) (root : ℕ) : Prop extends LowStep s s' root where
  used : ∀ t, s.pmm.used t = true → s'.pmm.used t = true
  keep : ∀ t, LowTable s root t → LowTable s' root t

lemma LowGrowth.refl : LowGrowth s s root := ⟨.refl h, fun _ ht => ht, fun _ ht => ht⟩

omit h in
lemma LowGrowth.trans {s'' : Paging} (h : LowGrowth s s' root) (h' : LowGrowth s' s'' root) :
    LowGrowth s s'' root :=
  ⟨h.toLowStep.trans h'.toLowStep h.used h.keep, fun t ht => h'.used t (h.used t ht),
    fun t ht => h'.keep t (h.keep t ht)⟩

lemma lowGrowth_alloc {pmm : Pmm} (hu : ∀ t, s.pmm.used t = true → pmm.used t = true) :
    LowGrowth s { s with pmm := pmm } root :=
  ⟨⟨h.mono (fun _ _ => rfl) hu, fun _ _ _ _ => rfl, fun _ ht => .inl ht, fun _ _ _ => rfl⟩, hu,
  fun _ ht => ht⟩

lemma lowGrowth_setLeaf {vd : UInt64} (hv : (pml4Index vd).val < 256)
    {pt : ℕ} (hp : s.tableAt root (pathOf vd) = some pt) {e : TableEntry}
    (he : e.largePage = (s.mem pt (ptIndex vd)).largePage) :
    LowGrowth s (s.setEntry pt (ptIndex vd) e) root := by
  have hl : LowTable s root pt := ⟨_, (length_pathOf vd).le, lowPath_cons hv _, hp⟩
  have hr : root ≠ pt := by
    rintro rfl
    have := h.path_eq (by simp) (length_pathOf vd).le
      (show s.tableAt root [] = some root from rfl) hp
    exact absurd (congrArg List.length this) (by simp [length_pathOf])
  have hsa : ∀ t, LowTable (s.setEntry pt (ptIndex vd) e) root t ↔ LowTable s root t := by
    intro t
    refine exists_congr fun pa => and_congr_right fun hlen => and_congr_right fun _ => ?_
    rw [tableAt_setLeaf h hp _ _ pa hlen]
  refine ⟨⟨tree_setLeaf h hp _ _, fun t i _ hsi => ?_, fun t ht => ?_,
    fun t i _ => ?_⟩, fun _ ht => ht, fun t ht => (hsa t).2 ht⟩
  · show Radix.setEntry s.mem pt (ptIndex vd) e t i = _
    rw [Radix.setEntry_apply, if_neg]
    rintro ⟨rfl, -⟩
    rcases hsi with hnot | ⟨heq, -⟩
    · exact hnot hl
    · exact hr heq.symm
  · exact .inl ((hsa t).1 ht)
  show (Radix.setEntry s.mem pt (ptIndex vd) e t i).largePage = _
  rw [Radix.setEntry_apply]
  split_ifs with heq
  · rw [he, heq.1, heq.2]
  · rfl

/-- The pages that `n` new tables need are there. -/
def Enough (s : Paging) (n : ℕ) : Prop := s.pmm.used 0 = true ∧ n ≤ s.pmm.clearPages.card

lemma ensureTable_growth {pt : List (Fin 512)} {t : ℕ} (hlen : pt.length ≤ 2)
    (ht : s.tableAt root pt = some t) {i : Fin 512} (hl : LowPath (pt ++ [i])) (us k : Bool) :
    ∃ ok s', s.ensureTable t i us k = some (ok, s') ∧ LowGrowth s s' root ∧
      (ok = true → (s'.mem t i).present = true ∧ s'.tableAt root pt = some t) ∧
      ∀ n, Enough s (n + 1) → ok = true ∧ Enough s' n := by
  obtain ⟨ok, s', hr, hgr, hst, hp, he⟩ := ensureTable_low h hlen ht hl us k
  refine ⟨ok, s', hr, ⟨hst, hgr.used, fun t ht => hgr.lowTable_keep ht⟩, fun hok => ?_,
    fun n hn => ?_⟩
  · exact ⟨hp hok, hgr.keep pt t (by omega) ht⟩
  obtain ⟨hok, hc⟩ := he hn.1 n hn.2
  exact ⟨hok, hgr.used 0 hn.1, hc⟩
end

lemma pml4Index_low {vd : UInt64} (h : vd.toNat < 2 ^ 47) : (pml4Index vd).val < 256 := by
  show vd.toNat / 2 ^ 39 % 512 < 256
  omega

section
variable {v p : UInt64} {w u : Bool} (h : Tree s root)
include h
lemma mapInPd_growth (hv : (pml4Index v).val < 256) {pd : ℕ}
    (hp : s.tableAt root [pml4Index v, pdptIndex v] = some pd) :
    ∃ ok s', s.mapInPd pd v p w u = some (ok, s') ∧ LowGrowth s s' root ∧
      (Small s root → ∀ n, Enough s (n + 1) → ok = true ∧ Enough s' n) := by
  obtain ⟨ok, s1, hr, hgr, hok, he⟩ := ensureTable_growth h (by simp) hp (lowPath_cons hv _) u false
  rw [mapInPd, hr]
  cases ok with
  | false => exact ⟨false, s1, rfl, hgr, fun _ n hn => by simpa using (he n hn).1⟩
  | true =>
    obtain ⟨hpr, hp1⟩ := hok rfl
    dsimp only
    cases hl : (s1.mem pd (pdIndex v)).largePage with
    | true =>
      refine ⟨false, s1, by simp, hgr, fun hsm => ?_⟩
      have := hgr.small hsm pd ⟨_, by simp, lowPath_cons hv _, hp1⟩ (pdIndex v)
      rw [hl] at this
      exact absurd this (by decide)
    | false =>
      have hpt := tableAt_next hp1 hpr (.inr hl)
      refine ⟨true, _, if_neg (by simp), hgr.trans (lowGrowth_setLeaf hgr.tree hv hpt rfl),
        fun _ n hn => ⟨rfl, (he n hn).2⟩⟩

lemma mapInPdpt_growth (hv : (pml4Index v).val < 256) {pd : ℕ}
    (hp : s.tableAt root [pml4Index v] = some pd) :
    ∃ ok s', s.mapInPdpt pd v p w u = some (ok, s') ∧ LowGrowth s s' root ∧
      (Small s root → ∀ n, Enough s (n + 2) → ok = true ∧ Enough s' n) := by
  obtain ⟨ok, s1, hr, hgr, hok, he⟩ := ensureTable_growth h (by simp) hp (lowPath_cons hv _) u false
  rw [mapInPdpt, hr]
  cases ok with
  | false => exact ⟨false, s1, rfl, hgr, fun _ n hn => by simpa using (he (n + 1) hn).1⟩
  | true =>
    obtain ⟨hpr, hp1⟩ := hok rfl
    dsimp only
    cases hl : (s1.mem pd (pdptIndex v)).largePage with
    | true =>
      refine ⟨false, s1, by simp, hgr, fun hsm => ?_⟩
      have := hgr.small hsm pd ⟨_, by simp, lowPath_cons hv _, hp1⟩ (pdptIndex v)
      rw [hl] at this
      exact absurd this (by decide)
    | false =>
      obtain ⟨ok, s', hr', hg', he'⟩ := mapInPd_growth hgr.tree hv (tableAt_next hp1 hpr (.inr hl))
      refine ⟨ok, s', by simpa using hr', hgr.trans hg', fun hsm n hn => ?_⟩
      exact he' (hgr.small hsm) n (he (n + 1) hn).2

/-- Mapping a page of the lower half. -/
theorem mapPageInRoot_low (hv : (pml4Index v).val < 256) :
    ∃ ok s', s.mapPageInRoot root v p w u = some (ok, s') ∧
      Mapped s root [] v p w u ok s' ∧ LowGrowth s s' root ∧
      (Small s root → root ≠ 0 → p.toNat % pageSize = 0 → ∀ n, Enough s (n + 3) →
        ok = true ∧ Enough s' n) := by
  obtain ⟨ok, s', hr, hmap, -⟩ := mapPageInRoot_spec h v p w u
  refine ⟨ok, s', hr, hmap, ?_⟩
  rw [mapPageInRoot] at hr
  by_cases hc : p.toNat % pageSize ≠ 0 ∨ root = 0
  · rw [if_pos hc] at hr
    cases hr
    exact ⟨.refl h, fun _ hro ha => absurd hc (by simp [hro, ha])⟩
  rw [if_neg hc] at hr
  obtain ⟨o1, s1, hr1, hgr, hok, he⟩ :=
    ensureTable_growth h (by simp) (show s.tableAt root [] = some root from rfl)
      (lowPath_cons hv []) u true
  rw [hr1] at hr
  cases o1 with
  | false =>
    cases hr
    exact ⟨hgr, fun _ _ _ n hn => by simpa using (he (n + 2) hn).1⟩
  | true =>
    obtain ⟨hp, hro1⟩ := hok rfl
    obtain ⟨o2, s2, hr2, hg2, he2⟩ := mapInPdpt_growth hgr.tree hv (tableAt_next hro1 hp (.inl rfl))
    cases hr2.symm.trans hr
    exact ⟨hgr.trans hg2, fun hsm _ _ n hn => he2 (hgr.small hsm) n (he (n + 2) hn).2⟩
end

end
end Menios.Mem.Paging
