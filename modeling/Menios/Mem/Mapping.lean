import Menios.Mem.PageTree

/-!
# Mapping and unmapping a page

What `pmm_map_page_in_root`, `pmm_unmap_page_in_root` and
`pmm_remove_mapping_in_root` (`src/kernel/mem/pmm.c`, lines 299-389 and 475-534) do
to the mappings of a root whose tables form a tree.

**Defects.** `pmm_get_mapping` and `pmm_unmap_page_internal` compute the address of a
page as `frame << 12` in the 40 bits of the bit-field, so a page at or above `2^40` is
read back as another one. `pmm_unmap_page_in_root` gives the page it computes to
`pmm_free_pages`, which has no bit for pages at or above `2^34` and writes outside
`page_bitmap`; and it frees the page even when it is one of the tables of the root.

Results:
* `mapPageInRoot_spec`, `unmap_of_mapped`: the operations on the tree.
* `paging_exact_iff`: the operations are exact for every root whose tables form a
  tree, except in the three cases above.
-/

namespace Menios.Mem.Paging
open Common List Option TableEntry Radix Function

/-! ## Mapping -/
section
variable {s : Paging} {root : ℕ} {p : List (Fin 512)} {pt : ℕ}
lemma length_pathOf (vaddr : UInt64) : (pathOf vaddr).length = 3 := rfl

lemma tableAt_setLeaf (h : Tree s root) {vaddr : UInt64}
    (ht : s.tableAt root (pathOf vaddr) = some pt) (i : Fin 512) (e : TableEntry)
    (p : List (Fin 512)) (hl : p.length ≤ 3) :
    (s.setEntry pt i e).tableAt root p = s.tableAt root p := by
  refine h.tableAt_setEntry (length_pathOf vaddr).le ht i e hl fun hp => ?_
  have := hp.length_le
  simp [length_pathOf] at this
  omega

lemma tree_setLeaf (h : Tree s root) {vaddr : UInt64}
    (ht : s.tableAt root (pathOf vaddr) = some pt) (i : Fin 512) (e : TableEntry) :
    Tree (s.setEntry pt i e) root :=
  h.mono (tableAt_setLeaf h ht i e) fun _ hu => hu

/-- What the mapping of a page looks like in its entry. -/
def mappingOf (e : TableEntry) : Option (ℕ × Bool × Bool) :=
  if e.present then some (e.address, e.writable, e.user) else none

lemma getMapping_eq_mappingOf (s : Paging) (hr : root ≠ 0) (vaddr : UInt64) :
    s.getMapping root vaddr =
      (s.tableAt root (pathOf vaddr)).bind fun pt => mappingOf (s.mem pt (ptIndex vaddr)) :=
  s.getMapping_eq hr vaddr

lemma getMapping_setLeaf_same (h : Tree s root) (hr : root ≠ 0) {vaddr : UInt64}
    (ht : s.tableAt root (pathOf vaddr) = some pt) (e : TableEntry) :
    (s.setEntry pt (ptIndex vaddr) e).getMapping root vaddr = mappingOf e := by
  rw [getMapping_eq_mappingOf _ hr, tableAt_setLeaf h ht _ _ _ (length_pathOf vaddr).le,
    ht, bind_some]
  exact congrArg mappingOf (setEntry_same _ _ _ _)

lemma getMapping_setLeaf_other (h : Tree s root) (hr : root ≠ 0) {vaddr v' : UInt64}
    (ht : s.tableAt root (pathOf vaddr) = some pt) (e : TableEntry) (hne : ¬ SamePage vaddr v') :
    (s.setEntry pt (ptIndex vaddr) e).getMapping root v' = s.getMapping root v' := by
  rw [getMapping_eq_mappingOf _ hr, getMapping_eq_mappingOf _ hr,
    tableAt_setLeaf h ht _ _ _ (length_pathOf v').le]
  cases ht' : s.tableAt root (pathOf v') with
  | none => rfl
  | some p' =>
    rw [bind_some, bind_some]
    refine congrArg mappingOf ?_
    show Radix.setEntry s.mem pt (ptIndex vaddr) e p' (ptIndex v') = _
    rw [Radix.setEntry_apply, if_neg]
    rintro ⟨rfl, hidx⟩
    exact hne ⟨h.path_eq (length_pathOf vaddr).le (length_pathOf v').le ht ht', hidx.symm⟩

/-- The outcome of mapping a page: tables were added below `top`, and on success the
entry of the page was written. -/
inductive Mapped (s : Paging) (root : ℕ) (top : List (Fin 512)) (vaddr paddr : UInt64)
    (writable user : Bool) : Bool → Paging → Prop
  | failed {s' : Paging} (h : Grows s s' root top) :
      Mapped s root top vaddr paddr writable user false s'
  | done {s₁ : Paging} {pt : ℕ} (h : Grows s s₁ root top)
      (ht : s₁.tableAt root (pathOf vaddr) = some pt) :
      Mapped s root top vaddr paddr writable user true
        (s₁.setEntry pt (ptIndex vaddr)
          (leafEntry (s₁.mem pt (ptIndex vaddr)) paddr writable user))

variable {s' : Paging} {ok : Bool}
lemma Mapped.after {s1 : Paging} {top : List (Fin 512)} {vaddr paddr : UInt64}
    {w u : Bool} (h : Grows s s1 root top) (hm : Mapped s1 root top vaddr paddr w u ok s') :
    Mapped s root top vaddr paddr w u ok s' := by
  cases hm with
  | failed h' => exact .failed (h.trans h')
  | done h' ht => exact .done (h.trans h') ht

variable {tp : List (Fin 512)} {v pa : UInt64} {wr us : Bool} {t : ℕ}
lemma tableAt_next (ht : s.tableAt root p = some t) {i : Fin 512}
    (hp : (s.mem t i).present = true) (hl : p.length = 0 ∨ (s.mem t i).largePage = false) :
    s.tableAt root (p ++ [i]) = some (s.mem t i).page := by
  rw [tableAt_append_some ht, next, if_pos]
  refine ⟨hp, fun hla => ?_⟩
  rcases hl with hl | hl
  · exact hla.1 hl
  rw [hl] at hla
  exact absurd hla.2 (by decide)

lemma mapInPd_spec (h : Tree s root) (ht : tp <+: [pml4Index v, pdptIndex v]) {pd : ℕ}
    (hp : s.tableAt root [pml4Index v, pdptIndex v] = some pd) :
    ∃ ok s', s.mapInPd pd v pa wr us = some (ok, s') ∧ Mapped s root tp v pa wr us ok s' := by
  obtain ⟨ok, s', hr, hgr, hpr⟩ := ensureTable_spec h ht (by simp) hp (pdIndex v) us false
  rw [mapInPd, hr]
  cases ok with
  | false => exact ⟨false, s', rfl, .failed hgr⟩
  | true =>
    simp only []
    split_ifs with hl
    · exact ⟨false, s', rfl, .failed hgr⟩
    have hpt := tableAt_next (hgr.keep _ _ (by simp) hp) (hpr rfl) (.inr (Bool.not_eq_true _ ▸ hl))
    exact ⟨true, _, rfl, .done hgr hpt⟩

lemma mapInPdpt_spec (h : Tree s root) (ht : tp <+: [pml4Index v]) {pd : ℕ}
    (hp : s.tableAt root [pml4Index v] = some pd) :
    ∃ ok s', s.mapInPdpt pd v pa wr us = some (ok, s') ∧ Mapped s root tp v pa wr us ok s' := by
  obtain ⟨ok, s1, hr, hgr, hpr⟩ := ensureTable_spec h ht (by simp) hp (pdptIndex v) us false
  rw [mapInPdpt, hr]
  cases ok with
  | false => exact ⟨false, s1, rfl, .failed hgr⟩
  | true =>
    simp only []
    split_ifs with hl
    · exact ⟨false, s1, rfl, .failed hgr⟩
    have hpd := tableAt_next (hgr.keep _ _ (by simp) hp) (hpr rfl) (.inr (Bool.not_eq_true _ ▸ hl))
    obtain ⟨ok, s', hr', hma⟩ := mapInPd_spec hgr.tree
      (ht.trans (prefix_append [pml4Index v] [pdptIndex v])) hpd
    exact ⟨ok, s', hr', hma.after hgr⟩

theorem mapPageInRoot_spec (h : Tree s root) (v pa : UInt64) (wr us : Bool) :
    ∃ ok s', s.mapPageInRoot root v pa wr us = some (ok, s') ∧ Mapped s root [] v pa wr us ok s' ∧
      (ok = true → pa.toNat % pageSize = 0 ∧ root ≠ 0) := by
  rw [mapPageInRoot]
  split_ifs with hc
  · exact ⟨false, s, rfl, .failed (Grows.refl h _), fun hf => by simp at hf⟩
  rw [not_or, not_not] at hc
  have hro : s.tableAt root [] = some root := rfl
  obtain ⟨ok, s1, hr, hgr, hp⟩ := ensureTable_spec h nil_prefix (by simp) hro (pml4Index v) us true
  rw [hr]
  cases ok with
  | false => exact ⟨false, s1, rfl, .failed hgr, fun hf => by simp at hf⟩
  | true =>
    have hr1 : s1.tableAt root [] = some root := rfl
    have hpd := tableAt_next hr1 (hp rfl) (.inl rfl)
    obtain ⟨ok, s', hr', hma⟩ := mapInPdpt_spec hgr.tree nil_prefix hpd
    exact ⟨ok, s', hr', hma.after hgr, fun _ => hc⟩

/-- The address that `pmm_get_mapping` finds in a written entry. -/
lemma address_leafEntry (e : TableEntry) (pa : UInt64) (wr us : Bool)
    (h : pa.toNat % pageSize = 0) : (leafEntry e pa wr us).address = pa.toNat % 2 ^ 40 := by
  rw [address_eq]
  show (BitVec.ofNat 40 (pa.toNat / 2 ^ 12)).toNat * 2 ^ 12 % 2 ^ 40 = _
  rw [BitVec.toNat_ofNat]
  simp only [pageSize] at h
  omega

lemma Mapped.getMapping (hm : Mapped s root tp v pa wr us true s')
    (hr : root ≠ 0) (hp : pa.toNat % pageSize = 0) :
    s'.getMapping root v = some (pa.toNat % 2 ^ 40, wr, us) ∧
      ∀ v', ¬ SamePage v v' → s'.getMapping root v' = s.getMapping root v' := by
  cases hm with
  | done h ht =>
    refine ⟨?_, fun v' hne => ?_⟩
    · rw [getMapping_setLeaf_same h.tree hr ht, mappingOf, address_leafEntry _ _ _ _ hp]
      rfl
    · rw [getMapping_setLeaf_other h.tree hr ht _ hne, h.getMapping hr]

section
variable (hm : Mapped s root tp v pa wr us ok s')
include hm
lemma Mapped.tree : Tree s' root := by
  cases hm with
  | failed h => exact h.tree
  | done h ht => exact tree_setLeaf h.tree ht _ _

lemma Mapped.used (ht : s.pmm.used t = true) : s'.pmm.used t = true := by
  cases hm with
  | failed h => exact h.used t ht
  | done h _ => exact h.used t ht

lemma Mapped.not_isTable
    (hu : s.pmm.used t = true) (ht : ¬ IsTable s root t) : ¬ IsTable s' root t := by
  cases hm with
  | failed h => exact (h.other t hu ht).2
  | done h hp =>
    rw [isTable_congr (tableAt_setLeaf h.tree hp _ _)]
    exact (h.other t hu ht).2
end

lemma exists_entry_of_getMapping (hr : root ≠ 0) {a : ℕ} {w u : Bool}
    (h : s.getMapping root v = some (a, w, u)) : ∃ pt, s.tableAt root (pathOf v) = some pt ∧
      (s.mem pt (ptIndex v)).present = true ∧ (s.mem pt (ptIndex v)).address = a := by
  rw [getMapping_eq_mappingOf s hr] at h
  obtain ⟨pt, hpt, he⟩ := bind_eq_some_iff.1 h
  rw [mappingOf] at he
  split_ifs at he with hp
  exact ⟨pt, hpt, hp, (Prod.mk.inj (some.inj he)).1⟩
end

/-! ## Taking empty tables away -/

lemma hasPresentEntries_eq_false {t : Table} :
    hasPresentEntries t = false ↔ ∀ i, (t i).present = false := by
  simp [hasPresentEntries]

/-- The tables at the paths `E` were taken away; the others and all other pages stay.
`E` is a set of paths. -/
structure Pruned (s s' : Paging) (root : ℕ) (E : List (Fin 512) → Prop) : Prop where
  tree : Tree s' root
  gone : ∀ path, path.length ≤ 3 → E path → s'.tableAt root path = none
  kept : ∀ path, path.length ≤ 3 → ¬ E path → s'.tableAt root path = s.tableAt root path
  used : ∀ u, s'.pmm.used u = true ↔ s.pmm.used u = true ∧
    ∀ path, path.length ≤ 3 → E path → s.tableAt root path ≠ some u
  other : ∀ u, ¬ IsTable s root u → s'.mem u = s.mem u
  leaf : ∀ path u, path.length = 3 → s.tableAt root path = some u → s'.mem u = s.mem u

section
variable {s s0 : Paging} {root : ℕ} {E : List (Fin 512) → Prop}
lemma Pruned.refl (h : Tree s root) : Pruned s s root fun _ => False :=
  ⟨h, fun _ _ hf => hf.elim, fun _ _ _ => rfl,
    fun _ => ⟨fun hu => ⟨hu, fun _ _ hf => hf.elim⟩, And.left⟩, fun _ _ => rfl, fun _ _ _ _ => rfl⟩

lemma Pruned.isTable {s' : Paging} (h : Pruned s s' root E) {u : ℕ} (hu : IsTable s' root u) :
    IsTable s root u := by
  obtain ⟨ph, hl, hp⟩ := hu
  by_cases hE : E ph
  · rw [h.gone ph hl hE] at hp
    cases hp
  rw [h.kept ph hl hE] at hp
  exact ⟨ph, hl, hp⟩

lemma Pruned.congr {s' : Paging} (h : Pruned s s' root E) {E' : List (Fin 512) → Prop}
    (hE : ∀ ph, E ph ↔ E' ph) : Pruned s s' root E' := by
  obtain rfl : E = E' := funext fun ph => propext (hE ph)
  exact h

/-- The table `c` at the end of `path ++ [i]` is taken away if it is empty. -/
lemma collapse_spec (h0 : Tree s0 root) (h : Pruned s0 s root E) {ph : List (Fin 512)}
    (hl : ph.length ≤ 2) {t c : ℕ} (ht : s.tableAt root ph = some t) {i : Fin 512}
    (hc : s.tableAt root (ph ++ [i]) = some c) : ∃ s', s.collapse (some (t, i)) = some s' ∧
      Pruned s0 s' root (fun q => E q ∨ q = ph ++ [i] ∧ hasPresentEntries (s.mem c) = false) ∧
      s'.mem = if hasPresentEntries (s.mem c) then s.mem
        else Radix.setEntry s.mem t i (clearedEntry (s.mem t i)) := by
  have hnx : next ph.length (s.mem t i) = some c := (tableAt_append_some ht i).symm.trans hc
  have hcp : c = (s.mem t i).page := (next_eq_some hnx).2
  have hcl : (ph ++ [i]).length ≤ 3 := by simp; omega
  simp only [collapse, ← hcp]
  cases hh : hasPresentEntries (s.mem c) with
  | true =>
    simp only [if_true]
    exact ⟨s, rfl, h.congr fun q => by simp, rfl⟩
  | false =>
    have he := hasPresentEntries_eq_false.1 hh
    have hclt : c < pageLimit := (h.tree.used _ c hcl hc).1
    simp only [Bool.false_eq_true, if_false, and_true]
    rw [← page_mul_pageSize, ← hcp, freePage_of_lt _ hclt]
    obtain ⟨s', hs'⟩ : ∃ s' : Paging, s' =
        { s.setEntry t i (clearedEntry (s.mem t i)) with
          pmm := (s.setEntry t i (clearedEntry (s.mem t i))).pmm.markFree c } := ⟨_, rfl⟩
    rw [← hs']
    have hmem : s'.mem = Radix.setEntry s.mem t i (clearedEntry (s.mem t i)) := by rw [hs']; rfl
    have hpmm : ∀ u, s'.pmm.used u = (s.pmm.used u && decide (u ≠ c)) := by
      intro u
      rw [hs']
      exact Pmm.used_markFree s.pmm c u
    -- the entry refers to no table any more, and every other path stays
    have hb : ∀ q, q.length ≤ 3 → ¬ ph ++ [i] <+: q → s'.tableAt root q = s.tableAt root q := by
      intro q hq hpre
      rw [hs']
      exact h.tree.tableAt_setEntry (by omega) ht i _ hq hpre
    have hgo : s'.tableAt root (ph ++ [i]) = none := by
      have hp : s'.tableAt root ph = some t := by
        rw [hb ph (by omega) fun hpre => by simpa using hpre.length_le]
        exact ht
      rw [tableAt_append_some hp, hmem]
      refine next_of_not_present ?_
      exact congrArg present (Radix.setEntry_same s.mem t i _)
    have hk : ∀ q, q.length ≤ 3 → q ≠ ph ++ [i] → s'.tableAt root q = s.tableAt root q := by
      intro q hq hne
      by_cases hpre : ph ++ [i] <+: q
      · obtain ⟨r, rfl⟩ := hpre
        cases r with
        | nil => exact absurd (append_nil _) hne
        | cons j r =>
          rw [tableAt_below hc (he j)]
          exact tableAt_append_none hgo _
      · exact hb q hq hpre
    have hsub : ∀ q u, q.length ≤ 3 → s'.tableAt root q = some u → s.tableAt root q = some u := by
      intro q u hq hu
      by_cases hne : q = ph ++ [i]
      · rw [hne, hgo] at hu
        cases hu
      rw [← hk q hq hne]
      exact hu
    have hcE : ¬ E (ph ++ [i]) := fun hE => by
      rw [h.gone _ hcl hE] at hc
      cases hc
    have htE : ¬ E ph := fun hE => by
      rw [h.gone _ (by omega) hE] at ht
      cases ht
    have hc0 : s0.tableAt root (ph ++ [i]) = some c := (h.kept _ hcl hcE).symm.trans hc
    have ht0 : s0.tableAt root ph = some t := (h.kept _ (by omega) htE).symm.trans ht
    refine ⟨s', rfl, ⟨⟨fun q u hq hu => ?_, fun q q' u hq hq' hu hu' => ?_⟩, fun q hq hE => ?_,
      fun q hq hE => ?_, fun u => ?_, fun u hu => ?_, fun q u hq hu => ?_⟩, hmem⟩
    · have hu' := hsub q u hq hu
      obtain ⟨h1, h2⟩ := h.tree.used q u hq hu'
      refine ⟨h1, ?_⟩
      have hune : u ≠ c := by
        rintro rfl
        obtain rfl := h.tree.path_eq hq hcl hu' hc
        rw [hgo] at hu
        cases hu
      rw [hpmm, h2]
      simp [hune]
    · exact h.tree.path_eq hq hq' (hsub q u hq hu) (hsub q' u hq' hu')
    · rcases hE with hE | rfl
      · cases hu : s'.tableAt root q with
        | none => rfl
        | some u => exact absurd ((h.gone q hq hE).symm.trans (hsub q u hq hu)) (by simp)
      · exact hgo
    · rw [not_or] at hE
      rw [hk q hq hE.2, h.kept q hq hE.1]
    · rw [hpmm, Bool.and_eq_true, h.used u, decide_eq_true_eq]
      constructor
      · rintro ⟨⟨h1, h2⟩, hne⟩
        refine ⟨h1, fun q hq hE => ?_⟩
        rcases hE with hE | rfl
        · exact h2 q hq hE
        · rw [hc0]
          exact fun heq => hne (some.inj heq).symm
      · rintro ⟨h1, h2⟩
        refine ⟨⟨h1, fun q hq hE => h2 q hq (.inl hE)⟩, ?_⟩
        rintro rfl
        exact h2 _ hcl (.inr rfl) hc0
    · have hune : u ≠ t := fun heq => hu (heq ▸ ⟨ph, by omega, ht0⟩)
      rw [hmem, Radix.setEntry_of_ne _ hune]
      exact h.other u hu
    have hune : u ≠ t := by
      rintro rfl
      have := h0.path_eq hq.le (by omega) hu ht0
      rw [this] at hq
      omega
    rw [hmem, Radix.setEntry_of_ne _ hune]
    exact h.leaf q u hq hu
end

/-! ## Unmapping -/

/-- Entry `i` is the only one that may be present. -/
def OnlyEntry (t : Table) (i : Fin 512) : Prop := ∀ j, (t j).present = true → j = i

/-- The paths whose tables hold nothing but the mapping of `vaddr`. -/
def Emptied (s : Paging) (root : ℕ) (vaddr : UInt64) (path : List (Fin 512)) : Prop :=
  ∃ pdpt pd pt, s.tableAt root [pml4Index vaddr] = some pdpt ∧
    s.tableAt root [pml4Index vaddr, pdptIndex vaddr] = some pd ∧
    s.tableAt root (pathOf vaddr) = some pt ∧ OnlyEntry (s.mem pt) (ptIndex vaddr) ∧
    (path = pathOf vaddr ∨ OnlyEntry (s.mem pd) (pdIndex vaddr) ∧
      (path = [pml4Index vaddr, pdptIndex vaddr] ∨ OnlyEntry (s.mem pdpt) (pdptIndex vaddr) ∧
        path = [pml4Index vaddr]))

lemma hasPresentEntries_cleared (t : Table) (i : Fin 512) :
    hasPresentEntries (update t i (clearedEntry (t i))) = false ↔ OnlyEntry t i := by
  rw [hasPresentEntries_eq_false]
  constructor
  · intro h j hj
    by_contra hne
    have := h j
    rw [update_of_ne hne, hj] at this
    exact absurd this (by decide)
  intro h j
  by_cases hji : j = i
  · rw [hji, update_self]
    rfl
  rw [update_of_ne hji]
  cases hj : (t j).present with
  | false => rfl
  | true => exact absurd (h j hj) hji

/-- A table is empty after its entry `i` was cleared or kept. -/
lemma hasPresentEntries_collapsed {m : ℕ → Table} {t : ℕ} {i : Fin 512} {f : Bool}
    (h : (m t i).present = true) : hasPresentEntries
        ((if f then m else Radix.setEntry m t i (clearedEntry (m t i))) t) = false ↔
      f = false ∧ OnlyEntry (m t) i := by
  cases f with
  | false =>
    rw [if_neg Bool.false_ne_true, Radix.setEntry, update_self, hasPresentEntries_cleared]
    exact (and_iff_right rfl).symm
  | true =>
    rw [if_pos rfl, hasPresentEntries_eq_false]
    exact iff_of_false (fun ha => by simp [ha] at h) (by simp)

section
variable {s : Paging} {root : ℕ} {vaddr : UInt64} {pt : ℕ}
/-- The entries that `pmm_walk_address` finds on the way to a page table. -/
lemma walkAddress_of_tableAt (hr : root ≠ 0) (h : s.tableAt root (pathOf vaddr) = some pt) :
    ∃ pp pd, s.tableAt root [pml4Index vaddr] = some pp ∧
      s.tableAt root [pml4Index vaddr, pdptIndex vaddr] = some pd ∧
      s.walkAddress root vaddr = ⟨some (root, pml4Index vaddr), some (pp, pdptIndex vaddr),
        some (pd, pdIndex vaddr), some (pt, ptIndex vaddr)⟩ := by
  obtain ⟨pp, h4, h⟩ := bind_eq_some_iff.1 h
  obtain ⟨pd, h3, h⟩ := bind_eq_some_iff.1 h
  obtain ⟨pt, h2, h⟩ := bind_eq_some_iff.1 h
  obtain rfl := some.inj h
  refine ⟨pp, pd, by simp [tableAt, descend, h4], by simp [tableAt, descend, h4, h3], ?_⟩
  simp only [next, Option.ite_none_right_eq_some, some.injEq, not_and] at h4 h3 h2
  obtain ⟨⟨hp4, -⟩, rfl⟩ := h4
  obtain ⟨⟨hp3, hl3⟩, rfl⟩ := h3
  obtain ⟨⟨hp2, hl2⟩, rfl⟩ := h2
  simp [walkAddress, hr, hp4, hp3, hl3, hp2, hl2]

/-- The tables that hold nothing but the mapping of `vaddr` are taken away with it. -/
lemma collapse_chain (h : Tree s root) {pp pd : ℕ}
    (hpp : s.tableAt root [pml4Index vaddr] = some pp)
    (hp : s.tableAt root [pml4Index vaddr, pdptIndex vaddr] = some pd)
    (hpt : s.tableAt root (pathOf vaddr) = some pt) : ∃ s2 s3 s4,
      (s.setEntry pt (ptIndex vaddr) (clearedEntry (s.mem pt (ptIndex vaddr)))).collapse
        (some (pd, pdIndex vaddr)) = some s2 ∧ s2.collapse (some (pp, pdptIndex vaddr)) = some s3 ∧
      s3.collapse (some (root, pml4Index vaddr)) = some s4 ∧
      s3.tableAt root [pml4Index vaddr] = some pp ∧
      (hasPresentEntries (s3.mem pp) = false ↔ Emptied s root vaddr [pml4Index vaddr]) ∧
      Pruned (s.setEntry pt (ptIndex vaddr) (clearedEntry (s.mem pt (ptIndex vaddr)))) s4 root
        (Emptied s root vaddr) := by
  obtain ⟨s1, hs1⟩ : ∃ s1, s1 =
      s.setEntry pt (ptIndex vaddr) (clearedEntry (s.mem pt (ptIndex vaddr))) := ⟨_, rfl⟩
  rw [← hs1]
  have ht : ∀ q, q.length ≤ 3 → s1.tableAt root q = s.tableAt root q := by
    rw [hs1]
    exact tableAt_setLeaf h hpt _ _
  have h₁ : Tree s1 root := hs1 ▸ tree_setLeaf h hpt _ _
  have hne_pt : ∀ {q u}, q.length < 3 → s.tableAt root q = some u → u ≠ pt := by
    rintro q u hq hu rfl
    have := h.path_eq (by omega) (length_pathOf vaddr).le hu hpt
    rw [this, length_pathOf] at hq
    omega
  have hpd_pt : pd ≠ pt := hne_pt (by simp) hp
  have hpdpt_pt : pp ≠ pt := hne_pt (by simp) hpp
  have hpdpt_pd : pp ≠ pd := by
    rintro rfl
    have := h.path_eq (by simp) (by simp) hpp hp
    simp at this
  have hm1 : s1.mem = Radix.setEntry s.mem pt (ptIndex vaddr)
      (clearedEntry (s.mem pt (ptIndex vaddr))) := by rw [hs1]; rfl
  -- the page table
  obtain ⟨s2, hr2, hp2, hm2⟩ := collapse_spec h₁ (Pruned.refl h₁) (by simp)
    ((ht _ (by simp)).trans hp)
    (show s1.tableAt root ([pml4Index vaddr, pdptIndex vaddr] ++ [pdIndex vaddr]) = some pt from
      (ht _ (by simp)).trans hpt)
  have hE2 : hasPresentEntries (s1.mem pt) = false ↔ OnlyEntry (s.mem pt) (ptIndex vaddr) := by
    rw [hm1, Radix.setEntry, update_self]
    exact hasPresentEntries_cleared _ _
  -- the page directory
  have hpdp : s2.tableAt root ([pml4Index vaddr] ++ [pdptIndex vaddr]) = some pd := by
    rw [hp2.kept _ (by simp) (by simp), ht _ (by simp)]
    exact hp
  have hph : s2.tableAt root [pml4Index vaddr] = some pp := by
    rw [hp2.kept _ (by simp) (by simp), ht _ (by simp)]
    exact hpp
  obtain ⟨s3, hr3, hp3, hm3⟩ := collapse_spec h₁ hp2 (by simp) hph hpdp
  have hpn : (s.mem pd (pdIndex vaddr)).present = true := by
    have := (tableAt_append_some hp (pdIndex vaddr)).symm.trans hpt
    exact (next_eq_some this).1
  have hE3 : hasPresentEntries (s2.mem pd) = false ↔
      OnlyEntry (s.mem pt) (ptIndex vaddr) ∧ OnlyEntry (s.mem pd) (pdIndex vaddr) := by
    have hmm : s1.mem pd = s.mem pd := by rw [hm1, Radix.setEntry_of_ne _ hpd_pt]
    rw [hm2, hasPresentEntries_collapsed (by rw [hmm]; exact hpn), hE2, hmm]
  -- the page directory pointer table
  have hpd3 : s3.tableAt root ([] ++ [pml4Index vaddr]) = some pp := by
    have : s3.tableAt root [pml4Index vaddr] = s1.tableAt root [pml4Index vaddr] :=
      hp3.kept _ (by simp) (by simp)
    rw [nil_append, this, ht _ (by simp)]
    exact hpp
  obtain ⟨s4, hr4, hp4, -⟩ := collapse_spec h₁ hp3 (by simp)
    (show s3.tableAt root [] = some root from rfl) hpd3
  have hpy : (s.mem pp (pdptIndex vaddr)).present = true := by
    have := (tableAt_append_some hpp (pdptIndex vaddr)).symm.trans hp
    exact (next_eq_some this).1
  have hme : s2.mem pp = s.mem pp := by
    have h1 : s1.mem pp = s.mem pp := by rw [hm1, Radix.setEntry_of_ne _ hpdpt_pt]
    rw [hm2]
    split_ifs
    · exact h1
    · rw [Radix.setEntry_of_ne _ hpdpt_pd, h1]
  have hE4 : hasPresentEntries (s3.mem pp) = false ↔
      (OnlyEntry (s.mem pt) (ptIndex vaddr) ∧ OnlyEntry (s.mem pd) (pdIndex vaddr)) ∧
        OnlyEntry (s.mem pp) (pdptIndex vaddr) := by
    rw [hm3, hasPresentEntries_collapsed (by rw [hme]; exact hpy), hE3, hme]
  refine ⟨s2, s3, s4, hr2, hr3, hr4, hpd3, ?_, hp4.congr fun q => ?_⟩
  · rw [hE4]
    constructor
    · rintro ⟨⟨h2, h3⟩, h4⟩
      exact ⟨pp, pd, pt, hpp, hp, hpt, h2, .inr ⟨h3, .inr ⟨h4, rfl⟩⟩⟩
    · rintro ⟨p', pd', pt', hp', hpd', hpt', h2, hpa⟩
      cases hpp.symm.trans hp'
      cases hp.symm.trans hpd'
      cases hpt.symm.trans hpt'
      rcases hpa with he | ⟨h3, he | ⟨h4, -⟩⟩
      · exact absurd (congrArg List.length he) (by simp [length_pathOf])
      · exact absurd (congrArg List.length he) (by simp)
      · exact ⟨⟨h2, h3⟩, h4⟩
  rw [hE2, hE3, hE4]
  simp only [Emptied, hpp, hp, hpt, Option.some.injEq, nil_append, false_or]
  constructor
  · rintro ((⟨rfl, h2⟩ | ⟨rfl, h2, h3⟩) | ⟨rfl, ⟨h2, h3⟩, h4⟩)
    · exact ⟨pp, pd, pt, rfl, rfl, rfl, h2, .inl rfl⟩
    · exact ⟨pp, pd, pt, rfl, rfl, rfl, h2, .inr ⟨h3, .inl rfl⟩⟩
    · exact ⟨pp, pd, pt, rfl, rfl, rfl, h2, .inr ⟨h3, .inr ⟨h4, rfl⟩⟩⟩
  rintro ⟨_, _, _, rfl, rfl, rfl, h2, rfl | ⟨h3, rfl | ⟨h4, rfl⟩⟩⟩
  · exact .inl (.inl ⟨rfl, h2⟩)
  · exact .inl (.inr ⟨rfl, h2, h3⟩)
  · exact .inr ⟨rfl, ⟨h2, h3⟩, h4⟩

/-- `vaddr` is mapped by the entry `e`. -/
def MappedBy (s : Paging) (root : ℕ) (vaddr : UInt64) (e : TableEntry) : Prop :=
  root ≠ 0 ∧ e.present = true ∧
    ∃ pt, s.tableAt root (pathOf vaddr) = some pt ∧ s.mem pt (ptIndex vaddr) = e

lemma MappedBy.unique {e e' : TableEntry} (h : MappedBy s root vaddr e)
    (h' : MappedBy s root vaddr e') : e = e' := by
  obtain ⟨-, -, pt, hp, rfl⟩ := h
  obtain ⟨-, -, p', hp', rfl⟩ := h'
  rw [some.inj (hp.symm.trans hp')]

lemma unmap_of_not_mapped (h : ∀ e, ¬ MappedBy s root vaddr e) (f : Bool) :
    s.unmapPageInternal root vaddr f = some (false, s) := by
  rw [unmapPageInternal]
  by_cases hr : root = 0
  · rw [if_pos hr]
  rw [if_neg hr]
  simp only [ptEntry_walkAddress s hr]
  cases hpt : s.tableAt root (pathOf vaddr) with
  | none => rfl
  | some pt =>
    have hp : (s.mem pt (ptIndex vaddr)).present = false := by
      by_contra hp
      rw [Bool.not_eq_false] at hp
      exact h _ ⟨hr, hp, pt, hpt, rfl⟩
    simp only [map_some, hp, if_true]

section
variable (h : Tree s root)
include h
/-- A mapped address: its entry is cleared, and the tables that held nothing else are
taken away. -/
theorem unmap_of_mapped {e : TableEntry} (he : MappedBy s root vaddr e) (f : Bool) :
    ∃ pt s', s.tableAt root (pathOf vaddr) = some pt ∧ s.mem pt (ptIndex vaddr) = e ∧
      Pruned (s.setEntry pt (ptIndex vaddr) (clearedEntry e)) s' root (Emptied s root vaddr) ∧
      s.unmapPageInternal root vaddr f =
        (if f then s'.freePage e.address else some s').map (true, ·) := by
  obtain ⟨hr, hp, pt, hpt, rfl⟩ := he
  obtain ⟨pp, pd, hpp, hpd, hwa⟩ := walkAddress_of_tableAt hr hpt
  obtain ⟨s2, s3, s4, hr2, hr3, hr4, -, -, hpr⟩ := collapse_chain h hpp hpd hpt
  refine ⟨pt, s4, hpt, rfl, hpr, ?_⟩
  rw [unmapPageInternal, if_neg hr, hwa]
  simp only [hp, Bool.true_eq_false, if_false, hr2, hr3, hr4, bind_eq_bind, bind_some]
  cases f with
  | false => rfl
  | true =>
    simp only [if_true]
    cases s4.freePage (s.mem pt (ptIndex vaddr)).address <;> rfl

lemma Pruned.getMapping (hr : root ≠ 0) {s' : Paging}
    (hpt : s.tableAt root (pathOf vaddr) = some pt) (hpr : Pruned
      (s.setEntry pt (ptIndex vaddr) (clearedEntry (s.mem pt (ptIndex vaddr)))) s' root
      (Emptied s root vaddr)) : s'.getMapping root vaddr = none ∧
      ∀ v', ¬ SamePage vaddr v' → s'.getMapping root v' = s.getMapping root v' := by
  obtain ⟨s1, hs1⟩ : ∃ s1, s1 =
      s.setEntry pt (ptIndex vaddr) (clearedEntry (s.mem pt (ptIndex vaddr))) := ⟨_, rfl⟩
  rw [← hs1] at hpr
  -- a page table that stays has the contents it had in `s₁`
  have hst : ∀ v, ¬ Emptied s root vaddr (pathOf v) →
      s'.getMapping root v = s1.getMapping root v := by
    intro v hE
    rw [getMapping_eq_mappingOf _ hr, getMapping_eq_mappingOf _ hr,
      hpr.kept _ (length_pathOf v).le hE]
    cases ht : s1.tableAt root (pathOf v) with
    | none => rfl
    | some u => rw [bind_some, bind_some, hpr.leaf _ u (length_pathOf v) ht]
  have hgo : ∀ v, Emptied s root vaddr (pathOf v) → s'.getMapping root v = none := by
    intro v hE
    rw [getMapping_eq_mappingOf _ hr, hpr.gone _ (length_pathOf v).le hE]
    rfl
  constructor
  · by_cases hE : Emptied s root vaddr (pathOf vaddr)
    · exact hgo vaddr hE
    · rw [hst vaddr hE, hs1, getMapping_setLeaf_same h hr hpt]
      rfl
  intro v' hne
  by_cases hE : Emptied s root vaddr (pathOf v')
  · rw [hgo v' hE]
    obtain ⟨pp, pd, p', -, -, hpt', hon, hpa⟩ := hE
    have hp' : pathOf v' = pathOf vaddr := by
      rcases hpa with he | ⟨-, he | ⟨-, he⟩⟩
      · exact he
      · exact absurd (congrArg List.length he) (by simp [length_pathOf])
      · exact absurd (congrArg List.length he) (by simp [length_pathOf])
    have hidx : ptIndex v' ≠ ptIndex vaddr := fun he => hne ⟨hp'.symm, he.symm⟩
    have hnot : (s.mem p' (ptIndex v')).present = false := by
      by_contra hp
      rw [Bool.not_eq_false] at hp
      exact hidx (hon _ hp)
    rw [getMapping_eq_mappingOf _ hr, hp', hpt', bind_some, mappingOf, hnot]
    rfl
  · rw [hst v' hE, hs1, getMapping_setLeaf_other h hr hpt _ hne]

/-- The tree before the entry of `vaddr` was cleared. -/
lemma Pruned.before {s' : Paging} {E : List (Fin 512) → Prop} {e : TableEntry}
    (hpt : s.tableAt root (pathOf vaddr) = some pt)
    (hp : Pruned (s.setEntry pt (ptIndex vaddr) e) s' root E) :
    (∀ ph, ph.length ≤ 3 → ¬ E ph → s'.tableAt root ph = s.tableAt root ph) ∧
      (∀ t, IsTable s' root t → IsTable s root t) ∧ (∀ t, ¬ IsTable s root t → s'.mem t = s.mem t) ∧
      ∀ t, s'.pmm.used t = true ↔ s.pmm.used t = true ∧
        ∀ ph, ph.length ≤ 3 → E ph → s.tableAt root ph ≠ some t := by
  have hta := tableAt_setLeaf h hpt (ptIndex vaddr) e
  refine ⟨fun ph hl hE => (hp.kept ph hl hE).trans (hta ph hl), fun t ht =>
    (isTable_congr hta t).1 (hp.isTable ht), fun t ht => ?_, fun t =>
    (hp.used t).trans (and_congr_right fun _ => forall_congr' fun ph =>
      forall_congr' fun hl => by rw [hta ph hl])⟩
  have hne : t ≠ pt := fun he => ht (he ▸ ⟨_, (length_pathOf vaddr).le, hpt⟩)
  exact (hp.other t fun ht' => ht ((isTable_congr hta t).1 ht')).trans (setEntry_of_ne _ hne _ _)

/-! ## Exactness -/

/-- If `pmm_map_page_in_root` returns true, the page is mapped as asked and no other
mapping changed. -/
def MapExact (s : Paging) (root : ℕ) (vaddr paddr : UInt64) (writable user : Bool) : Prop :=
  ∃ ok s', s.mapPageInRoot root vaddr paddr writable user = some (ok, s') ∧
    (ok = true → s'.getMapping root vaddr = some (paddr.toNat, writable, user) ∧
      ∀ vaddr', ¬ SamePage vaddr vaddr' → s'.getMapping root vaddr' = s.getMapping root vaddr')

/-- If `unmap` returns true, the page is not mapped, no other mapping changed, no page
that was freed is a table of the root, and the tables form a tree. -/
def UnmapExact (unmap : Paging → ℕ → UInt64 → Option (Bool × Paging)) (s : Paging) (root : ℕ)
    (vaddr : UInt64) : Prop :=
  ∃ ok s', unmap s root vaddr = some (ok, s') ∧
    (ok = true → s'.getMapping root vaddr = none ∧
      (∀ vaddr', ¬ SamePage vaddr vaddr' →
        s'.getMapping root vaddr' = s.getMapping root vaddr') ∧
      (∀ t, s.pmm.used t = true → s'.pmm.used t = false → ¬ IsTable s' root t) ∧ Tree s' root)

lemma mapExact_iff {paddr : UInt64} {w u : Bool} :
    MapExact s root vaddr paddr w u ↔ paddr.toNat < 2 ^ 40 ∨
      ∀ s', s.mapPageInRoot root vaddr paddr w u ≠ some (true, s') := by
  obtain ⟨ok, s', hr, hma, hok⟩ := mapPageInRoot_spec h vaddr paddr w u
  constructor
  · rintro ⟨o', s'', hr', he⟩
    cases hr.symm.trans hr'
    cases ok with
    | false =>
      right
      intro s'' heq
      rw [hr] at heq
      cases heq
    | true =>
      left
      obtain ⟨hp, hro⟩ := hok rfl
      have heq := (hma.getMapping hro hp).1.symm.trans (he rfl).1
      have ha := (Prod.mk.inj (some.inj heq)).1
      omega
  intro hc
  refine ⟨ok, s', hr, ?_⟩
  rintro rfl
  obtain ⟨hp, hro⟩ := hok rfl
  have hlt : paddr.toNat < 2 ^ 40 := hc.resolve_right fun hno => hno s' hr
  have := hma.getMapping hro hp
  rwa [Nat.mod_eq_of_lt hlt] at this

omit h in
lemma tree_freePage {s' : Paging} (h : Tree s' root) {pg : ℕ} (hp : ¬ IsTable s' root pg) :
    Tree { s' with pmm := s'.pmm.markFree pg } root := by
  refine h.congr (fun _ _ => rfl) fun u hu => ?_
  have hune : u ≠ pg := fun he => hp (he ▸ hu)
  show (s'.pmm.markFree pg).used u = true
  rw [Pmm.used_markFree, h.busy hu]
  simp [hune]

/-- The address is not mapped any more, its page and the tables that became empty are free,
and everything else is as it was. -/
structure Unmaps (s s' : Paging) (root : ℕ) (v : UInt64) (page : ℕ) : Prop where
  tree : Tree s' root
  here : s'.getMapping root v = none
  others : ∀ v', ¬ SamePage v v' → s'.getMapping root v' = s.getMapping root v'
  tables : ∀ t, IsTable s' root t → IsTable s root t
  freed : s'.pmm.used page = false
  free : ∀ t, s.pmm.used t = false → s'.pmm.used t = false
  busy : ∀ t, s.pmm.used t = true → ¬ IsTable s root t → t ≠ page → s'.pmm.used t = true

lemma unmapPageInRoot_spec {v : UInt64} (hr : root ≠ 0) {a : ℕ} {w u : Bool}
    (hv : s.getMapping root v = some (a, w, u)) (hlt : a / pageSize < pageLimit)
    (hnot : ¬ IsTable s root (a / pageSize)) :
    ∃ s', s.unmapPageInRoot root v = some (true, s') ∧ Unmaps s s' root v (a / pageSize) := by
  obtain ⟨pt, hpt, hp, rfl⟩ := exists_entry_of_getMapping hr hv
  obtain ⟨p', s1, hp', -, hpr, hrun⟩ := unmap_of_mapped h ⟨hr, hp, pt, hpt, rfl⟩ true
  obtain rfl : pt = p' := some.inj (hpt.symm.trans hp')
  obtain ⟨page, hpa⟩ := @exists_eq _ ((s.mem pt (ptIndex v)).address / pageSize)
  obtain ⟨-, hta, -, hb⟩ := hpr.before h hpt
  obtain ⟨hh, hot⟩ := hpr.getMapping h hr hpt
  have ha : (s.mem pt (ptIndex v)).address = page * pageSize := by
    rw [hpa, ← page_mul_pageSize, Nat.mul_div_cancel _ (by decide)]
  rw [← hpa] at hlt hnot ⊢
  refine ⟨{ s1 with pmm := s1.pmm.markFree page }, ?_, ?_⟩
  · rw [unmapPageInRoot, hrun, if_pos rfl, ha, s1.freePage_of_lt hlt]
    rfl
  refine ⟨tree_freePage hpr.tree fun ht => hnot (hta _ ht), hh, hot,
    hta, ?_, fun t ht => ?_, fun t ht hnt hne => ?_⟩
  · show (s1.pmm.markFree page).used page = false
    simp
  · show (s1.pmm.markFree page).used t = false
    have hu : s1.pmm.used t = false := by
      by_contra hf
      rw [Bool.not_eq_false] at hf
      rw [((hb t).1 hf).1] at ht
      cases ht
    rw [Pmm.used_markFree, hu, Bool.false_and]
  show (s1.pmm.markFree page).used t = true
  have hu : s1.pmm.used t = true := (hb t).2 ⟨ht, fun ph hl _ hph => hnt ⟨ph, hl, hph⟩⟩
  simp [Pmm.used_markFree, hu, hne]

lemma removeMapping_exact : UnmapExact removeMappingInRoot s root vaddr := by
  by_cases hex : ∃ e, MappedBy s root vaddr e
  · obtain ⟨e, he⟩ := hex
    obtain ⟨pt, s', hpt, rfl, hp, hr⟩ := unmap_of_mapped h he false
    obtain ⟨h1, h2⟩ := hp.getMapping h he.1 hpt
    refine ⟨true, s', hr, fun _ => ⟨h1, h2, fun t _ ht => ?_, hp.tree⟩⟩
    exact hp.tree.not_isTable ht
  · exact ⟨false, s, unmap_of_not_mapped (not_exists.1 hex) false, fun hf => by simp at hf⟩

lemma unmapExact_iff : UnmapExact unmapPageInRoot s root vaddr ↔ ∀ e, MappedBy s root vaddr e →
      e.page < pageLimit ∧ ∀ ph, ph.length ≤ 3 → s.tableAt root ph = some e.page →
        Emptied s root vaddr ph := by
  by_cases hex : ∃ e, MappedBy s root vaddr e
  · obtain ⟨e, he⟩ := hex
    obtain ⟨pt, s', hpt, rfl, hpr, hr⟩ := unmap_of_mapped h he true
    obtain ⟨e, hed⟩ := @exists_eq _ (s.mem pt (ptIndex vaddr))
    obtain ⟨hk, -⟩ := hpr.before h hpt
    obtain ⟨h1, h2⟩ := hpr.getMapping h he.1 hpt
    rw [if_pos rfl, ← hed, ← e.page_mul_pageSize] at hr
    rw [← hed] at he
    constructor
    · rintro ⟨ok, s'', hr', hec⟩ e' he'
      obtain rfl := he.unique he'
      rcases Nat.lt_or_ge e.page pageLimit with hlt | hge
      · refine ⟨hlt, fun ph hl hpa => ?_⟩
        by_contra hE
        rw [freePage_of_lt _ hlt] at hr
        cases hr'.symm.trans hr
        obtain ⟨-, -, -, htr⟩ := hec rfl
        have hst : s'.tableAt root ph = some e.page := by rw [hk ph hl hE, hpa]
        have := (htr.used ph e.page hl hst).2
        rw [show Pmm.used _ e.page = _ from Pmm.used_markFree s'.pmm e.page e.page] at this
        simp at this
      · have ha : e.page * pageSize < 2 ^ 64 := by
          rw [e.page_mul_pageSize]
          exact e.address_lt.trans (by decide)
        rw [freePage_of_le _ hge ha] at hr
        rw [unmapPageInRoot, hr] at hr'
        cases hr'
    · intro hc
      obtain ⟨hlt, hpa⟩ := hc e he
      have hnot : ¬ IsTable s' root e.page := by
        rintro ⟨ph, hl, hp⟩
        by_cases hE : Emptied s root vaddr ph
        · rw [hpr.gone ph hl hE] at hp
          cases hp
        · rw [hk ph hl hE] at hp
          exact hE (hpa ph hl hp)
      rw [freePage_of_lt _ hlt] at hr
      have htr := tree_freePage hpr.tree hnot
      exact ⟨true, _, hr, fun _ => ⟨h1, h2, fun t _ ht => htr.not_isTable ht, htr⟩⟩
  have hno := not_exists.1 hex
  exact ⟨fun _ e he => absurd he (hno e), fun _ =>
    ⟨false, s, unmap_of_not_mapped hno true, fun hf => by simp at hf⟩⟩
end

/-- For a root whose tables form a tree: mapping a page is exact exactly when the page
lies below `2^40` (or the call fails), removing a mapping is always exact, and
unmapping is exact exactly when the page to be freed has a bit in the bitmap and is
not a table that stays. -/
theorem paging_exact_iff (s : Paging) (root : ℕ) (h : Tree s root) (vaddr paddr : UInt64)
    (_hpage : paddr.toNat % pageSize = 0) (_hlt : paddr.toNat < 2 ^ 52) (writable user : Bool) :
    (MapExact s root vaddr paddr writable user ↔ paddr.toNat < 2 ^ 40 ∨
      ∀ s', s.mapPageInRoot root vaddr paddr writable user ≠ some (true, s')) ∧
    UnmapExact removeMappingInRoot s root vaddr ∧
    (UnmapExact unmapPageInRoot s root vaddr ↔ ∀ e, MappedBy s root vaddr e →
      e.page < pageLimit ∧ ∀ path, path.length ≤ 3 → s.tableAt root path = some e.page →
        Emptied s root vaddr path) :=
  ⟨mapExact_iff h, removeMapping_exact h, unmapExact_iff h⟩
end

/-! ## A small tree -/

/-- Page 1 is a root; its entry `top` leads to page 2, and entry 0 there over page 3 to
the page table in page 4, whose entry 0 is `leaf`. Every page is used. -/
def fourTables (top : Fin 512) (leaf : TableEntry) : Paging where
  pmm := Pmm.pageBitmapInitialize
  mem t i :=
    if i = (if t = 1 then top else 0) then
      if t = 4 then leaf
      else if 1 ≤ t ∧ t ≤ 3 then
        { zero with present := true, base := BitVec.ofNat 40 (t + 1) }
      else zero
    else zero

section
variable {top : Fin 512} {l : TableEntry} {t : ℕ}
lemma next_fourTables_eq (lv : ℕ) (ht : 1 ≤ t ∧ t ≤ 3) :
    next lv ((fourTables top l).mem t (if t = 1 then top else 0)) = some (t + 1) := by
  have hne : t ≠ 4 := by omega
  have hlt : t + 1 < pageLimit := by
    rw [pageLimit_eq]
    omega
  simp only [fourTables, if_true, if_neg hne, if_pos ht]
  rw [next, if_pos (by simp [zero]), page_of_base hlt rfl]

lemma next_fourTables {lv u : ℕ} {i : Fin 512} (ht : t ≠ 4)
    (h : next lv ((fourTables top l).mem t i) = some u) :
    i = (if t = 1 then top else 0) ∧ u = t + 1 ∧ u ≤ 4 := by
  by_cases hi : i = (if t = 1 then top else 0)
  · by_cases hr : 1 ≤ t ∧ t ≤ 3
    · rw [hi, next_fourTables_eq lv hr] at h
      cases h
      exact ⟨hi, rfl, by omega⟩
    · simp [fourTables, hi, ht, hr, next, zero] at h
  · simp [fourTables, hi, next, zero] at h

/-- The path from table `t` down to table `u`. -/
def fourPath (top : Fin 512) (t : ℕ) : ℕ → List (Fin 512)
  | 0 => []
  | n + 1 => (if t = 1 then top else 0) :: fourPath top (t + 1) n

lemma length_fourPath (top : Fin 512) (t n : ℕ) : (fourPath top t n).length = n := by
  induction n generalizing t with
  | zero => rfl
  | succ n ih => rw [fourPath, length_cons, ih]

lemma descend_fourTables (ph : List (Fin 512)) (lv t u : ℕ) (hl : t + ph.length ≤ 4)
    (h : descend next (fourTables top l).mem lv t ph = some u) :
    ph = fourPath top t (u - t) ∧ t ≤ u ∧ (ph ≠ [] → u ≤ 4) := by
  induction ph generalizing lv t with
  | nil =>
    obtain rfl : t = u := some.inj h
    simp [fourPath]
  | cons i ph ih =>
    simp only [length_cons] at hl
    obtain ⟨t', hn, hr⟩ := bind_eq_some_iff.1 h
    obtain ⟨rfl, rfl, hle⟩ := next_fourTables (by omega) hn
    obtain ⟨hp, hge, hmax⟩ := ih (lv + 1) (t + 1) (by omega) hr
    refine ⟨?_, by omega, fun _ => ?_⟩
    · rw [show u - t = (u - (t + 1)) + 1 by omega, fourPath, ← hp]
    cases ph with
    | nil =>
      have : t + 1 = u := some.inj hr
      omega
    | cons j ph => exact hmax (by simp)

lemma tree_fourTables (top : Fin 512) (l : TableEntry) : Tree (fourTables top l) 1 where
  used path t hl ht := by
    refine ⟨?_, used_pageBitmapInitialize t⟩
    obtain ⟨-, hge, hmax⟩ := descend_fourTables path 0 1 t (by omega) ht
    rw [pageLimit_eq]
    by_cases hp : path = []
    · subst hp
      have : 1 = t := some.inj ht
      omega
    have := hmax hp
    omega
  distinct path path' t hl hl' ht ht' := by
    obtain ⟨h, -⟩ := descend_fourTables path 0 1 t (by omega) ht
    obtain ⟨h', -⟩ := descend_fourTables path' 0 1 t (by omega) ht'
    rw [h, h']

lemma tableAt_fourTables (top : Fin 512) (l : TableEntry) :
    (fourTables top l).tableAt 1 [top] = some 2 ∧ (fourTables top l).tableAt 1 [top, 0] = some 3 ∧
      (fourTables top l).tableAt 1 [top, 0, 0] = some 4 := by
  have h1 : next 0 ((fourTables top l).mem 1 top) = some 2 := next_fourTables_eq 0 (by decide)
  have h2 : next 1 ((fourTables top l).mem 2 0) = some 3 := next_fourTables_eq 1 (by decide)
  have h3 : next 2 ((fourTables top l).mem 3 0) = some 4 := next_fourTables_eq 2 (by decide)
  refine ⟨?_, ?_, ?_⟩ <;> simp [tableAt, descend, h1, h2, h3]

lemma not_isTable_fourTables (h : 5 ≤ t) : ¬ IsTable (fourTables top l) 1 t := by
  rintro ⟨ph, hl, hp⟩
  obtain ⟨-, -, hmax⟩ := descend_fourTables ph 0 1 t (by omega) hp
  cases ph with
  | nil =>
    have : 1 = t := some.inj hp
    omega
  | cons i ph =>
    have := hmax (by simp)
    omega
end

/-- An entry that maps the page with number `page`. -/
def pageEntry (page : ℕ) : TableEntry := { zero with present := true, base := BitVec.ofNat 40 page }

lemma pathOf_zero : pathOf 0 = [0, 0, 0] := by decide

lemma mappedBy_fourTables (pg : ℕ) : MappedBy (fourTables 0 (pageEntry pg)) 1 0 (pageEntry pg) :=
  ⟨by decide, rfl, 4, pathOf_zero ▸ (tableAt_fourTables 0 _).2.2, rfl⟩

/-- Page 5 is mapped, and the page that was there before is unmapped. -/
theorem paging_exact_iff_four_tables : Tree (fourTables 0 (pageEntry 6)) 1 ∧
      MapExact (fourTables 0 (pageEntry 6)) 1 0 0x5000 true false ∧
      UnmapExact unmapPageInRoot (fourTables 0 (pageEntry 6)) 1 0 := by
  obtain ⟨hmap, -, hu⟩ := paging_exact_iff (fourTables 0 (pageEntry 6)) 1 (tree_fourTables _ _) 0
    0x5000 (by decide) (by decide) true false
  refine ⟨tree_fourTables _ _, hmap.2 (.inl (by decide)), hu.2 fun e he => ?_⟩
  obtain rfl := (mappedBy_fourTables 6).unique he
  have hp : (pageEntry 6).page = 6 := rfl
  rw [hp]
  refine ⟨by rw [pageLimit_eq]; decide, fun ph hl hpt => ?_⟩
  exact absurd ⟨ph, hl, hpt⟩ (not_isTable_fourTables (by decide))

/-- The page at `2^40` is read back as another one; a page at `2^34` is freed outside the
bitmap; and a root that maps itself is freed by unmapping it. -/
theorem paging_not_exact : ¬ MapExact (fourTables 0 zero) 1 0 0x10000000000 true false ∧
      ¬ UnmapExact unmapPageInRoot (fourTables 0 (pageEntry 0x400000)) 1 0 ∧
      ¬ UnmapExact unmapPageInRoot (fourTables 0 (pageEntry 1)) 1 0 := by
  refine ⟨fun he => ?_, fun he => ?_, fun he => ?_⟩
  · rcases (mapExact_iff (tree_fourTables _ _)).1 he with hlt | hno
    · exact absurd hlt (by decide)
    · exact hno _ rfl
  · have := ((unmapExact_iff (tree_fourTables _ _)).1 he _ (mappedBy_fourTables _)).1
    rw [pageLimit_eq] at this
    exact absurd this (by decide)
  have := ((unmapExact_iff (tree_fourTables _ _)).1 he _ (mappedBy_fourTables _)).2 [] (by simp) rfl
  obtain ⟨pp, pd, pt, -, -, -, -, hp⟩ := this
  rcases hp with heq | ⟨-, heq | ⟨-, heq⟩⟩
  · exact absurd (congrArg List.length heq) (by simp [length_pathOf])
  · exact absurd (congrArg List.length heq) (by simp)
  · exact absurd (congrArg List.length heq) (by simp)
end Menios.Mem.Paging
