import Menios.Mem.Mapping

/-!
# The kernel half of the address spaces

`pmm_clone_kernel_address_space` (`src/kernel/mem/pmm.c`, lines 559-575) copies the
upper 256 entries of the kernel's PML4, so all roots share the tables below those
entries, as long as nobody changes an upper entry of a single PML4.

**Defect.** `pmm_map_page_in_root` creates a missing table below the PML4 of the root
it was given, and `pmm_unmap_page_internal` clears the entry there when the table has
become empty and frees the table. The other roots do not see a new table, and they
keep entries for a freed one.

Results:
* `Shared.step`: a step that creates no table below a PML4, takes none away and frees
  no table keeps the roots together.
* `kernelHalf_agrees_of_safe`: in a run of such steps all roots agree.
* `Shared.unmap_separates`: taking an entry of the kernel's PML4 away leaves every
  cloned root with an entry for a free page.
-/

namespace Menios.Mem
open Common Paging Function Option List

/-- The kernel root and the roots cloned from it. -/
structure AddressSpaces where
  paging : Paging
  kernelRoot : ℕ
  roots : List ℕ

namespace AddressSpaces
/-- The calls of a run. -/
inductive Step
  | clone
  | map (root : ℕ) (vaddr paddr : UInt64) (writable user : Bool)
  | unmap (root : ℕ) (vaddr : UInt64)

/-- One call; `none` when it leaves the page bitmap. -/
def step (s : AddressSpaces) : Step → Option AddressSpaces
  | .clone =>
    (s.paging.cloneKernelAddressSpace s.kernelRoot).map fun r =>
      { s with paging := r.2, roots := if r.1 = 0 then s.roots else r.1 :: s.roots }
  | .map root vaddr paddr writable user =>
    (s.paging.mapPageInRoot root vaddr paddr writable user).map fun r => { s with paging := r.2 }
  | .unmap root vaddr => (s.paging.unmapPageInRoot root vaddr).map fun r => { s with paging := r.2 }

/-- The calls of the property: through the kernel root or a cloned root, on addresses of
the kernel half. -/
def Allowed (s : AddressSpaces) : Step → Prop
  | .clone => True
  | .map root vaddr _ _ _ => root ∈ s.roots ∧ 256 ≤ (pml4Index vaddr).val
  | .unmap root vaddr => root ∈ s.roots ∧ 256 ≤ (pml4Index vaddr).val

/-- Every root resolves the kernel half as the kernel root does, and the entries of every
PML4 refer to pages in use. -/
structure Agrees (s : AddressSpaces) : Prop where
  mapping : ∀ root ∈ s.roots, ∀ vaddr, 256 ≤ (pml4Index vaddr).val →
    s.paging.getMapping root vaddr = s.paging.getMapping s.kernelRoot vaddr
  used : ∀ root ∈ s.roots, ∀ i, (s.paging.mem root i).present = true →
    s.paging.pmm.used (s.paging.mem root i).page = true

/-- The kernel root is the only one. -/
def Alone (s : AddressSpaces) : Prop := ∀ root ∈ s.roots, root = s.kernelRoot

/-- The step creates no table below a PML4 that others share and takes none away, and
the page it frees has a bit in the bitmap and is neither a root nor a table. -/
def Safe (s : AddressSpaces) : Step → Prop
  | .clone => True
  | .map _ vaddr _ _ _ => s.Alone ∨ (s.paging.mem s.kernelRoot (pml4Index vaddr)).present = true
  | .unmap root vaddr =>
    ∀ e, MappedBy s.paging root vaddr e →
      (s.Alone ∨ ¬ Emptied s.paging s.kernelRoot vaddr [pml4Index vaddr]) ∧
      e.page < pageLimit ∧ e.page ∉ s.roots ∧ ¬ IsTable s.paging s.kernelRoot e.page
end AddressSpaces

/-! ## Tables and links -/
namespace Paging
lemma next_zero (e : TableEntry) : next 0 e = if e.present then some e.page else none := by
  simp [next]

/-- Every entry refers to the table it referred to. -/
def SameLinks (mem mem' : ℕ → Table) : Prop :=
  ∀ t i level, next level (mem' t i) = next level (mem t i)

lemma SameLinks.refl (mem : ℕ → Table) : SameLinks mem mem := fun _ _ _ => rfl

lemma SameLinks.descend {mem mm' : ℕ → Table} (h : SameLinks mem mm') (l r : ℕ)
    (p : List (Fin 512)) : Radix.descend next mm' l r p = Radix.descend next mem l r p :=
  Radix.descend_congr fun _ _ _ _ t _ => h t _ _

/-- Only user bits differ. -/
def UserOnly (mem mem' : ℕ → Table) : Prop :=
  ∀ t i, ∃ user, mem' t i = { mem t i with user := user }

namespace UserOnly
variable {mem m' m'' : ℕ → Table} (mem : ℕ → Table)
lemma refl : UserOnly mem mem := fun _ _ => ⟨_, rfl⟩

variable {mem} in
lemma trans (h : UserOnly mem m') (h' : UserOnly m' m'') : UserOnly mem m'' := by
  intro t i
  obtain ⟨user, hu⟩ := h t i
  obtain ⟨u', hu'⟩ := h' t i
  exact ⟨u', by rw [hu', hu]⟩

lemma sameLinks (h : UserOnly mem m') : SameLinks mem m' := by
  intro t i l
  obtain ⟨user, hu⟩ := h t i
  rw [hu]
  rfl

lemma foldl {α : Type*} {f : (ℕ → Table) → α → ℕ → Table}
    (hf : ∀ mem a, UserOnly mem (f mem a)) (l : List α) (mem : ℕ → Table) :
    UserOnly mem (l.foldl f mem) := by
  induction l generalizing mem with
  | nil => exact refl mem
  | cons a l ih => exact (hf mem a).trans (ih (f mem a))

lemma setUser (t : ℕ) (i : Fin 512) (user : Bool) :
    UserOnly mem (Radix.setEntry mem t i { mem t i with user := user }) := by
  intro t' i'
  rw [Radix.setEntry_apply]
  split_ifs with he
  · rw [he.1, he.2]
    exact ⟨user, rfl⟩
  · exact ⟨_, rfl⟩

lemma clearUserTable (t : ℕ) : UserOnly mem (Paging.clearUserTable mem t) := by
  intro t' i
  by_cases ht : t' = t
  · subst ht
    simp only [Paging.clearUserTable, update_self]
    split_ifs
    · exact ⟨false, rfl⟩
    · exact ⟨_, rfl⟩
  rw [Paging.clearUserTable, update_of_ne ht]
  exact ⟨_, rfl⟩

lemma clearUserPd (p : ℕ) : UserOnly mem (Paging.clearUserPd mem p) := by
  refine foldl (fun mem i => ?_) _ mem
  simp only []
  split_ifs
  · exact refl mem
  · exact setUser mem p i false
  · exact (setUser mem p i false).trans (clearUserTable _ _)

lemma clearUserPdpt (p : ℕ) : UserOnly mem (Paging.clearUserPdpt mem p) := by
  refine foldl (fun mem i => ?_) _ mem
  simp only []
  split_ifs
  · exact refl mem
  · exact setUser mem p i false
  · exact (setUser mem p i false).trans (clearUserPd _ _)

lemma clearKernelUserPermissions (r : ℕ) :
    UserOnly mem (Paging.clearKernelUserPermissions mem r) := by
  rw [Paging.clearKernelUserPermissions]
  split_ifs
  · exact refl mem
  refine foldl (fun mem i => ?_) _ mem
  simp only []
  split_ifs
  · exact refl mem
  · exact (setUser mem r i false).trans (clearUserPdpt _ _)
end UserOnly

/-- Cloning fails and at most marks a page used, or copies the upper half of the PML4 to
a free page. -/
lemma cloneKernelAddressSpace_cases (s : Paging) (k : ℕ) :
    (∃ s', s.cloneKernelAddressSpace k = some (0, s') ∧ s'.mem = s.mem ∧
      (∀ u, s.pmm.used u = true → s'.pmm.used u = true) ∧
      (s.pmm.used 0 = true → ∀ u, u < pageLimit → s.pmm.used u = true)) ∨
    ∃ page s', s.cloneKernelAddressSpace k = some (page, s') ∧ page ≠ 0 ∧
      s.pmm.used page = false ∧ (∀ u, s'.pmm.used u = (s.pmm.used u || decide (u = page))) ∧
      page < pageLimit ∧ UserOnly (Function.update s.mem page fun i =>
        if i.val < 256 then TableEntry.zero else s.mem k i) s'.mem := by
  unfold cloneKernelAddressSpace
  have ha := s.pmm.pmmAllocPages_one
  generalize s.pmm.pmmAllocPages 1 = result at ha
  obtain ⟨page, pmm, rfl, hlt, hf, hp⟩ | ⟨hall, rfl⟩ := ha
  · by_cases hz : page = 0
    · -- page 0 was free: it is marked used, and the caller sees a failure
      subst hz
      refine .inl ⟨{ s with pmm := pmm }, by rw [Nat.zero_mul]; rfl, rfl, fun u hu => ?_,
        fun hus => ?_⟩
      · rw [hp, hu, Bool.true_or]
      · rw [hf] at hus
        cases hus
    · have hne : page * pageSize ≠ 0 := Nat.mul_ne_zero hz (by decide)
      have hdiv := mul_pageSize_div page
      refine .inr ⟨page, { pmm := pmm, mem := clearKernelUserPermissions _ page }, ?_, hz, hf,
        hp, hlt, UserOnly.clearKernelUserPermissions _ page⟩
      simp only [if_neg hne, hdiv]
  · exact .inl ⟨s, rfl, rfl, fun _ hu => hu, fun _ => hall⟩

section
variable {s s' : Paging} {rt : ℕ}
/-- Mapping a page in the tables below one entry of the root leaves the root itself and
all pages that are no tables alone. -/
lemma Mapped.outside {i : Fin 512} {vd pd : UInt64} {w u o : Bool}
    (hm : Mapped s rt [i] vd pd w u o s') : Tree s' rt ∧ s'.mem rt = s.mem rt ∧
      ∀ t, s.pmm.used t = true → s'.pmm.used t = true ∧
        (¬ IsTable s rt t → s'.mem t = s.mem t ∧ ¬ IsTable s' rt t) := by
  have hr : ∀ p : Paging, p.tableAt rt [] = some rt := fun _ => rfl
  cases hm with
  | failed h =>
    exact ⟨h.tree, h.beside [] rt (by simp) (hr s) (by simp), fun t ht =>
      ⟨h.used t ht, h.other t ht⟩⟩
  | @done s1 pt h hp =>
    have hne : ∀ t, t = rt ∨ ¬ IsTable s1 rt t → t ≠ pt := by
      rintro t (rfl | ht) rfl
      · have := h.tree.path_eq (by simp) (length_pathOf vd).le (hr s1) hp
        exact absurd (congrArg length this) (by simp [length_pathOf])
      · exact ht ⟨_, (length_pathOf vd).le, hp⟩
    refine ⟨tree_setLeaf h.tree hp _ _, ?_, fun t ht => ⟨h.used t ht, fun hnot => ?_⟩⟩
    · exact (Radix.setEntry_of_ne _ (hne rt (.inl rfl)) _ _).trans
        (h.beside [] rt (by simp) (hr s) (by simp))
    obtain ⟨h1, h2⟩ := h.other t ht hnot
    refine ⟨(Radix.setEntry_of_ne _ (hne t (.inr h2)) _ _).trans h1, ?_⟩
    rwa [isTable_congr (tableAt_setLeaf h.tree hp _ _)]

lemma tableAt_of_shared {r : ℕ} {i : Fin 512} (h : next 0 (s.mem r i) = next 0 (s.mem rt i))
    (p : List (Fin 512)) : s.tableAt r (i :: p) = s.tableAt rt (i :: p) :=
  Radix.descend_cons_congr p h

/-- Unmapping through a root that shares its entry with `root`, where the entry stays. -/
lemma unmap_shared (h : Tree s rt) {r : ℕ} {vaddr : UInt64} {e : TableEntry}
    (hsh : next 0 (s.mem r (pml4Index vaddr)) = next 0 (s.mem rt (pml4Index vaddr)))
    (hr : r = rt ∨ ¬ IsTable s rt r) (he : MappedBy s r vaddr e)
    (hst : ¬ Emptied s rt vaddr [pml4Index vaddr]) :
    ∃ pt s', s.tableAt rt (pathOf vaddr) = some pt ∧ s.mem pt (ptIndex vaddr) = e ∧
      Pruned (s.setEntry pt (ptIndex vaddr) (clearedEntry e)) s' rt (Emptied s rt vaddr) ∧
      s.unmapPageInRoot r vaddr = (s'.freePage e.address).map (true, ·) := by
  obtain ⟨hr0, hp, pt, hpt, rfl⟩ := he
  obtain ⟨p, pd, hpp, hpd, hwa⟩ := walkAddress_of_tableAt hr0 hpt
  rw [tableAt_of_shared hsh] at hpp hpd
  have hp' : s.tableAt rt (pathOf vaddr) = some pt := (tableAt_of_shared hsh _).symm.trans hpt
  obtain ⟨s2, s3, s4, hr2, hr3, hr4, hp3, hem, hpr⟩ := collapse_chain h hpp hpd hp'
  have hhas : hasPresentEntries (s3.mem p) = true := by
    cases hh : hasPresentEntries (s3.mem p) with
    | true => rfl
    | false => exact absurd (hem.1 hh) hst
  -- the entry of the kernel root stays, and so does the one of `r`
  have hpa : ∀ t, next 0 (s3.mem t (pml4Index vaddr)) = some p →
      s3.collapse (some (t, pml4Index vaddr)) = some s3 := by
    intro t ht
    simp only [collapse, ← (next_eq_some ht).2, hhas, if_true]
  have hro3 : next 0 (s3.mem rt (pml4Index vaddr)) = some p :=
    (tableAt_singleton s3 rt _).symm.trans hp3
  obtain rfl : s3 = s4 := some.inj ((hpa rt hro3).symm.trans hr4)
  have hr4' : s3.collapse (some (r, pml4Index vaddr)) = some s3 := by
    rcases hr with rfl | hr
    · exact hr4
    refine hpa r ?_
    obtain ⟨-, -, hmem, -⟩ := hpr.before h hp'
    rw [hmem r hr, hsh, ← tableAt_singleton]
    exact hpp
  refine ⟨pt, s3, hp', rfl, hpr, ?_⟩
  rw [unmapPageInRoot, unmapPageInternal, if_neg hr0, hwa]
  simp only [hp, Bool.true_eq_false, if_false, hr2, hr3, hr4', bind_eq_bind, bind_some, if_true]
  cases s3.freePage (s.mem pt (ptIndex vaddr)).address <;> rfl

/-- Mapping through a root that shares its entry with `root`, where the entry is there. -/
lemma map_shared (h : Tree s rt) {r : ℕ} {vaddr : UInt64}
    (hsh : next 0 (s.mem r (pml4Index vaddr)) = next 0 (s.mem rt (pml4Index vaddr)))
    (hpr : (s.mem rt (pml4Index vaddr)).present = true) (p : UInt64) (w u : Bool) :
    ∃ ok s1 s', s.mapPageInRoot r vaddr p w u = some (ok, s') ∧
      s1.pmm = s.pmm ∧ SameLinks s.mem s1.mem ∧ Tree s1 rt ∧
      (s' = s1 ∨ Mapped s1 rt [pml4Index vaddr] vaddr p w u ok s') := by
  have hro : next 0 (s.mem rt (pml4Index vaddr)) = some (s.mem rt (pml4Index vaddr)).page := by
    rw [next_zero, if_pos hpr]
  obtain ⟨hp, -⟩ := next_eq_some (hsh.trans hro)
  rw [mapPageInRoot]
  split_ifs with hc
  · exact ⟨false, s, s, rfl, rfl, SameLinks.refl _, h, .inl rfl⟩
  -- the first table is there: at most its user bit is set
  obtain ⟨s1, hrun, hpmm, hl⟩ : ∃ s1 : Paging,
      s.ensureTable r (pml4Index vaddr) u true = some (true, s1) ∧ s1.pmm = s.pmm ∧
      SameLinks s.mem s1.mem := by
    rw [ensureTable, if_pos hp]
    cases u with
    | false => exact ⟨s, rfl, rfl, SameLinks.refl _⟩
    | true => exact ⟨_, rfl, rfl, (UserOnly.setUser s.mem r (pml4Index vaddr) true).sameLinks⟩
  have htr : Tree s1 rt := h.mono (fun pt _ => hl.descend 0 rt pt) fun t ht => by rwa [hpmm]
  have hpd : s1.tableAt rt [pml4Index vaddr] = some (s1.mem r (pml4Index vaddr)).page := by
    have hr : next 0 (s1.mem r (pml4Index vaddr)) = some (s1.mem r (pml4Index vaddr)).page := by
      obtain ⟨t, ht⟩ : ∃ t, next 0 (s1.mem r (pml4Index vaddr)) = some t :=
        ⟨_, (hl r _ 0).trans (hsh.trans hro)⟩
      rw [ht, (next_eq_some ht).2]
    rw [← hr]
    refine (tableAt_singleton s1 rt _).trans ?_
    exact (hl rt _ 0).trans (hsh.symm.trans (hl r _ 0).symm)
  obtain ⟨ok, s', hr', hma⟩ : ∃ ok s',
      s1.mapInPdpt (s1.mem r (pml4Index vaddr)).page vaddr p w u = some (ok, s') ∧
      Mapped s1 rt [pml4Index vaddr] vaddr p w u ok s' :=
    mapInPdpt_spec htr (prefix_refl _) hpd
  rw [hrun]
  exact ⟨ok, s1, s', hr', hpmm, hl, htr, .inr hma⟩
end
end Paging

/-! ## The invariant of the roots -/
namespace AddressSpaces
variable {s : AddressSpaces}
/-- The tables below the kernel root form a tree; a cloned root is none of them and has
the upper entries of the kernel root and no lower ones. -/
structure Shared (s : AddressSpaces) : Prop where
  kernelRoot_ne : s.kernelRoot ≠ 0
  tree : Tree s.paging s.kernelRoot
  kernelRoot_mem : s.kernelRoot ∈ s.roots
  clone : ∀ r ∈ s.roots, r ≠ s.kernelRoot → r ≠ 0 ∧ s.paging.pmm.used r = true ∧
    ¬ IsTable s.paging s.kernelRoot r ∧
    ∀ i : Fin 512, i.val < 256 → next 0 (s.paging.mem r i) = none
  share : ∀ r ∈ s.roots, ∀ i : Fin 512, 256 ≤ i.val →
    next 0 (s.paging.mem r i) = next 0 (s.paging.mem s.kernelRoot i)

namespace Shared
variable (h : s.Shared)
include h
lemma ne_zero {r : ℕ} (hr : r ∈ s.roots) : r ≠ 0 := by
  by_cases he : r = s.kernelRoot
  · exact he ▸ h.kernelRoot_ne
  · exact (h.clone r hr he).1

lemma outside {r : ℕ} (hr : r ∈ s.roots) :
    r = s.kernelRoot ∨ ¬ IsTable s.paging s.kernelRoot r := by
  by_cases he : r = s.kernelRoot
  · exact .inl he
  · exact .inr (h.clone r hr he).2.2.1

lemma agrees : s.Agrees where
  mapping r hr vaddr hv := by
    rw [getMapping_eq_mappingOf _ (h.ne_zero hr), getMapping_eq_mappingOf _ h.kernelRoot_ne]
    rw [pathOf, tableAt_of_shared (h.share r hr _ hv)]
  used r hr i hp := by
    have hne : next 0 (s.paging.mem r i) = some (s.paging.mem r i).page := by
      rw [next_zero, if_pos hp]
    by_cases hi : i.val < 256
    · by_cases he : r = s.kernelRoot
      · subst he
        exact h.tree.busy ⟨[i], by simp, (tableAt_singleton _ _ i).trans hne⟩
      · rw [(h.clone r hr he).2.2.2 i hi] at hne
        cases hne
    rw [h.share r hr i (by omega)] at hne
    exact h.tree.busy ⟨[i], by simp, (tableAt_singleton _ _ i).trans hne⟩

lemma of_alone (ha : s.Alone) {paging : Paging}
    (ht : Tree paging s.kernelRoot) : Shared { s with paging := paging } where
  __ := h
  tree := ht
  clone r hr hne := absurd (ha r hr) hne
  share r hr i _ := by rw [ha r hr]

/-- The PML4s keep their links, and no root becomes a table or free. -/
lemma of_links {paging : Paging} (ht : Tree paging s.kernelRoot)
    (hl : ∀ r ∈ s.roots, ∀ i : Fin 512, r ≠ s.kernelRoot ∨ 256 ≤ i.val →
      next 0 (paging.mem r i) = next 0 (s.paging.mem r i))
    (hro : ∀ r ∈ s.roots, r ≠ s.kernelRoot → s.paging.pmm.used r = true →
      ¬ IsTable s.paging s.kernelRoot r →
      paging.pmm.used r = true ∧ ¬ IsTable paging s.kernelRoot r) :
    Shared { s with paging := paging } where
  __ := h
  tree := ht
  clone r hr hne := by
    obtain ⟨h0, h1, h2, h3⟩ := h.clone r hr hne
    obtain ⟨h4, h5⟩ := hro r hr hne h1 h2
    exact ⟨h0, h4, h5, fun i hi => (hl r hr i (.inl hne)).trans (h3 i hi)⟩
  share r hr i hi :=
    (hl r hr i (.inr hi)).trans ((h.share r hr i hi).trans
      (hl s.kernelRoot h.kernelRoot_mem i (.inr hi)).symm)

/-! ## Steps -/
variable {v : UInt64}
/-- `pmm_map_page_in_root` below an entry that all roots have, or without other roots. -/
lemma map {ro : ℕ} (hro : ro ∈ s.roots) (hv : 256 ≤ (pml4Index v).val) (p : UInt64) (w u : Bool)
    (hsa : s.Safe (.map ro v p w u)) : ∃ s', s.step (.map ro v p w u) = some s' ∧ s'.Shared := by
  rcases hsa with ha | hpr
  · obtain rfl := ha ro hro
    obtain ⟨ok, paging, hrun, hma, -⟩ := mapPageInRoot_spec h.tree v p w u
    exact ⟨{ s with paging := paging }, by rw [step, hrun]; rfl, h.of_alone ha hma.tree⟩
  obtain ⟨ok, p1, paging, hrun, hp, hl, ht, hres⟩ :=
    map_shared h.tree (h.share ro hro _ hv) hpr p w u
  have hf : Shared { s with paging := p1 } := by
    refine h.of_links ht (fun r _ i _ => hl r i 0) fun r _ _ hu hnot => ?_
    refine ⟨hp ▸ hu, ?_⟩
    rwa [isTable_congr fun pt _ => hl.descend 0 _ pt]
  refine ⟨{ s with paging := paging }, by rw [step, hrun]; rfl, ?_⟩
  rcases hres with rfl | hma
  · exact hf
  obtain ⟨ht', hmem, hout⟩ := hma.outside
  refine hf.of_links ht' (fun r hr i _ => ?_) fun r _ _ hu hnot =>
    ⟨(hout r hu).1, ((hout r hu).2 hnot).2⟩
  by_cases he : r = s.kernelRoot
  · rw [he, hmem]
  obtain ⟨-, hu, hnot, -⟩ := hf.clone r hr he
  rw [((hout r hu).2 hnot).1]

omit h in
lemma freePage_page (p : Paging) {e : TableEntry} (h : e.page < pageLimit) :
    p.freePage e.address = some { p with pmm := p.pmm.markFree e.page } := by
  rw [← e.page_mul_pageSize]
  exact p.freePage_of_lt h

/-- `pmm_unmap_page_in_root` that leaves the entry of the PML4, or without other roots. -/
lemma unmap {ro : ℕ} (hro : ro ∈ s.roots)
    (hv : 256 ≤ (pml4Index v).val) (hsa : s.Safe (.unmap ro v)) :
    ∃ s', s.step (.unmap ro v) = some s' ∧ s'.Shared := by
  by_cases hex : ∃ e, MappedBy s.paging ro v e
  swap
  · refine ⟨s, ?_, h⟩
    rw [step, unmapPageInRoot, unmap_of_not_mapped (not_exists.1 hex)]
    rfl
  obtain ⟨e, he⟩ := hex
  obtain ⟨hst, hl, hnt, hno⟩ := hsa e he
  rcases hst with ha | hst
  · obtain rfl := ha ro hro
    obtain ⟨pt, p, hpt, -, hpr, hrun⟩ := unmap_of_mapped h.tree he true
    obtain ⟨-, hsub, -⟩ := hpr.before h.tree hpt
    refine ⟨{ s with paging := { p with pmm := p.pmm.markFree e.page } }, ?_,
      h.of_alone ha (tree_freePage hpr.tree fun ht => hno (hsub _ ht))⟩
    rw [step, unmapPageInRoot, hrun, if_pos rfl, freePage_page p hl]
    rfl
  obtain ⟨pt, p, hpt, -, hpr, hrun⟩ :=
    unmap_shared h.tree (h.share ro hro _ hv) (h.outside hro) he hst
  obtain ⟨hk, hsub, hmem, hb⟩ := hpr.before h.tree hpt
  refine ⟨{ s with paging := { p with pmm := p.pmm.markFree e.page } }, ?_,
    h.of_links (tree_freePage hpr.tree fun ht => hno (hsub _ ht)) (fun r hr i _ => ?_)
      fun r hr _ hu hr' => ⟨?_, fun ht => hr' (hsub r ht)⟩⟩
  · rw [step, hrun, freePage_page p hl]
    rfl
  · show next 0 (p.mem r i) = _
    rcases h.outside hr with rfl | hr'
    · -- no path of length one is taken away
      have hE : ¬ Emptied s.paging s.kernelRoot v [i] := by
        intro hE
        obtain ⟨pp, pd, pt, -, -, -, -, hp | ⟨-, hp | ⟨-, hp⟩⟩⟩ := id hE
        · exact absurd (congrArg length hp) (by simp [length_pathOf])
        · exact absurd (congrArg length hp) (by simp)
        · exact hst (hp ▸ hE)
      rw [← tableAt_singleton, ← tableAt_singleton, hk [i] (by simp) hE]
    · rw [hmem r hr']
  show (p.pmm.markFree e.page).used r = true
  have hne : r ≠ e.page := fun heq => hnt (heq ▸ hr)
  rw [Pmm.used_markFree, (hb r).2 ⟨hu, fun pa hlen _ hp => hr' ⟨pa, hlen, hp⟩⟩]
  simp [hne]

/-- `pmm_unmap_page_in_root` through the kernel root that takes an entry of the PML4
away: every other root keeps an entry for the freed table. -/
theorem unmap_separates {r : ℕ} (hr : r ∈ s.roots) (hne : r ≠ s.kernelRoot)
    (hv : 256 ≤ (pml4Index v).val) {e : TableEntry}
    (he : MappedBy s.paging s.kernelRoot v e) (hl : e.page < pageLimit)
    (hempty : Emptied s.paging s.kernelRoot v [pml4Index v]) :
    ∃ s', s.step (.unmap s.kernelRoot v) = some s' ∧ ¬ s'.Agrees := by
  obtain ⟨pt, p, hpt, -, hpr, hrun⟩ := unmap_of_mapped h.tree he true
  refine ⟨{ s with paging := { p with pmm := p.pmm.markFree e.page } }, ?_, fun ha => ?_⟩
  · rw [step, unmapPageInRoot, hrun, if_pos rfl, freePage_page p hl]
    rfl
  obtain ⟨pp, pd, p', hpd, -⟩ := id hempty
  obtain ⟨-, -, hmem, hb⟩ := hpr.before h.tree hpt
  obtain ⟨-, -, hnot, -⟩ := h.clone r hr hne
  -- the entry of `r` is the one it was
  have hnx : next 0 (p.mem r (pml4Index v)) = some pp := by
    rw [hmem r hnot, h.share r hr _ hv, ← tableAt_singleton]
    exact hpd
  obtain ⟨hp, hpa⟩ := next_eq_some hnx
  have hu : (p.pmm.markFree e.page).used (p.mem r (pml4Index v)).page = true :=
    ha.used r hr (pml4Index v) hp
  rw [← hpa, Pmm.used_markFree, Bool.and_eq_true] at hu
  exact ((hb pp).1 hu.1).2 _ (by simp) hempty hpd

/-- `pmm_clone_kernel_address_space`. -/
lemma cloned : ∃ s', s.step .clone = some s' ∧ s'.Shared := by
  rw [step]
  obtain ⟨p, hrun, hmem, hmo, -⟩ | ⟨page, p, hrun, hpa, hf, hp, -, hus⟩ :=
    s.paging.cloneKernelAddressSpace_cases s.kernelRoot
  · rw [hrun]
    have ht : ∀ pt, p.tableAt s.kernelRoot pt = s.paging.tableAt s.kernelRoot pt :=
      fun pt => by rw [tableAt, hmem, tableAt]
    refine ⟨_, rfl, h.of_links ?_ (fun r _ i _ => by rw [hmem]) fun r _ _ hud hnot =>
      ⟨hmo r hud, ?_⟩⟩
    · exact h.tree.mono (fun pt _ => ht pt) hmo
    · rwa [isTable_congr fun pt _ => ht pt]
  have hl := hus.sameLinks
  have hmo : ∀ u, s.paging.pmm.used u = true → p.pmm.used u = true := fun u hu => by
    rw [hp, hu, Bool.true_or]
  have hnot : ¬ IsTable s.paging s.kernelRoot page := h.tree.not_isTable hf
  have hfs : ∀ r ∈ s.roots, r ≠ page := by
    rintro r hr rfl
    by_cases he : r = s.kernelRoot
    · exact hnot ⟨[], by simp, congrArg some he.symm⟩
    rw [(h.clone r hr he).2.1] at hf
    cases hf
  have hpt : ∀ pt, pt.length ≤ 3 →
      p.tableAt s.kernelRoot pt = s.paging.tableAt s.kernelRoot pt := fun pt hlen =>
    (hl.descend 0 s.kernelRoot pt).trans (tableAt_update _ hnot hlen p.pmm)
  have hold : ∀ r ∈ s.roots, ∀ i, next 0 (p.mem r i) = next 0 (s.paging.mem r i) :=
    fun r hr i => by rw [hl r i 0, update_of_ne (hfs r hr)]
  have hnew : ∀ i, next 0 (p.mem page i) =
      if i.val < 256 then none else next 0 (s.paging.mem s.kernelRoot i) := by
    intro i
    rw [hl page i 0, update_self]
    split_ifs
    · exact next_of_not_present rfl
    · rfl
  have hisTable : ∀ r, ¬ IsTable s.paging s.kernelRoot r → ¬ IsTable p s.kernelRoot r :=
    fun r => (isTable_congr hpt r).not.2
  rw [hrun, map_some, if_neg hpa]
  refine ⟨_, rfl, ⟨h.kernelRoot_ne, ?_, mem_cons_of_mem _ h.kernelRoot_mem,
    fun r hr hne => ?_, fun r hr i hi => ?_⟩⟩
  · exact h.tree.mono hpt hmo
  · rcases mem_cons.1 hr with rfl | hr
    · refine ⟨hpa, ?_, hisTable r hnot, fun i hi => (hnew i).trans (if_pos hi)⟩
      show p.pmm.used r = true
      rw [hp]
      simp
    · obtain ⟨h0, h1, h2, h3⟩ := h.clone r hr hne
      exact ⟨h0, hmo r h1, hisTable r h2, fun i hi => (hold r hr i).trans (h3 i hi)⟩
  have hk := hold s.kernelRoot h.kernelRoot_mem i
  rcases mem_cons.1 hr with rfl | hr
  · exact ((hnew i).trans (if_neg (by omega))).trans hk.symm
  · exact (hold r hr i).trans ((h.share r hr i hi).trans hk.symm)

theorem step {a : Step} (ha : s.Allowed a) (hsa : s.Safe a) :
    ∃ s', s.step a = some s' ∧ s'.Shared := by
  cases a with
  | clone => exact h.cloned
  | map root v p writable user => exact h.map ha.1 ha.2 p writable user hsa
  | unmap root v => exact h.unmap ha.1 ha.2 hsa
end Shared

/-! ## Runs -/

/-- The states that a run of steps reaches, from a kernel root whose tables form a tree. -/
inductive Reached : AddressSpaces → Prop
  | start {s : AddressSpaces} (hroot : s.kernelRoot ≠ 0) (htree : Tree s.paging s.kernelRoot)
      (hroots : s.roots = [s.kernelRoot]) : Reached s
  | step {s s' : AddressSpaces} {a : Step} (h : Reached s) (hallow : s.Allowed a)
      (hsafe : s.Safe a) (hs : s.step a = some s') : Reached s'

lemma Reached.shared (h : Reached s) : s.Shared := by
  induction h with
  | @start s hrt ht hro =>
    have ha : ∀ r ∈ s.roots, r = s.kernelRoot := by simp [hro]
    exact ⟨hrt, ht, by simp [hro], fun r hr hne => absurd (ha r hr) hne,
      fun r hr i _ => by rw [ha r hr]⟩
  | step _ haw hsa hs ih =>
    obtain ⟨s', hs', hsh⟩ := ih.step haw hsa
    exact some.inj (hs'.symm.trans hs) ▸ hsh

/-- **The kernel half is shared.** In every state of a run of safe steps all roots
resolve the kernel half in the same way and refer to no freed page, and the next
safe step has a result. -/
theorem kernelHalf_agrees_of_safe (h : Reached s) :
    s.Agrees ∧ ∀ a, s.Allowed a → s.Safe a → ∃ s', s.step a = some s' ∧ s'.Agrees := by
  refine ⟨h.shared.agrees, fun a ha hsa => ?_⟩
  obtain ⟨s', hs', hsh⟩ := h.shared.step ha hsa
  exact ⟨s', hs', hsh.agrees⟩

/-! ## A clone before the last mapping of a table goes -/

/-- The kernel root in page 1 maps page 6 at the first address of the kernel half, and
only page 5 is free. -/
def oneMapping : AddressSpaces where
  paging := { fourTables 256 (pageEntry 6) with pmm := Pmm.pageBitmapInitialize.markFree 5 }
  kernelRoot := 1
  roots := [1]

lemma used_oneMapping (u : ℕ) : oneMapping.paging.pmm.used u = decide (u ≠ 5) := by
  show (Pmm.pageBitmapInitialize.markFree 5).used u = _
  rw [Pmm.used_markFree, used_pageBitmapInitialize, Bool.true_and]

lemma tree_oneMapping : Tree oneMapping.paging 1 :=
  tree_freePage (tree_fourTables 256 (pageEntry 6)) (not_isTable_fourTables le_rfl)

lemma reached_oneMapping : Reached oneMapping := .start (by decide) tree_oneMapping rfl

/-- The kernel root of `oneMapping` can be cloned. -/
theorem kernelHalf_agrees_of_safe_clone : Reached oneMapping ∧ oneMapping.Agrees ∧
      ∃ s', oneMapping.step .clone = some s' ∧ s'.Agrees := by
  obtain ⟨h1, h2⟩ := kernelHalf_agrees_of_safe reached_oneMapping
  exact ⟨reached_oneMapping, h1, h2 .clone trivial trivial⟩

/-- The tables of `fourTables` have one entry each. -/
lemma present_fourTables {t : ℕ} {i tp : Fin 512} {l : TableEntry} (ht : t ≠ 1)
    (h : ((fourTables tp l).mem t i).present = true) : i = 0 := by
  by_contra hne
  simp [fourTables, ht, hne, TableEntry.zero] at h

/-- The clone keeps its entry for the table in page 2 when the last mapping is taken away
through the kernel root, and page 2 is free then. -/
theorem kernelHalf_not_agrees : Reached oneMapping ∧ oneMapping.Allowed .clone ∧
      ∃ s₁ s₂, oneMapping.step .clone = some s₁ ∧
        s₁.Allowed (.unmap 1 0xffff800000000000) ∧
        s₁.step (.unmap 1 0xffff800000000000) = some s₂ ∧ ¬ s₂.Agrees := by
  refine ⟨reached_oneMapping, trivial, ?_⟩
  obtain ⟨s₁, hst, hsh⟩ := reached_oneMapping.shared.cloned
  obtain ⟨p, -, -, -, ha⟩ | ⟨page, p, hr, hpg, hf, -, -, hu⟩ :=
    oneMapping.paging.cloneKernelAddressSpace_cases 1
  · have := ha (by rw [used_oneMapping]; rfl) 5 (by rw [pageLimit_eq]; decide)
    rw [used_oneMapping] at this
    exact absurd this (by decide)
  have hl := hu.sameLinks
  have hfi : page = 5 := by
    rw [used_oneMapping] at hf
    simpa using hf
  subst hfi
  have hs1 : s₁ = { paging := p, kernelRoot := 1, roots := [5, 1] } := by
    rw [step, show oneMapping.kernelRoot = 1 from rfl, hr] at hst
    exact (some.inj hst).symm
  subst hs1
  have hp : pathOf 0xffff800000000000 = [256, 0, 0] := by decide
  have hp4 : pml4Index 0xffff800000000000 = 256 := by decide
  have hpt : ptIndex 0xffff800000000000 = 0 := by decide
  -- the tables are those of `oneMapping`, apart from user bits
  have hmem : ∀ t i, t ≠ 5 → next 0 (p.mem t i) =
      next 0 ((fourTables 256 (pageEntry 6)).mem t i) := by
    intro t i ht
    rw [hl t i 0, update_of_ne ht]
    rfl
  have hta : ∀ pt, pt.length ≤ 3 →
      p.tableAt 1 pt = (fourTables 256 (pageEntry 6)).tableAt 1 pt := fun pt hlen =>
    (hl.descend 0 1 pt).trans
      (tableAt_update _ (not_isTable_fourTables le_rfl) hlen p.pmm)
  have hon : ∀ t, t ≠ 1 → t ≠ 5 → OnlyEntry (p.mem t) 0 := by
    intro t h1 h5 j hj
    have hne := hmem t j h5
    rw [next_zero, if_pos hj] at hne
    exact present_fourTables h1 (next_eq_some hne.symm).1
  obtain ⟨h2, h3, h4⟩ := tableAt_fourTables 256 (pageEntry 6)
  have hle : next 0 (p.mem 4 0) = some 6 := (hmem 4 0 (by decide)).trans rfl
  obtain ⟨hpr, hsix⟩ := next_eq_some hle
  have hma : MappedBy p 1 0xffff800000000000 (p.mem 4 0) :=
    ⟨by decide, hpr, 4, by rw [hp, hta _ (by simp), h4], by rw [hpt]⟩
  have he : Emptied p 1 0xffff800000000000 [pml4Index 0xffff800000000000] := by
    have hpp : pdptIndex 0xffff800000000000 = 0 := by decide
    have hpd : pdIndex 0xffff800000000000 = 0 := by decide
    rw [Emptied, hp, hp4, hpp, hpd, hpt]
    exact ⟨2, 3, 4, by rw [hta _ (by simp), h2], by rw [hta _ (by simp), h3],
      by rw [hta _ (by simp), h4], hon 4 (by decide) (by decide),
      .inr ⟨hon 3 (by decide) (by decide), .inr ⟨hon 2 (by decide) (by decide), rfl⟩⟩⟩
  obtain ⟨s₂, hs2, hnot⟩ := hsh.unmap_separates (r := 5) (by simp) (by simp)
    (by rw [hp4]; decide) hma (by rw [← hsix, pageLimit_eq]; decide) he
  exact ⟨_, s₂, hst, ⟨by simp, by rw [hp4]; decide⟩, hs2, hnot⟩
end AddressSpaces
end Menios.Mem
