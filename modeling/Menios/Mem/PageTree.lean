import Menios.Mem.PageTable

/-!
# The tree of page tables below a root

`tableAt s root path` is the table that a path of indices leads to. `Tree` says that
the tables within three steps of the root are distinct pages, all marked used. The
lemmas follow the change that `pmm_map_page_in_root` makes above the page tables: an
entry gets a new empty table (`ensureTable_spec`).
-/

namespace Menios.Mem
open Common List Option TableEntry Radix Function

/-! ## Pages of the allocator -/
namespace Pmm
lemma fits_one {m : Pmm} {p : ℕ} (hp : p < pageLimit) (hf : m.used p = false) :
    Fits m (request 1 pageSize.toUInt64 (2 ^ 64 - 1)) p := by
  have hcount : (request 1 pageSize.toUInt64 (2 ^ 64 - 1)).pageCount = 1 := by
    rw [request]
    rfl
  have ha : alignmentPages pageSize.toUInt64 = 1 := by decide
  have hmax : (2 ^ 64 - 1 : UInt64).toNat = 18446744073709551615 := by decide +kernel
  refine ⟨?_, fun other h1 h2 => ?_, ?_⟩
  · rw [request, ha]
    exact one_dvd p
  · rw [hcount] at h2
    obtain rfl : other = p := by omega
    exact hf
  rw [hcount, request]
  show _ ≤ (2 ^ 64 - 1 : UInt64).toNat + 1
  rw [hmax]
  rw [pageLimit_eq] at hp
  simp only [pageSize]
  omega

lemma pmmAllocPages_one (m : Pmm) :
    (∃ page m', m.pmmAllocPages 1 = some (page * pageSize, m') ∧ page < pageLimit ∧
      m.used page = false ∧ ∀ other, m'.used other = (m.used other || decide (other = page))) ∨
    (∀ page, page < pageLimit → m.used page = true) ∧ m.pmmAllocPages 1 = some (0, m) := by
  have hcount : 0 < (1 : UInt64).toNat := by decide
  obtain ⟨place, he, hf, -, hr⟩ | ⟨hno, hr⟩ :=
    pmmAllocInternal_cases m pageSize.toUInt64 (2 ^ 64 - 1) hcount
  · left
    obtain ⟨m', hm', hma, -⟩ :=
      m.setPagesUsed_spec he (fun _ => True) trivial (fun _ _ _ _ => trivial)
    refine ⟨place, m', ?_, ?_, hf.free place le_rfl ?_, fun other => ?_⟩
    · rw [pmmAllocPages, hr, hm']
      rfl
    · omega
    · exact Nat.lt_add_of_pos_right hcount
    · rw [hma other]
      have hone : place ≤ other ∧ other < place + (1 : UInt64).toNat ↔ other = place := by
        show place ≤ other ∧ other < place + 1 ↔ _
        omega
      simp only [hone]
  right
  refine ⟨fun page hp => ?_, hr⟩
  by_contra hfr
  exact hno page hp (fits_one hp (Bool.eq_false_iff.2 hfr))
end Pmm

namespace TableEntry
lemma address_eq (e : TableEntry) : e.address = e.base.toNat * 2 ^ 12 % 2 ^ 40 := by
  rw [address, BitVec.toNat_shiftLeft, Nat.shiftLeft_eq]

lemma address_lt (e : TableEntry) : e.address < 2 ^ 40 := by
  rw [address_eq]
  omega

lemma page_mul_pageSize (e : TableEntry) : e.page * pageSize = e.address := by
  rw [page, address_eq]
  simp only [pageSize]
  omega
end TableEntry

namespace Paging
variable (s : Paging)
lemma freePage_of_lt {p : ℕ} (h : p < pageLimit) :
    s.freePage (p * pageSize) = some { s with pmm := s.pmm.markFree p } := by
  have hmod : (p * pageSize + 0 * pageSize) % 2 ^ 64 = p * pageSize := by
    rw [pageLimit_eq] at h
    simp only [pageSize]
    omega
  have hlt : p * pageSize < pageLimit * pageSize := Nat.mul_lt_mul_of_pos_right h (by decide)
  have hf := s.pmm.setPageFree_of_lt hlt
  rw [Nat.mul_div_cancel _ (by decide)] at hf
  rw [freePage, Pmm.pmmFreePages]
  simp only [range_one, foldlM_cons, foldlM_nil, hmod, hf]
  rfl

lemma freePage_of_le {p : ℕ} (h : pageLimit ≤ p)
    (ha : p * pageSize < 2 ^ 64) : s.freePage (p * pageSize) = none := by
  have hmod : (p * pageSize + 0 * pageSize) % 2 ^ 64 = p * pageSize := by
    rw [Nat.zero_mul, Nat.add_zero, Nat.mod_eq_of_lt ha]
  have hno : s.pmm.setPageFree (p * pageSize) = none := by
    rw [Pmm.setPageFree, Nat.mul_div_cancel _ (by decide), if_neg (Nat.not_lt.2 h)]
  rw [freePage, Pmm.pmmFreePages]
  simp only [range_one, foldlM_cons, foldlM_nil, hmod, hno]
  rfl

/-! ## Tables at paths -/

/-- The table an entry of level `level` refers to, as `pmm_walk_address` follows it:
an entry of the PML4 is never a large page. -/
def next (level : ℕ) (e : TableEntry) : Option ℕ :=
  if e.present = true ∧ ¬ (level ≠ 0 ∧ e.largePage = true) then some e.page else none

lemma next_of_not_present {l : ℕ} {e : TableEntry} (h : e.present = false) : next l e = none := by
  simp [next, h]

lemma next_eq_some {l t : ℕ} {e : TableEntry} (h : next l e = some t) :
    e.present = true ∧ t = e.page := by
  rw [next] at h
  split_ifs at h with hp
  exact ⟨hp.1, (Option.some.inj h).symm⟩

/-- The table at the end of a path. -/
def tableAt (root : ℕ) (path : List (Fin 512)) : Option ℕ := descend next s.mem 0 root path

/-- The path of an address to its page table. -/
def pathOf (vaddr : UInt64) : List (Fin 512) := [pml4Index vaddr, pdptIndex vaddr, pdIndex vaddr]

/-- Two addresses are on one page: the tables translate bits 12 to 47. -/
def SamePage (vaddr vaddr' : UInt64) : Prop :=
  pathOf vaddr = pathOf vaddr' ∧ ptIndex vaddr = ptIndex vaddr'

lemma tableAt_append (root : ℕ) (path : List (Fin 512)) (i : Fin 512) :
    s.tableAt root (path ++ [i]) =
      (s.tableAt root path).bind fun t => next path.length (s.mem t i) := by
  rw [tableAt, descend_append]
  simp [descend, tableAt]

variable {path : List (Fin 512)}
lemma tableAt_append_some {s : Paging} {root t : ℕ}
    (h : s.tableAt root path = some t) (i : Fin 512) :
    s.tableAt root (path ++ [i]) = next path.length (s.mem t i) := by
  rw [tableAt_append, h]
  rfl

lemma tableAt_singleton (root : ℕ) (i : Fin 512) : s.tableAt root [i] = next 0 (s.mem root i) :=
  tableAt_append_some (show s.tableAt root [] = some root from rfl) i

variable {root : ℕ}
lemma tableAt_append_none {s : Paging} (h : s.tableAt root path = none) (r : List (Fin 512)) :
    s.tableAt root (path ++ r) = none := by
  rw [tableAt] at h
  rw [tableAt, descend_append, h]
  rfl

lemma tableAt_below {s : Paging} {root t : ℕ}
    (h : s.tableAt root path = some t) {i : Fin 512} (hi : (s.mem t i).present = false)
    (r : List (Fin 512)) : s.tableAt root (path ++ i :: r) = none := by
  rw [← singleton_append, ← append_assoc]
  refine tableAt_append_none ?_ r
  rw [tableAt_append_some h, next_of_not_present hi]

/-- The page table that `pmm_walk_address` finds. -/
lemma ptEntry_walkAddress (hr : root ≠ 0) (v : UInt64) : (s.walkAddress root v).ptEntry =
      (s.tableAt root (pathOf v)).map (·, ptIndex v) := by
  simp only [walkAddress, if_neg hr, tableAt, pathOf, descend]
  split_ifs with h4 h3 h2
  · simp [next, h4]
  · rcases h3 with h3 | h3 <;> simp [next, h4, h3]
  · rw [not_or] at h3
    rcases h2 with h2 | h2 <;> simp [next, h4, h3, h2]
  rw [not_or] at h3 h2
  simp [next, h4, h3, h2]

lemma getMapping_eq (hr : root ≠ 0) (v : UInt64) :
    s.getMapping root v = (s.tableAt root (pathOf v)).bind fun p =>
      if (s.mem p (ptIndex v)).present then
        some ((s.mem p (ptIndex v)).address, (s.mem p (ptIndex v)).writable,
          (s.mem p (ptIndex v)).user) else none := by
  rw [getMapping, ptEntry_walkAddress s hr]
  cases s.tableAt root (pathOf v) <;> rfl

/-! ## The tree property -/

/-- The tables within three steps of the root are pages of the bitmap marked used, and
no two paths lead to one table. -/
structure Tree (s : Paging) (root : ℕ) : Prop where
  used : ∀ path t, path.length ≤ 3 → s.tableAt root path = some t →
    t < pageLimit ∧ s.pmm.used t = true
  distinct : Radix.Distinct next s.mem root 3

/-- Page `t` is a table of the root. -/
def IsTable (root t : ℕ) : Prop := ∃ path, path.length ≤ 3 ∧ s.tableAt root path = some t

lemma isTable_congr {s s' : Paging}
    (h : ∀ path, path.length ≤ 3 → s'.tableAt root path = s.tableAt root path) (t : ℕ) :
    IsTable s' root t ↔ IsTable s root t :=
  exists_congr fun path => and_congr_right fun hl => by rw [h path hl]

namespace Tree
variable {s : Paging} {root : ℕ} (h : Tree s root)
include h
lemma busy {t : ℕ} (ht : IsTable s root t) : s.pmm.used t = true := by
  obtain ⟨path, hl, hp⟩ := ht
  exact (h.used path t hl hp).2

lemma path_eq {path p' : List (Fin 512)} {t : ℕ}
    (hl : path.length ≤ 3) (hl' : p'.length ≤ 3) (ht : s.tableAt root path = some t)
    (ht' : s.tableAt root p' = some t) : path = p' :=
  h.distinct path p' t hl hl' ht ht'

lemma not_isTable {t : ℕ} (ht : s.pmm.used t = false) : ¬ IsTable s root t := by
  intro hta
  rw [h.busy hta] at ht
  cases ht

lemma congr {s' : Paging}
    (ht : ∀ path, path.length ≤ 3 → s'.tableAt root path = s.tableAt root path)
    (hu : ∀ t, IsTable s root t → s'.pmm.used t = true) : Tree s' root where
  used path t hl hp := by
    rw [ht path hl] at hp
    exact ⟨(h.used path t hl hp).1, hu t ⟨path, hl, hp⟩⟩
  distinct path path' t hl hl' hp hp' := by
    have h1 := ht path hl
    have h2 := ht path' hl'
    exact h.path_eq hl hl' (h1.symm.trans hp) (h2.symm.trans hp')

lemma mono {s' : Paging}
    (hta : ∀ path, path.length ≤ 3 → s'.tableAt root path = s.tableAt root path)
    (hu : ∀ t, s.pmm.used t = true → s'.pmm.used t = true) : Tree s' root :=
  h.congr hta fun t ht => hu t (h.busy ht)

/-- An entry of table `t` is written: paths that do not go through it stay. -/
lemma tableAt_setEntry {path : List (Fin 512)} {t : ℕ} (hl : path.length ≤ 3)
    (ht : s.tableAt root path = some t) (i : Fin 512) (e : TableEntry)
    {o : List (Fin 512)} (hot : o.length ≤ 3) (hnot : ¬ path ++ [i] <+: o) :
    (s.setEntry t i e).tableAt root o = s.tableAt root o := by
  refine descend_setEntry_of_not_through fun before after hsp hb => hnot ?_
  have hle : before.length ≤ 3 := by
    have := congrArg List.length hsp
    simp at this
    omega
  have he : before = path := h.path_eq hle hl hb ht
  refine ⟨after, ?_⟩
  rw [hsp, he]
  simp
end Tree

lemma tableAt_update {s : Paging} {root t : ℕ} (tb : Table) (ht : ¬ IsTable s root t)
    (hl : path.length ≤ 3) (pmm : Pmm) :
    tableAt { pmm := pmm, mem := update s.mem t tb } root path = s.tableAt root path := by
  refine descend_update_of_not_visited fun before i after hsp hb => ht ?_
  refine ⟨before, ?_, hb⟩
  have := congrArg List.length hsp
  simp at this
  omega

/-! ## Adding a table -/

/-- The tree has the tables it had and perhaps new empty ones. Page tables keep their
contents, and so do tables that are not below the path `top` and pages in use that
are no tables. -/
structure Grows (s s' : Paging) (root : ℕ) (top : List (Fin 512)) : Prop where
  tree : Tree s' root
  keep : ∀ path t, path.length ≤ 3 → s.tableAt root path = some t → s'.tableAt root path = some t
  leaf : ∀ path t, path.length = 3 → s.tableAt root path = some t → s'.mem t = s.mem t
  fresh : ∀ path t, path.length = 3 → s.tableAt root path = none →
    s'.tableAt root path = some t → ∀ i, (s'.mem t i).present = false
  beside : ∀ path t, path.length ≤ 3 → s.tableAt root path = some t → ¬ top <+: path →
    s'.mem t = s.mem t
  other : ∀ t, s.pmm.used t = true → ¬ IsTable s root t → s'.mem t = s.mem t ∧ ¬ IsTable s' root t
  used : ∀ t, s.pmm.used t = true → s'.pmm.used t = true

namespace Grows
variable {s s' s'' : Paging} {root : ℕ} {tp : List (Fin 512)}
lemma refl (h : Tree s root) (tp : List (Fin 512)) : Grows s s root tp :=
  ⟨h, fun _ _ _ ht => ht, fun _ _ _ _ => rfl, fun _ _ _ h1 h2 => by simp [h1] at h2,
    fun _ _ _ _ _ => rfl, fun _ _ ht => ⟨rfl, ht⟩, fun _ ht => ht⟩

lemma trans (h : Grows s s' root tp) (h' : Grows s' s'' root tp) : Grows s s'' root tp where
  tree := h'.tree
  keep path t hl ht := h'.keep path t hl (h.keep path t hl ht)
  leaf path t hl ht := (h'.leaf path t hl (h.keep path t hl.le ht)).trans (h.leaf path t hl ht)
  fresh path t hl hno ht i := by
    cases hmid : s'.tableAt root path with
    | none => exact h'.fresh path t hl hmid ht i
    | some t' =>
      obtain rfl : t' = t := Option.some.inj ((h'.keep path t' hl.le hmid).symm.trans ht)
      rw [h'.leaf path t' hl hmid]
      exact h.fresh path t' hl hno hmid i
  beside path t hl ht hnot :=
    (h'.beside path t hl (h.keep path t hl ht) hnot).trans (h.beside path t hl ht hnot)
  other t hu ht := by
    obtain ⟨h1, h2⟩ := h.other t hu ht
    obtain ⟨h3, h4⟩ := h'.other t (h.used t hu) h2
    exact ⟨h3.trans h1, h4⟩
  used t ht := h'.used t (h.used t ht)

lemma getMapping (h : Grows s s' root tp) (hr : root ≠ 0) (v : UInt64) :
    s'.getMapping root v = s.getMapping root v := by
  rw [getMapping_eq s' hr, getMapping_eq s hr]
  cases ht : s.tableAt root (pathOf v) with
  | some t => rw [h.keep _ t (by simp [pathOf]) ht, bind_some, bind_some,
      h.leaf _ t (by simp [pathOf]) ht]
  | none =>
    cases ht' : s'.tableAt root (pathOf v) with
    | none => rfl
    | some t => simp [h.fresh _ t (by simp [pathOf]) ht ht' (ptIndex v)]
end Grows

section
variable {s : Paging} {root t : ℕ} {path top : List (Fin 512)} {e : TableEntry}
/-- Only bits that `next` does not look at change in an entry above the page tables. -/
lemma grows_setFlags (h : Tree s root) (htop : top <+: path) (hl : path.length ≤ 2)
    (ht : s.tableAt root path = some t) (i : Fin 512) (he : ∀ l, next l e = next l (s.mem t i)) :
    Grows s (s.setEntry t i e) root top := by
  have hta : ∀ other, (s.setEntry t i e).tableAt root other = s.tableAt root other :=
    fun other => descend_setEntry_of_next he 0 root other
  refine ⟨h.mono (fun other _ => hta other) fun _ hu => hu, fun other u _ hu => ?_,
    fun other u hot hu => ?_, fun other u _ hno hu => ?_,
    fun other u hot hu hnot => ?_, fun u _ hu => ⟨?_, ?_⟩, fun _ hu => hu⟩
  · rw [hta]
    exact hu
  · refine setEntry_of_ne _ (fun heq => ?_) i e
    subst heq
    have := h.path_eq (by omega) (by omega) hu ht
    rw [this] at hot
    omega
  · rw [hta, hno] at hu
    cases hu
  · refine setEntry_of_ne _ (fun heq => hnot ?_) i e
    subst heq
    exact h.path_eq hot (by omega) hu ht ▸ htop
  · refine setEntry_of_ne _ (fun heq => hu ?_) i e
    exact heq ▸ ⟨path, by omega, ht⟩
  · rwa [isTable_congr fun other _ => hta other]

lemma grows_pmm (h : Tree s root) {pmm : Pmm} (hp : ∀ u, s.pmm.used u = true → pmm.used u = true) :
    Grows s { s with pmm := pmm } root top := by
  refine ⟨h.mono (fun _ _ => rfl) hp, fun _ _ _ hu => hu, fun _ _ _ _ => rfl,
    fun _ _ _ hno hu => ?_, fun _ _ _ _ _ => rfl, fun u _ hu => ⟨rfl, hu⟩, hp⟩
  exact absurd (hno.symm.trans hu) (by simp)

lemma grows_newTable (h : Tree s root) (htop : top <+: path) (hl : path.length ≤ 2)
    (ht : s.tableAt root path = some t) (i : Fin 512) (hi : (s.mem t i).present = false)
    {pg : ℕ} (hpg : pg < pageLimit) (hf : s.pmm.used pg = false) {pmm : Pmm}
    (hpmm : ∀ u, pmm.used u = (s.pmm.used u || decide (u = pg))) (he : e.page = pg) :
    Grows s (setEntry { pmm := pmm, mem := update s.mem pg fun _ => zero } t i e) root top := by
  have hnot : ¬ IsTable s root pg := h.not_isTable hf
  have htne : t ≠ pg := fun heq => hnot (heq ▸ ⟨path, by omega, ht⟩)
  obtain ⟨s1, hs1⟩ : ∃ s1 : Paging, s1 =
      { pmm := pmm, mem := update s.mem pg fun _ => zero } := ⟨_, rfl⟩
  rw [← hs1]
  have hta1 : ∀ other, other.length ≤ 3 → s1.tableAt root other = s.tableAt root other := by
    intro other hot
    rw [hs1]
    exact tableAt_update _ hnot hot pmm
  have hmo : ∀ u, s.pmm.used u = true → s1.pmm.used u = true := by
    intro u hu
    rw [hs1]
    simp [hpmm, hu]
  have htr1 : Tree s1 root := h.mono hta1 hmo
  have ht1 : s1.tableAt root path = some t := (hta1 path (by omega)).trans ht
  have hmem : ∀ u, u ≠ t → u ≠ pg → (s1.setEntry t i e).mem u = s.mem u := by
    intro u hut hup
    show Radix.setEntry s1.mem t i e u = s.mem u
    rw [Radix.setEntry_of_ne _ hut, hs1]
    simp [hup]
  -- the new page has no present entry
  have hz : ∀ j, ((s1.setEntry t i e).mem pg j).present = false := by
    intro j
    show ((Radix.setEntry s1.mem t i e) pg j).present = false
    rw [Radix.setEntry_of_ne _ (Ne.symm htne), hs1]
    simp [zero]
  have hpa : (s1.setEntry t i e).tableAt root path = some t := by
    rw [htr1.tableAt_setEntry (by omega) ht1 i e (by omega)]
    · exact ht1
    intro hpre
    have := hpre.length_le
    simp at this
  -- only the path through the entry can lead anywhere new, and it ends at the new page
  have hth : ∀ r u, (s1.setEntry t i e).tableAt root (path ++ i :: r) = some u →
      r = [] ∧ u = pg := by
    intro r u hu
    have hmid : (s1.setEntry t i e).tableAt root (path ++ [i]) = next path.length e := by
      rw [tableAt_append_some hpa]
      congr 1
      exact Radix.setEntry_same _ _ _ _
    cases hn : next path.length e with
    | none =>
      rw [← singleton_append, ← append_assoc, tableAt_append_none (hmid.trans hn)] at hu
      cases hu
    | some u' =>
      have hu' : u' = pg := (next_eq_some hn).2.trans he
      rw [hn, hu'] at hmid
      cases r with
      | nil => exact ⟨rfl, Option.some.inj (hu.symm.trans hmid)⟩
      | cons j r =>
        rw [← singleton_append, ← append_assoc, tableAt_below hmid (hz j)] at hu
        cases hu
  have hold : ∀ other, other.length ≤ 3 → ¬ path ++ [i] <+: other →
      (s1.setEntry t i e).tableAt root other = s.tableAt root other := by
    intro other hot hpre
    rw [htr1.tableAt_setEntry (by omega) ht1 i e hot hpre, hta1 other hot]
  have hc : ∀ other u, other.length ≤ 3 → (s1.setEntry t i e).tableAt root other = some u →
      s.tableAt root other = some u ∨ other = path ++ [i] ∧ u = pg := by
    intro other u hot hu
    by_cases hpre : path ++ [i] <+: other
    · obtain ⟨r, rfl⟩ := hpre
      rw [append_assoc] at hu ⊢
      obtain ⟨rfl, rfl⟩ := hth r u hu
      exact .inr ⟨rfl, rfl⟩
    rw [hold other hot hpre] at hu
    exact .inl hu
  refine ⟨⟨fun other u hot hu => ?_, fun p p' u hp hp' hu hu' => ?_⟩, fun other u hot hu => ?_,
    fun other u hot hu => ?_, fun other u hot hn hu => ?_,
    fun other u hot hu hb => ?_, fun u hus hu => ⟨?_, ?_⟩, fun u hu => hmo u hu⟩
  · rcases hc other u hot hu with ho' | ⟨-, rfl⟩
    · obtain ⟨h1, h2⟩ := h.used other u hot ho'
      exact ⟨h1, hmo u h2⟩
    · refine ⟨hpg, ?_⟩
      show s1.pmm.used u = true
      rw [hs1]
      simp [hpmm]
  · rcases hc p u hp hu with h1 | ⟨h1, h1'⟩ <;> rcases hc p' u hp' hu' with h2 | ⟨h2, h2'⟩
    · exact h.path_eq hp hp' h1 h2
    · exact absurd ⟨p, hp, h2' ▸ h1⟩ hnot
    · exact absurd ⟨p', hp', h1' ▸ h2⟩ hnot
    · rw [h1, h2]
  · rw [hold other hot]
    · exact hu
    · rintro ⟨r, rfl⟩
      rw [append_assoc] at hu
      exact absurd ((tableAt_below ht hi r).symm.trans hu) (by simp)
  · have hune : u ≠ t := by
      rintro rfl
      have := h.path_eq (by omega) (by omega) hu ht
      rw [this] at hot
      omega
    exact hmem u hune fun heq => hnot (heq ▸ ⟨other, by omega, hu⟩)
  · rcases hc other u (by omega) hu with ho' | ⟨-, rfl⟩
    · exact absurd (hn.symm.trans ho') (by simp)
    · exact hz
  · have hune : u ≠ t := by
      rintro rfl
      exact hb (h.path_eq hot (by omega) hu ht ▸ htop)
    exact hmem u hune fun heq => hnot (heq ▸ ⟨other, hot, hu⟩)
  · refine hmem u (fun heq => hu (heq ▸ ⟨path, by omega, ht⟩)) ?_
    rintro rfl
    rw [hf] at hus
    cases hus
  rintro ⟨p, hp, hpu⟩
  rcases hc p u hp hpu with ho' | ⟨-, rfl⟩
  · exact hu ⟨p, hp, ho'⟩
  rw [hf] at hus
  cases hus

lemma page_of_base {p : ℕ} (h : p < pageLimit) (he : e.base = BitVec.ofNat 40 p) : e.page = p := by
  rw [TableEntry.page, TableEntry.address_eq, he, BitVec.toNat_ofNat]
  rw [pageLimit_eq] at h
  simp only [pageSize]
  omega

/-- What `ensureTable` does: it writes the user bit of an entry that is there, fails without
changing a table, or takes a free page for a new table. -/
lemma ensureTable_cases (s : Paging) (t : ℕ) (i : Fin 512) (user k : Bool) :
    ((s.mem t i).present = true ∧ ∃ u', s.ensureTable t i user k =
        some (true, s.setEntry t i { s.mem t i with user := u' })) ∨
      (∃ pmm : Pmm, s.ensureTable t i user k = some (false, { s with pmm := pmm }) ∧
        (∀ u, s.pmm.used u = true → pmm.used u = true) ∧
        (s.pmm.used 0 = true → ∀ u, u < pageLimit → s.pmm.used u = true)) ∨
      (s.mem t i).present = false ∧ ∃ page pmm u', page < pageLimit ∧
        s.pmm.used page = false ∧ (∀ u, pmm.used u = (s.pmm.used u || decide (u = page))) ∧
        s.ensureTable t i user k = some (true,
          { pmm := pmm, mem := Radix.setEntry (update s.mem page fun _ => zero)
              t i { (update s.mem page fun _ => zero) t i with
                present := true
                writable := true
                user := u', base := BitVec.ofNat 40 page } }) := by
  unfold ensureTable
  cases hp : (s.mem t i).present with
  | true =>
    refine .inl ⟨rfl, ?_⟩
    cases user with
    | true => exact ⟨true, by simp⟩
    | false =>
      refine ⟨(s.mem t i).user, ?_⟩
      have hse : s.setEntry t i { s.mem t i with user := (s.mem t i).user } = s := by
        rw [setEntry, Radix.setEntry]
        simp
      simp [hse]
  | false =>
    right
    simp only [Bool.false_eq_true, if_false]
    obtain ⟨page, pmm, hr, hpg, hf, hpmm⟩ | ⟨ha, hr⟩ := s.pmm.pmmAllocPages_one
    · rw [hr]
      by_cases hz : page * pageSize = 0
      · left
        refine ⟨pmm, by simp [hz], fun u hu => by simp [hpmm, hu], fun hze => ?_⟩
        obtain rfl : page = 0 := by simpa [pageSize] using hz
        rw [hf] at hze
        cases hze
      · have hdiv := mul_pageSize_div page
        have hd' : page * pageSize / 2 ^ 12 = page := hdiv
        refine .inr ⟨trivial, page, pmm, user || (k &&
          ((update s.mem page fun _ => zero) t i).user), hpg, hf, hpmm, ?_⟩
        simp only [hz, if_false, hdiv, hd', setEntry]
    · exact .inl ⟨s.pmm, by rw [hr]; rfl, fun _ hu => hu, fun _ => ha⟩

/-- The table below an entry exists afterwards, unless the allocator has no page. -/
theorem ensureTable_spec (h : Tree s root) (htop : top <+: path) (hl : path.length ≤ 2)
    (ht : s.tableAt root path = some t) (i : Fin 512) (u k : Bool) :
    ∃ ok s', s.ensureTable t i u k = some (ok, s') ∧ Grows s s' root top ∧
      (ok = true → (s'.mem t i).present = true) := by
  obtain ⟨hp, u', hr⟩ | ⟨pmm, hr, hpmm, -⟩ | ⟨hp, page, pmm, u', hpg, hfr, hpmm, hr⟩ :=
    ensureTable_cases s t i u k
  · refine ⟨true, _, hr, grows_setFlags h htop hl ht i fun l => by simp [next, page,
      address], fun _ => ?_⟩
    exact (congrArg present (Radix.setEntry_same s.mem t i _)).trans hp
  · exact ⟨false, _, hr, grows_pmm h hpmm, fun hf => by cases hf⟩
  refine ⟨true, _, hr, grows_newTable h htop hl ht i hp hpg hfr hpmm
    (page_of_base hpg rfl), fun _ => ?_⟩
  exact congrArg present (Radix.setEntry_same _ t i _)
end
end Paging
end Menios.Mem
