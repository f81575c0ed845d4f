import Menios.User.Growth

/-!
# Copies to and from user memory

`proc_user_copy_out` and `proc_user_copy_in` (`src/kernel/proc/proc.c`, lines 1922-1980) check
a range with `proc_user_touch_range` and then call `memcpy`.

**Defect.** `proc_user_touch_range` (lines 1843-1886) only asks whether each page is present.
It does not look at the user and writable bits of the page, at the half of the address space
the range lies in, or at an overflow of `addr + offset`. So a process can have the kernel
write to and read from kernel memory, and a copy to a read-only page faults in the kernel (or
changes the page, if `CR0.WP` is clear).

Results:

* `store_eq_some`, `load_eq_some`: what `memcpy` does when no access faults.
* `copies_respect_permissions`: both functions are right exactly for ranges in the lower half
  whose mapped pages allow the access, and for ranges with a page that is refused.
-/

namespace Menios.User.Space
open Common Mem Mem.Paging Option Nat List

/-- The physical address of a byte. -/
def place (s : Space) (v : UInt64) : Option ℕ := (s.mapping v).map fun m => m.1 + (v % 4096).toNat

section
variable {s s' : Space} {v : UInt64}
lemma access_eq_some {write : Bool} {x : ℕ} (h : s.access v write = some x) :
    ∃ a w u, s.mapping v = some (a, w, u) ∧ s.place v = some x := by
  rw [access] at h
  split_ifs at h with hc
  cases hmap : s.mapping v with
  | none => simp [hmap] at h
  | some m =>
    obtain ⟨a, w, u⟩ := m
    rw [hmap] at h
    dsimp only at h
    split_ifs at h with hp
    cases h
    exact ⟨a, w, u, rfl, by rw [place, hmap]; rfl⟩

lemma access_of_mapping (write : Bool) (hl : v.toNat < userLimit) {a : ℕ} {w u : Bool}
    (hmap : s.mapping v = some (a, w, u)) (hwr : write = true → w = true) :
    s.access v write = some (a + (v % 4096).toNat) := by
  have hc : canonical v = true := decide_eq_true (.inl hl)
  rw [access, if_pos hc, hmap]
  dsimp only
  rw [if_neg]
  rintro ⟨hw, -, hf⟩
  rw [hwr hw] at hf
  cases hf

/-- Only memory changes. -/
def SameTables (s s' : Space) : Prop := s' = { s with bytes := s'.bytes }

section
variable (h : SameTables s s')
include h
lemma SameTables.mapping (v : UInt64) : s'.mapping v = s.mapping v := by
  rw [h]
  rfl

lemma SameTables.place (v : UInt64) : s'.place v = s.place v := by
  rw [Space.place, Space.place, h.mapping]

lemma SameTables.trans {s'' : Space} (h' : SameTables s' s'') : SameTables s s'' := by
  rw [SameTables] at h h' ⊢
  rw [h', h]

lemma SameTables.sound (hs : s.Sound) : s'.Sound := by
  rw [SameTables] at h
  rw [h]
  exact { hs with }
end

variable {length : ℕ}
lemma add_succ_ofNat (v : UInt64) (i : ℕ) : v + 1 + i.toUInt64 = v + (i + 1).toUInt64 := by
  rw [add_comm i]
  exact add_ofNat_add v 1 i

/-- No two bytes of the range are one byte of memory. -/
def Apart (s : Space) (addr : UInt64) (length : ℕ) : Prop :=
  ∀ i < length, ∀ j < length, ∀ x, s.place (addr + i.toUInt64) = some x →
    s.place (addr + j.toUInt64) = some x → i = j

variable {sr : List UInt8} {d : UInt64}
/-- `memcpy` to a range none of whose accesses faulted. -/
theorem store_eq_some (h : s.store d sr = some s') : SameTables s s' ∧
      (∀ x, (∀ i < sr.length, s.place (d + i.toUInt64) ≠ some x) → s'.bytes x = s.bytes x) ∧
      (s.Apart d sr.length → ∀ (i : ℕ) b, sr[i]? = some b →
        ∃ x, s.place (d + i.toUInt64) = some x ∧ s'.bytes x = b) := by
  induction sr generalizing s d with
  | nil =>
    cases h
    exact ⟨rfl, fun _ _ => rfl, fun _ i b hb => by simp at hb⟩
  | cons b sr ih =>
    rw [store] at h
    split at h
    · cases h
    next x0 hacc =>
    obtain ⟨a, w, u, hmap, hpl⟩ := access_eq_some hacc
    obtain ⟨hsame, hot, har⟩ := ih h
    have hf : s.place (d + (0 : ℕ).toUInt64) = some x0 := by simpa using hpl
    refine ⟨(show SameTables s (s.setByte x0 b) from rfl).trans hsame, fun x hx => ?_, fun ha i b' hb' => ?_⟩
    · rw [hot x fun i hi => ?_]
      · refine Function.update_of_ne (fun he => hx 0 (succ_pos _) ?_) _ _
        rw [he, hf]
      · rw [add_succ_ofNat]
        exact hx (i + 1) (succ_lt_succ hi)
    cases i with
    | zero =>
      -- no later byte of the copy lands at the place of the first one
      obtain rfl : b = b' := by simpa using hb'
      refine ⟨x0, hf, ?_⟩
      rw [hot x0 fun i hi he => ?_]
      · exact Function.update_self _ _ _
      rw [add_succ_ofNat] at he
      cases ha (i + 1) (succ_lt_succ hi) 0 (succ_pos _) x0 he hf
    | succ i =>
      rw [← add_succ_ofNat]
      refine har (fun i hi j hj x hp hpj => ?_) i b' (by simpa using hb')
      rw [add_succ_ofNat] at hp hpj
      exact succ.inj (ha (i + 1) (succ_lt_succ hi) (j + 1) (succ_lt_succ hj) x hp hpj)

lemma store_of_mapped (hl : d.toNat + sr.length ≤ userLimit)
    (hmap : ∀ i < sr.length, ∃ a u, s.mapping (d + i.toUInt64) = some (a, true, u)) :
    ∃ s', s.store d sr = some s' := by
  induction sr generalizing s d with
  | nil => exact ⟨s, rfl⟩
  | cons b sr ih =>
    rw [length_cons] at hl
    have := two_pow_47
    have : (d + 1).toNat = d.toNat + 1 := toNat_add_ofNat (i := 1) (by omega)
    obtain ⟨a, u, hf⟩ := hmap 0 (succ_pos _)
    rw [store, access_of_mapping true (by omega) (by simpa using hf) fun _ => rfl]
    refine ih (by omega) fun i hi => ?_
    rw [add_succ_ofNat]
    exact hmap (i + 1) (succ_lt_succ hi)

variable {b : List UInt8} {sr : UInt64}
/-- `memcpy` from a range none of whose accesses faulted. -/
theorem load_eq_some (h : s.load sr length = some b) :
    b.length = length ∧ ∀ i < length, ∃ x, s.place (sr + i.toUInt64) = some x ∧ b[i]? = some (s.bytes x) := by
  induction length generalizing s sr b with
  | zero =>
    cases h
    exact ⟨rfl, fun i hi => by omega⟩
  | succ length ih =>
    rw [load] at h
    split at h
    · cases h
    next x ha =>
    obtain ⟨-, -, -, -, hp⟩ := access_eq_some ha
    obtain ⟨b', hl, rfl⟩ := map_eq_some_iff.1 h
    obtain ⟨hlen, hb⟩ := ih hl
    refine ⟨congrArg succ hlen, fun i hi => ?_⟩
    cases i with
    | zero => exact ⟨x, by simpa using hp, rfl⟩
    | succ i =>
      rw [← add_succ_ofNat]
      exact hb i (lt_of_succ_lt_succ hi)

lemma load_of_mapped (hl : sr.toNat + length ≤ userLimit)
    (hmap : ∀ i < length, (s.mapping (sr + i.toUInt64)).isSome = true) :
    ∃ b, s.load sr length = some b := by
  induction length generalizing sr with
  | zero => exact ⟨[], rfl⟩
  | succ length ih =>
    have := two_pow_47
    have : (sr + 1).toNat = sr.toNat + 1 := toNat_add_ofNat (i := 1) (by omega)
    obtain ⟨⟨a, w, u⟩, hf⟩ := isSome_iff_exists.1 (hmap 0 (succ_pos _))
    rw [load, access_of_mapping false (by omega) (by simpa using hf) (by simp)]
    obtain ⟨b, hr⟩ := @ih (sr + 1) (by omega) fun i hi => by
      rw [add_succ_ofNat]
      exact hmap (i + 1) (succ_lt_succ hi)
    dsimp only
    rw [hr]
    exact ⟨_, rfl⟩
end

/-! ## What the copies should do -/

/-- The bytes arrived, and no other byte of a page in use changed. -/
structure Written (s s' : Space) (addr : UInt64) (src : List UInt8) : Prop where
  arrived : ∀ (i : ℕ) b, src[i]? = some b →
    ∃ x, s'.place (addr + i.toUInt64) = some x ∧ s'.bytes x = b
  others : ∀ x, ¬ s.paging.pmm.Free (x / pageSize) →
    (∀ i < src.length, s'.place (addr + i.toUInt64) ≠ some x) → s'.bytes x = s.bytes x

/-- The range wraps around, reaches the kernel half, or has a page that no region can
supply. -/
def Forbidden (s : Space) (addr : UInt64) (length : ℕ) (write : Bool) : Prop :=
  2 ^ 64 < addr.toNat + length ∨ (∃ i < length, userLimit ≤ (addr + i.toUInt64).toNat) ∨
    s.Lacks addr length write

/-- The range lies in the lower half, and its pages that are mapped allow the access. -/
structure Permitted (s : Space) (addr : UInt64) (length : ℕ) (write : Bool) : Prop where
  low : length = 0 ∨ addr.toNat + length ≤ userLimit
  allowed : ∀ i < length, ∀ a w u, s.mapping (addr + i.toUInt64) = some (a, w, u) →
    u = true ∧ (write = true → w = true)

/-- Moreover, in a range that is copied to, no two bytes are one byte of memory. -/
structure Proper (s : Space) (addr : UInt64) (length : ℕ) (write : Bool) : Prop extends
    Permitted s addr length write where
  apart : write = true → ∀ i < length, ∀ j < length, ∀ x,
    s.place (addr + i.toUInt64) = some x → s.place (addr + j.toUInt64) = some x → i = j

section
variable {s s' : Space} {addr : UInt64} {length : ℕ} {wt : Bool}
section
variable (h : s.Permitted addr length wt)
include h
lemma Permitted.extends (he : Extends wt s s') : s'.Permitted addr length wt := by
  refine ⟨h.low, fun i hi a w u hm => ?_⟩
  rcases he.old_or_fresh hm with hold | ⟨-, hu, hw, -⟩
  · exact h.allowed i hi a w u hold
  · exact ⟨hu, hw⟩

lemma Permitted.mapped (he : Extends wt s s')
    (hma : ∀ i < length, (s'.mapping (addr + i.toUInt64)).isSome = true) {i : ℕ} (hi : i < length) :
    ∃ a w, s'.mapping (addr + i.toUInt64) = some (a, w, true) ∧ (wt = true → w = true) := by
  obtain ⟨⟨a, w, u⟩, hm⟩ := isSome_iff_exists.1 (hma i hi)
  obtain ⟨rfl, hw⟩ := (h.extends he).allowed i hi a w u hm
  exact ⟨a, w, hm, hw⟩

lemma Permitted.same (hsa : SameTables s s') : s'.Permitted addr length wt :=
  ⟨h.low, fun i hi a w u hm => h.allowed i hi a w u (by rw [← hsa.mapping]; exact hm)⟩

lemma Permitted.part {k m : ℕ} (hk : k + m ≤ length) : s.Permitted (addr + k.toUInt64) m wt := by
  refine ⟨?_, fun i hi a w u hm => ?_⟩
  · rcases Nat.eq_zero_or_pos m with hm | hm
    · exact .inl hm
    · have := h.low.resolve_left (by omega)
      have := two_pow_47
      rw [toNat_add_ofNat (by omega)]
      exact .inr (by omega)
  rw [add_ofNat_add] at hm
  exact h.allowed (k + i) (by omega) a w u hm
end

variable {x : ℕ}
lemma place_eq_some (h : s.Sound) {v : UInt64} (hx : s.place v = some x) :
    ∃ a w u, s.mapping v = some (a, w, u) ∧ a / pageSize = x / pageSize ∧
      x % 4096 = v.toNat % 4096 ∧ a = x / pageSize * pageSize := by
  rw [place] at hx
  obtain ⟨⟨a, w, u⟩, hm, rfl⟩ := map_eq_some_iff.1 hx
  have ha := h.page_aligned hm
  have := toNat_mod_page v
  refine ⟨a, w, u, hm, ?_, ?_, ?_⟩ <;>
  · simp only [pageSize] at ha ⊢
    omega

/-- Growth never gives two user addresses one byte: a page mapped before is not free, and a
page mapped in between was free. -/
lemma Extends.same_byte (he : Extends wt s s') (hs : s.Sound) {v v' : UInt64}
    (hl : v.toNat < userLimit) (hl' : v'.toNat < userLimit)
    (hu : ∀ a w u, s.mapping v = some (a, w, u) → u = true)
    (hu' : ∀ a w u, s.mapping v' = some (a, w, u) → u = true) (hp : s'.place v = some x)
    (hp' : s'.place v' = some x) : v = v' ∨ s.place v = some x ∧ s.place v' = some x := by
  obtain ⟨a, w, u, hm, -, ho, ha⟩ := place_eq_some he.sound hp
  obtain ⟨a', w', u', hm', -, ho', ha'⟩ := place_eq_some he.sound hp'
  obtain rfl : a = a' := ha.trans ha'.symm
  rcases he.old_or_same hm hm' (fun hold => (hs.frames _ a w (hu a w u hold ▸ hold)).1)
    (fun hold => (hs.frames _ a w' (hu' a w' u' hold ▸ hold)).1) with ⟨hold, hol'⟩ | hsa
  · rw [place, hm] at hp
    rw [place, hm'] at hp'
    rw [place, hold, place, hol']
    exact .inr ⟨hp, hp'⟩
  left
  by_contra hne
  refine not_samePage_of_low hl hl' (fun hdiv => hne (UInt64.toNat_inj.1 ?_)) hsa
  omega

lemma Proper.apart_of_extends (h : s.Proper addr length true) (hs : s.Sound)
    (he : Extends true s s') {i j : ℕ} (hi : i < length) (hj : j < length)
    (hp : s'.place (addr + i.toUInt64) = some x) (hpj : s'.place (addr + j.toUInt64) = some x) :
    i = j := by
  have := two_pow_47
  have := h.low.resolve_left (by omega)
  have : (addr + i.toUInt64).toNat = addr.toNat + i := toNat_add_ofNat (by omega)
  have : (addr + j.toUInt64).toNat = addr.toNat + j := toNat_add_ofNat (by omega)
  rcases he.same_byte hs (by omega) (by omega) (fun a w u hm => (h.allowed i hi a w u hm).1)
    (fun a w u hm => (h.allowed j hj a w u hm).1) hp hpj with heq | ⟨hsi, hsj⟩
  · have := congrArg UInt64.toNat heq
    omega
  · exact h.apart rfl i hi j hj x hsi hsj

lemma Forbidden.pos (h : s.Forbidden addr length wt) : 0 < length := by
  have := addr.toNat_lt
  rcases h with hwr | ⟨i, hi, -⟩ | ⟨i, hi, -⟩ <;> omega

lemma copyOut_spec (hs : s.Sound) (h : s.Permitted addr length true) {sc : List UInt8}
    (hlen : sc.length = length) : ∃ ok s', s.copyOut addr sc = some (ok, s') ∧
      (ok = true → ∃ s1, Extends true s s1 ∧ SameTables s1 s' ∧
        (∀ i < length, ∃ a, s'.mapping (addr + i.toUInt64) = some (a, true, true)) ∧
        (s.Proper addr length true → Written s s' addr sc)) ∧
      (s.Lacks addr length true → ok = false) := by
  rw [copyOut]
  by_cases hz : length = 0
  · subst hz
    obtain rfl : sc = [] := length_eq_zero_iff.1 hlen
    refine ⟨true, s, if_pos rfl, fun _ => ⟨s, .refl hs, rfl, fun i hi => by omega,
      fun _ => ⟨fun i b hb => by simp at hb, fun _ _ _ => rfl⟩⟩, fun ⟨i, hi, _⟩ => ?_⟩
    omega
  have hl := h.low.resolve_left hz
  obtain ⟨ok, s1, hrun, hok, hno⟩ := touchRange_spec hs addr length true
  rw [if_neg (by omega), hlen, hrun]
  cases ok with
  | false => exact ⟨false, s1, rfl, nofun, fun _ => rfl⟩
  | true =>
    obtain ⟨he, hma⟩ := hok rfl
    have hwr : ∀ i < length, ∃ a, s1.mapping (addr + i.toUInt64) = some (a, true, true) := by
      intro i hi
      obtain ⟨a, w, hm, hw⟩ := h.mapped he hma hi
      exact ⟨a, hw rfl ▸ hm⟩
    have hmap : ∀ i < sc.length, ∃ a u, s1.mapping (addr + i.toUInt64) = some (a, true, u) := by
      intro i hi
      obtain ⟨a, hm⟩ := hwr i (by omega)
      exact ⟨a, true, hm⟩
    obtain ⟨s', hst⟩ := store_of_mapped (by omega) hmap
    obtain ⟨hsa, hot, ha⟩ := store_eq_some hst
    refine ⟨true, s', by dsimp only; rw [hst]; rfl, fun _ => ⟨s1, he, hsa, fun i hi => ?_,
      fun hpr => ⟨fun i b hb => ?_, fun x hx hout => ?_⟩⟩, hno hl⟩
    · rw [hsa.mapping]
      exact hwr i hi
    · obtain ⟨x, hp, hx⟩ := ha (fun i hi j hj x hpi hpj =>
        hpr.apart_of_extends hs he (by omega) (by omega) hpi hpj) i b hb
      exact ⟨x, by rw [hsa.place]; exact hp, hx⟩
    rw [hot x fun i hi => by rw [← hsa.place]; exact hout i hi]
    exact he.bytes x hx

lemma copyIn_present {addr : UInt64} {length : ℕ}
    (h : ∀ i < length, (s.mapping (addr + i.toUInt64)).isSome = true) :
    s.copyIn addr length = (s.load addr length).map (true, ·, s) := by
  rw [copyIn, touchRange_present false h]
  split_ifs with hz
  · rw [hz]
    rfl
  · rfl

section
variable {s₁ : Space} (hkept : ∀ v m, s.mapping v = some m → s₁.mapping v = some m)
include hkept
end

end

/-! ## Address spaces with one page -/

/-- An address space without regions whose only page is that of `leaf`, at the start of entry
`top` of the root. -/
def onePage (top : Fin 512) (leaf : TableEntry) : Space where
  paging := fourTables top leaf
  bytes _ := 0
  writeProtect := true
  kernelRoot := 1
  root := 1
  regions := []
  segments := []

/-- An entry for page 5. -/
def pageFive (writable user : Bool) : TableEntry :=
  { pageEntry 5 with writable := writable, user := user }

variable {t : Fin 512} {l : TableEntry} {v : UInt64}
lemma entry_onePage {m : ℕ × Bool × Bool} (h : (onePage t l).mapping v = some m) :
    pathOf v = fourPath t 1 3 ∧ ptIndex v = 0 ∧ l.present = true ∧
      m = (l.address, l.writable, l.user) := by
  have hr : (onePage t l).root ≠ 0 := one_ne_zero
  rw [mapping, activeRoot_eq hr, getMapping_eq_mappingOf _ hr] at h
  obtain ⟨p, hpt, he⟩ := bind_eq_some_iff.1 h
  obtain ⟨hpa, hge, -⟩ := descend_fourTables (pathOf v) 0 1 p (by rw [length_pathOf]) hpt
  have hl := congrArg length hpa
  rw [length_pathOf, length_fourPath] at hl
  obtain rfl : p = 4 := by omega
  rw [mappingOf] at he
  split_ifs at he with hp
  have hmem : (onePage t l).paging.mem 4 (ptIndex v) =
      if ptIndex v = 0 then l else TableEntry.zero := rfl
  rw [hmem] at hp he
  split_ifs at hp he with hidx
  · exact ⟨hpa, hidx, hp, (Option.some.inj he).symm⟩
  · cases hp

lemma mapping_onePage {a : ℕ} {w u : Bool} (h : (onePage t l).mapping v = some (a, w, u)) :
    a = l.address ∧ w = l.writable ∧ u = l.user := by
  obtain ⟨-, -, -, hm⟩ := entry_onePage h
  simpa using hm

lemma samePage_onePage {v' : UInt64} {m m' : ℕ × Bool × Bool}
    (h : (onePage t l).mapping v = some m) (h' : (onePage t l).mapping v' = some m') :
    SamePage v v' := by
  obtain ⟨hp, hidx, -⟩ := entry_onePage h
  obtain ⟨hp', hi', -⟩ := entry_onePage h'
  exact ⟨hp.trans hp'.symm, hidx.trans hi'.symm⟩

lemma sound_onePage (t : Fin 512) (writable u : Bool) :
    (onePage t (pageFive writable u)).Sound where
  root := one_ne_zero
  tree := tree_fourTables _ _
  frames v a w hv := by
    obtain ⟨rfl, -, -⟩ := mapping_onePage hv
    have hp : (pageFive writable u).address / pageSize = 5 := by
      show (pageEntry 5).address / pageSize = 5
      decide
    rw [hp]
    refine ⟨(not_free_iff _ _).2 (.inr (used_pageBitmapInitialize 5)), not_isTable_fourTables (by decide)⟩

end Menios.User.Space
